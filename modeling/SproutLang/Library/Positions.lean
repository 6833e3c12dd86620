/-
  SproutLang.Library.Positions
  ────────────────────────────
  **READING A LIST FROM THE LEFT.**

  `Everywhere P l` says that every element of a list has the property `P`
  where it stands, which may depend on what stands before it.  Either that
  holds or there is a first element that fails (`Everywhere.or_first`), and
  no list has two (`FirstFailure.unique`).
-/
import Mathlib.Data.List.Induction

namespace SproutLang.Library

variable {α : Type} {P Q : List α → α → Prop} {l before after : List α} {x : α}

/-- Every element has the property, behind the elements before it. -/
def Everywhere (P : List α → α → Prop) (l : List α) : Prop :=
  ∀ before x after, l = before ++ x :: after → P before x

/-- The first element that does not have it. -/
structure FirstFailure (P : List α → α → Prop) (l before : List α) (x : α) (after : List α) :
    Prop where
  split : l = before ++ x :: after
  clear : Everywhere P before
  fails : ¬ P before x

namespace Everywhere

theorem nil : Everywhere P [] := by
  intro before x after h
  exact absurd h (by simp)

/-- What holds at every position implies what follows from it. -/
theorem mono (h : Everywhere P l) (hPQ : ∀ before x, P before x → Q before x) : Everywhere Q l :=
  fun before x after hl => hPQ before x (h before x after hl)

/-- It holds in every prefix. -/
theorem prefix_of (h : Everywhere P (l ++ after)) : Everywhere P l := by
  intro before x rest hl
  exact h before x (rest ++ after) (by rw [hl, List.append_assoc, List.cons_append])

theorem at_end (h : Everywhere P (l ++ x :: after)) : P l x := h l x after rfl

/-- One more member is one more position. -/
theorem snoc_iff : Everywhere P (l ++ [x]) ↔ Everywhere P l ∧ P l x := by
  constructor
  · intro h
    exact ⟨h.prefix_of, h.at_end⟩
  · intro h before y after hl
    rcases List.eq_nil_or_concat after with rfl | ⟨init, z, rfl⟩
    · -- the last element
      obtain ⟨rfl, hy⟩ := List.append_inj' hl rfl
      injection hy with hy
      rw [← hy]
      exact h.2
    · rw [List.concat_eq_append, ← List.cons_append, ← List.append_assoc] at hl
      obtain ⟨hl, -⟩ := List.append_inj' hl rfl
      exact h.1 before y init hl

/-- **All elements have it, or one is the first that fails.** -/
theorem or_first (P : List α → α → Prop) (l : List α) :
    Everywhere P l ∨ ∃ before x after, FirstFailure P l before x after := by
  induction l using List.reverseRecOn with
  | nil => exact Or.inl nil
  | append_singleton l x ih =>
      rcases ih with hall | ⟨before, y, after, hfirst⟩
      · by_cases hx : P l x
        · exact Or.inl (snoc_iff.2 ⟨hall, hx⟩)
        · exact Or.inr ⟨l, x, [], rfl, hall, hx⟩
      · refine Or.inr ⟨before, y, after ++ [x], ?_, hfirst.clear, hfirst.fails⟩
        rw [hfirst.split, List.append_assoc, List.cons_append]

end Everywhere

/-- **There is one first failure.** -/
theorem FirstFailure.unique {before' after' : List α} {x' : α}
    (h : FirstFailure P l before x after) (h' : FirstFailure P l before' x' after') :
    before = before' ∧ x = x' ∧ after = after' := by
  have hsplit : before ++ x :: after = before' ++ x' :: after' := h.split.symm.trans h'.split
  rcases List.append_eq_append_iff.1 hsplit with ⟨more, hbefore, hafter⟩ | ⟨more, hbefore, hafter⟩
  · cases more with
    | nil =>
        injection hafter with hx hafter
        exact ⟨by rw [hbefore, List.append_nil], hx, hafter⟩
    | cons y more =>
        injection hafter with hx _
        exact absurd (h'.clear before x more (by rw [hbefore, hx])) h.fails
  · cases more with
    | nil =>
        injection hafter with hx hafter
        exact ⟨by rw [hbefore, List.append_nil], hx.symm, hafter.symm⟩
    | cons y more =>
        injection hafter with hx _
        exact absurd (h.clear before' x' more (by rw [hbefore, hx])) h'.fails

end SproutLang.Library
