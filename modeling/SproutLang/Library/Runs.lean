/-
  SproutLang.Library.Runs
  ───────────────────────
  **RUNS OF A LABELLED TRANSITION SYSTEM.**

  `Steps step s is t` is a run from `s` to `t` that takes the steps labelled
  `is`.  `Steps.invariant` turns what one step keeps into what a run keeps,
  `Steps.transfer` and `Steps.replace` exchange the steps of a run, or a
  condition on them, for others that agree with them wherever an invariant
  holds, and `Steps.simulate` maps a run of one system to a run of another,
  `Steps.simulate_until` as far as the other goes.
-/
import Mathlib.Data.List.Forall2
import Mathlib.Tactic.Common

namespace SproutLang.Library

variable {σ τ ι : Type}

/-- A run, step by step. -/
inductive Steps (step : σ → ι → σ → Prop) : σ → List ι → σ → Prop where
  | nil (s : σ) : Steps step s [] s
  | snoc {s t u : σ} {is : List ι} {i : ι} (before : Steps step s is t) (last : step t i u) :
      Steps step s (is ++ [i]) u

/-- The steps of `step` that also meet a condition on where they start. -/
def Guarded (step : σ → ι → σ → Prop) (P : σ → ι → Prop) (s : σ) (i : ι) (t : σ) : Prop :=
  step s i t ∧ P s i

/-- Every step of a run that `next` computes may be taken. -/
def Along (next : σ → ι → σ) (ok : σ → ι → Prop) : σ → List ι → Prop
  | _, [] => True
  | s, i :: is => ok s i ∧ Along next ok (next s i) is

instance decidableAlong (next : σ → ι → σ) (ok : σ → ι → Prop) [∀ s i, Decidable (ok s i)] :
    ∀ s is, Decidable (Along next ok s is)
  | _, [] => isTrue trivial
  | s, i :: is =>
      have := decidableAlong next ok (next s i) is
      inferInstanceAs (Decidable (ok s i ∧ Along next ok (next s i) is))

namespace Steps

variable {step : σ → ι → σ → Prop} {P Q : σ → ι → Prop} {s t : σ} {is : List ι}

/-- **The invariant rule.** -/
theorem invariant (hrun : Steps step s is t) (I : σ → Prop) (h0 : I s)
    (hstep : ∀ s i t, I s → step s i t → I t) : I t := by
  induction hrun with
  | nil => exact h0
  | snoc _ last ih => exact hstep _ _ _ ih last

/-- A run of one system is a run of another, if every step from a state in the
invariant is one of the other system and keeps the invariant. -/
theorem transfer {step' : σ → ι → σ → Prop} (hrun : Steps step s is t) (I : σ → Prop) (h0 : I s)
    (hstep : ∀ s i t, I s → step s i t → step' s i t ∧ I t) : Steps step' s is t ∧ I t := by
  induction hrun with
  | nil => exact ⟨nil s, h0⟩
  | snoc _ last ih =>
      obtain ⟨hbefore, hI⟩ := ih
      obtain ⟨hlast, hI'⟩ := hstep _ _ _ hI last
      exact ⟨hbefore.snoc hlast, hI'⟩

/-- Two conditions that agree wherever the invariant holds guard the same
runs. -/
theorem replace (hrun : Steps (Guarded step P) s is t) (I : σ → Prop) (h0 : I s)
    (hPQ : ∀ s i t, I s → step s i t → P s i → Q s i)
    (hkeep : ∀ s i t, I s → step s i t → Q s i → I t) :
    Steps (Guarded step Q) s is t ∧ I t :=
  hrun.transfer I h0 fun s i t hI hlast => by
    have hQ := hPQ s i t hI hlast.1 hlast.2
    exact ⟨⟨hlast.1, hQ⟩, hkeep s i t hI hlast.1 hQ⟩

/-- **Forward simulation.** -/
theorem simulate {astep : τ → ι → τ → Prop} {R : σ → τ → Prop} {a : τ}
    (hrun : Steps step s is t) (h0 : R s a)
    (hstep : ∀ s i s' a, R s a → step s i s' → ∃ a', astep a i a' ∧ R s' a') :
    ∃ b, Steps astep a is b ∧ R t b := by
  induction hrun with
  | nil => exact ⟨a, nil a, h0⟩
  | snoc _ last ih =>
      obtain ⟨b, hb, hR⟩ := ih
      obtain ⟨b', hb', hR'⟩ := hstep _ _ _ _ hR last
      exact ⟨b', hb.snoc hb', hR'⟩

/-- **Two runs side by side**: what each pair of steps with one label keeps, the
runs keep. -/
theorem lockstep {astep : τ → ι → τ → Prop} {R : σ → τ → Prop} {a b : τ}
    (hrun : Steps step s is t) (hrun' : Steps astep a is b) (h0 : R s a)
    (hstep : ∀ s i s' a a', R s a → step s i s' → astep a i a' → R s' a') : R t b := by
  induction hrun generalizing b with
  | nil =>
      generalize hlabels : ([] : List ι) = js at hrun'
      cases hrun' with
      | nil => exact h0
      | snoc before last => exact absurd hlabels (by simp)
  | @snoc t u is i _ last ih =>
      generalize hlabels : is ++ [i] = js at hrun'
      cases hrun' with
      | nil => exact absurd hlabels (by simp)
      | snoc before last' =>
          obtain ⟨rfl, hi⟩ := List.append_inj' hlabels rfl
          obtain rfl := List.cons.inj hi |>.1
          exact hstep _ _ _ _ _ (ih before) last last'

/-- **Forward simulation up to a stop**: the other system follows the run, as
long as it is in no state in which it may stop. -/
theorem simulate_until {κ : Type} {astep : τ → κ → τ → Prop} {L : ι → κ → Prop} {a : τ}
    (hrun : Steps step s is t) (R : σ → τ → Prop) (stops : τ → Prop) (h0 : R s a)
    (hstep : ∀ s i s' a, R s a → step s i s' →
      stops a ∨ ∃ k a', astep a k a' ∧ L i k ∧ R s' a') :
    (∃ ks b, Steps astep a ks b ∧ List.Forall₂ L is ks ∧ R t b) ∨
    ∃ front rest ks b, is = front ++ rest ∧ rest ≠ [] ∧ Steps astep a ks b ∧
      List.Forall₂ L front ks ∧ stops b := by
  induction hrun with
  | nil => exact Or.inl ⟨[], a, nil a, List.Forall₂.nil, h0⟩
  | @snoc t u is i _ last ih =>
      rcases ih with ⟨ks, b, hb, hks, hR⟩ | ⟨front, rest, ks, b, rfl, hne, hb, hks, hstops⟩
      · rcases hstep _ _ _ _ hR last with hstops | ⟨k, b', hb', hk, hR'⟩
        · exact Or.inr ⟨is, [i], ks, b, rfl, List.cons_ne_nil _ _, hb, hks, hstops⟩
        · exact Or.inl ⟨ks ++ [k], b', hb.snoc hb',
            List.rel_append hks (List.Forall₂.cons hk List.Forall₂.nil), hR'⟩
      · exact Or.inr ⟨front, rest ++ [i], ks, b, List.append_assoc .., by simp, hb, hks, hstops⟩

/-- One step in front of a run. -/
theorem cons {i : ι} {u : σ} (first : step s i u) (hrun : Steps step u is t) :
    Steps step s (i :: is) t := by
  induction hrun with
  | nil => exact snoc (nil s) first
  | snoc _ last ih => exact snoc ih last

/-- Following `next` along more labels continues a run. -/
theorem append_along {next : σ → ι → σ} {ok : σ → ι → Prop}
    (hnext : ∀ s i, ok s i → step s i (next s i)) {s0 : σ} (is : List ι) :
    ∀ (before : List ι) (s : σ), Steps step s0 before s → Along next ok s is →
      Steps step s0 (before ++ is) (is.foldl next s) := by
  induction is with
  | nil =>
      intro before s hbefore _
      rw [List.append_nil]
      exact hbefore
  | cons i is ih =>
      intro before s hbefore halong
      have hmore := ih (before ++ [i]) (next s i) (hbefore.snoc (hnext s i halong.1)) halong.2
      rw [List.append_assoc] at hmore
      exact hmore

/-- **A computed run**: where `next` computes the step of every state that
meets `ok`, following it along a list of labels is a run. -/
theorem of_along {next : σ → ι → σ} {ok : σ → ι → Prop}
    (hnext : ∀ s i, ok s i → step s i (next s i)) {is : List ι} {s : σ}
    (h : Along next ok s is) : Steps step s is (is.foldl next s) :=
  append_along hnext is [] s (nil s) h

end Steps

end SproutLang.Library
