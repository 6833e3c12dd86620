/-
  SproutLang.Library.Outline
  ──────────────────────────
  **TREES WRITTEN WITH INDENTATION.**

  A tree is written as its labels in preorder, each on a line of its own,
  indented by its depth.  The number of children is not written, and need not
  be:

    • `outlines_append_inj` — the depths alone say where a subtree ends,
    • `lines_inj`           — the lines of a text and their indentation,
    • `outlineText_inj`     — **the text determines the tree.**
-/
import Mathlib.Data.List.Basic
import Mathlib.Data.Prod.Basic

namespace SproutLang.Library

/-! ## §1. Trees and their outline. -/

/-- A tree with a label at every node. -/
inductive Rose (α : Type) where
  | node (label : α) (children : List (Rose α))

section Outline

variable {α : Type}

mutual

/-- The labels in preorder, each with its depth. -/
def outline (depth : Nat) : Rose α → List (Nat × α)
  | .node a ts => (depth, a) :: outlines (depth + 1) ts

/-- The lines of a forest, all roots at one depth. -/
def outlines (depth : Nat) : List (Rose α) → List (Nat × α)
  | [] => []
  | t :: ts => outline depth t ++ outlines depth ts

end

/-- What follows starts at a depth below `depth`, if it starts at all. -/
def EndsAt (depth : Nat) (rest : List (Nat × α)) : Prop := ∀ r ∈ rest.head?, r.1 < depth

theorem EndsAt.nil (depth : Nat) : EndsAt depth ([] : List (Nat × α)) := by
  intro r hr
  exact absurd hr (by simp)

/-- A tree's outline starts at its own depth. -/
theorem outline_cons (depth : Nat) (t : Rose α) :
    ∃ a rest, outline depth t = (depth, a) :: rest := by
  cases t with
  | node a ts => exact ⟨a, _, rfl⟩

/-- A forest is over before anything of a lower depth. -/
theorem endsAt_outlines {depth : Nat} {ts : List (Rose α)} {rest : List (Nat × α)}
    (hrest : EndsAt depth rest) : EndsAt (depth + 1) (outlines depth ts ++ rest) := by
  intro r hr
  cases ts with
  | nil => exact Nat.lt_succ_of_lt (hrest r hr)
  | cons t ts =>
      obtain ⟨a, tail, ht⟩ := outline_cons depth t
      simp only [outlines, ht, List.cons_append, List.head?_cons, Option.mem_some_iff] at hr
      rw [← hr]
      exact Nat.lt_succ_self depth

/-- A forest that is not empty does not start below its depth. -/
theorem not_endsAt_outlines {depth : Nat} {t : Rose α} {ts : List (Rose α)}
    {rest : List (Nat × α)} : ¬ EndsAt depth (outlines depth (t :: ts) ++ rest) := by
  intro h
  obtain ⟨a, tail, ht⟩ := outline_cons depth t
  have hlt := h (depth, a) (by simp [outlines, ht])
  exact absurd hlt (Nat.lt_irrefl depth)

mutual

/-- The outline of a tree shows where it ends. -/
theorem outline_append_inj {depth : Nat} (t u : Rose α) {rest rest' : List (Nat × α)}
    (h : outline depth t ++ rest = outline depth u ++ rest') (hrest : EndsAt (depth + 1) rest)
    (hrest' : EndsAt (depth + 1) rest') : t = u ∧ rest = rest' := by
  cases t with
  | node a ts =>
      cases u with
      | node b us =>
          simp only [outline, List.cons_append, List.cons.injEq, Prod.mk.injEq, true_and] at h
          obtain ⟨rfl, h⟩ := h
          obtain ⟨rfl, hrests⟩ := outlines_append_inj ts us h hrest hrest'
          exact ⟨rfl, hrests⟩

/-- **The outline of a forest shows its trees.** -/
theorem outlines_append_inj {depth : Nat} (ts us : List (Rose α)) {rest rest' : List (Nat × α)}
    (h : outlines depth ts ++ rest = outlines depth us ++ rest') (hrest : EndsAt depth rest)
    (hrest' : EndsAt depth rest') : ts = us ∧ rest = rest' := by
  cases ts with
  | nil =>
      cases us with
      | nil => exact ⟨rfl, h⟩
      | cons u us =>
          simp only [outlines, List.nil_append] at h
          rw [h] at hrest
          exact absurd hrest not_endsAt_outlines
  | cons t ts =>
      cases us with
      | nil =>
          rw [show outlines depth [] ++ rest' = rest' from rfl] at h
          rw [← h] at hrest'
          exact absurd hrest' not_endsAt_outlines
      | cons u us =>
          simp only [outlines, List.append_assoc] at h
          -- the first tree, then the others
          obtain ⟨rfl, htail⟩ :=
            outline_append_inj t u h (endsAt_outlines hrest) (endsAt_outlines hrest')
          obtain ⟨rfl, hrests⟩ := outlines_append_inj ts us htail hrest hrest'
          exact ⟨rfl, hrests⟩

end

/-- **An outline determines its tree.** -/
theorem outline_inj {depth : Nat} {t u : Rose α} (h : outline depth t = outline depth u) : t = u := by
  have happend : outline depth t ++ [] = outline depth u ++ [] := by rw [h]
  exact (outline_append_inj t u happend (.nil _) (.nil _)).1

mutual

/-- Every label of a tree. -/
def Rose.labels : Rose α → List α
  | .node a ts => a :: forestLabels ts

/-- The labels of a forest, in the order of its lines. -/
def forestLabels : List (Rose α) → List α
  | [] => []
  | t :: ts => t.labels ++ forestLabels ts

end

mutual

/-- The labels of the outline are those of the tree. -/
theorem outline_map_snd (depth : Nat) (t : Rose α) :
    (outline depth t).map Prod.snd = t.labels := by
  cases t with
  | node a ts =>
      simp only [outline, Rose.labels, List.map_cons]
      rw [outlines_map_snd]

theorem outlines_map_snd (depth : Nat) (ts : List (Rose α)) :
    (outlines depth ts).map Prod.snd = forestLabels ts := by
  cases ts with
  | nil => rfl
  | cons t ts =>
      simp only [outlines, forestLabels, List.map_append]
      rw [outline_map_snd, outlines_map_snd]

end

end Outline

/-! ## §2. Lines. -/

/-- A label that stands on one line and starts with no blank. -/
def OneLine (label : List Char) : Prop := '\n' ∉ label ∧ label.head? ≠ some ' '

/-- A line: `width` blanks for each level, the label and the newline. -/
def line (width : Nat) (r : Nat × List Char) : List Char :=
  List.replicate (r.1 * width) ' ' ++ r.2 ++ ['\n']

section Lines

variable {width : Nat}

/-- The blanks in front of a label are counted by its first character. -/
theorem indent_inj {n m : Nat} {a b : List Char} (ha : a.head? ≠ some ' ')
    (hb : b.head? ≠ some ' ') (h : List.replicate n ' ' ++ a = List.replicate m ' ' ++ b) :
    n = m ∧ a = b := by
  induction n generalizing m with
  | zero =>
      cases m with
      | zero => exact ⟨rfl, h⟩
      | succ m =>
          rw [List.replicate_zero, List.nil_append] at h
          rw [h] at ha
          exact absurd rfl ha
  | succ n ih =>
      cases m with
      | zero =>
          rw [List.replicate_zero, List.nil_append] at h
          rw [← h] at hb
          exact absurd rfl hb
      | succ m =>
          rw [List.replicate_succ, List.replicate_succ, List.cons_append, List.cons_append] at h
          obtain ⟨hnm, hab⟩ := ih (List.cons.inj h).2
          exact ⟨by rw [hnm], hab⟩

/-- A text is cut at its first newline. -/
theorem newline_inj {a b s s' : List Char} (ha : '\n' ∉ a) (hb : '\n' ∉ b)
    (h : a ++ '\n' :: s = b ++ '\n' :: s') : a = b ∧ s = s' := by
  induction a generalizing b with
  | nil =>
      cases b with
      | nil => exact ⟨rfl, (List.cons.inj h).2⟩
      | cons c b =>
          have hc := (List.cons.inj h).1
          rw [← hc] at hb
          exact absurd List.mem_cons_self hb
  | cons c a ih =>
      cases b with
      | nil =>
          have hc := (List.cons.inj h).1
          rw [hc] at ha
          exact absurd List.mem_cons_self ha
      | cons d b =>
          obtain ⟨rfl, htail⟩ := List.cons.inj h
          rw [List.mem_cons, not_or] at ha hb
          obtain ⟨rfl, hs⟩ := ih ha.2 hb.2 htail
          exact ⟨rfl, hs⟩

/-- The first line of a text is determined. -/
theorem line_append_inj {r r' : Nat × List Char} {s s' : List Char} (hwidth : 0 < width)
    (hr : OneLine r.2) (hr' : OneLine r'.2) (h : line width r ++ s = line width r' ++ s') :
    r = r' ∧ s = s' := by
  have hno : ∀ q : Nat × List Char, OneLine q.2 →
      '\n' ∉ List.replicate (q.1 * width) ' ' ++ q.2 := by
    intro q hq hmem
    rcases List.mem_append.1 hmem with hmem | hmem
    · exact absurd (List.eq_of_mem_replicate hmem) (by decide)
    · exact hq.1 hmem
  have hcut : (List.replicate (r.1 * width) ' ' ++ r.2) ++ '\n' :: s
      = (List.replicate (r'.1 * width) ' ' ++ r'.2) ++ '\n' :: s' := by
    simpa [line] using h
  obtain ⟨hline, hs⟩ := newline_inj (hno r hr) (hno r' hr') hcut
  obtain ⟨hdepth, hlabel⟩ := indent_inj hr.2 hr'.2 hline
  exact ⟨Prod.ext (Nat.eq_of_mul_eq_mul_right hwidth hdepth) hlabel, hs⟩

/-- **The lines of a text.** -/
theorem lines_inj (hwidth : 0 < width) :
    ∀ rows rows' : List (Nat × List Char), (∀ r ∈ rows, OneLine r.2) → (∀ r ∈ rows', OneLine r.2) →
      rows.flatMap (line width) = rows'.flatMap (line width) → rows = rows' := by
  have hne : ∀ (r : Nat × List Char) (s : List Char), [] ≠ line width r ++ s := by
    intro r s h
    have hlen := congrArg List.length h
    simp [line] at hlen
  intro rows
  induction rows with
  | nil =>
      intro rows' _ _ h
      cases rows' with
      | nil => rfl
      | cons r' rows' => exact absurd h (hne r' _)
  | cons r rows ih =>
      intro rows' hrows hrows' h
      cases rows' with
      | nil => exact absurd h.symm (hne r _)
      | cons r' rows' =>
          rw [List.forall_mem_cons] at hrows hrows'
          rw [List.flatMap_cons, List.flatMap_cons] at h
          obtain ⟨rfl, hrest⟩ := line_append_inj hwidth hrows.1 hrows'.1 h
          rw [ih rows' hrows.2 hrows'.2 hrest]

end Lines

/-! ## §3. Texts. -/

section Text

variable {α : Type} {text : α → List Char} {width depth : Nat}

/-- The text of a tree whose root is at `depth`. -/
def outlineText (text : α → List Char) (width depth : Nat) (t : Rose α) : List Char :=
  (outline depth t).flatMap fun r => line width (r.1, text r.2)

/-- The text of a forest. -/
def outlinesText (text : α → List Char) (width depth : Nat) (ts : List (Rose α)) : List Char :=
  (outlines depth ts).flatMap fun r => line width (r.1, text r.2)

theorem outlineText_node (a : α) (ts : List (Rose α)) :
    outlineText text width depth (.node a ts)
      = line width (depth, text a) ++ outlinesText text width (depth + 1) ts := by
  simp only [outlineText, outlinesText, outline, List.flatMap_cons]

theorem outlinesText_nil : outlinesText text width depth [] = [] := rfl

theorem outlinesText_cons (t : Rose α) (ts : List (Rose α)) :
    outlinesText text width depth (t :: ts)
      = outlineText text width depth t ++ outlinesText text width depth ts := by
  simp only [outlineText, outlinesText, outlines, List.flatMap_append]

/-- **The text determines the tree**, where it determines the labels. -/
theorem outlineText_inj {t u : Rose α} (hwidth : 0 < width)
    (htext : ∀ a b, text a = text b → a = b)
    (ht : ∀ a ∈ t.labels, OneLine (text a)) (hu : ∀ a ∈ u.labels, OneLine (text a))
    (h : outlineText text width depth t = outlineText text width depth u) : t = u := by
  have hrows : ∀ v : Rose α, (∀ a ∈ v.labels, OneLine (text a)) →
      ∀ r ∈ (outline depth v).map (Prod.map id text), OneLine r.2 := by
    intro v hv r hr
    obtain ⟨q, hq, rfl⟩ := List.mem_map.1 hr
    apply hv
    rw [← outline_map_snd depth v]
    exact List.mem_map_of_mem hq
  have hflat : ∀ v : Rose α, outlineText text width depth v
      = ((outline depth v).map (Prod.map id text)).flatMap (line width) := by
    intro v
    rw [List.flatMap_map]
    rfl
  rw [hflat t, hflat u] at h
  have hmap := lines_inj hwidth _ _ (hrows t ht) (hrows u hu) h
  have hinj : Function.Injective (Prod.map id text : Nat × α → Nat × List Char) :=
    Function.Injective.prodMap Function.injective_id fun a b => htext a b
  exact outline_inj (List.map_injective_iff.2 hinj hmap)

end Text

end SproutLang.Library
