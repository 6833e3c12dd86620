/-
  SproutLang.Assembler.Tokens
  ───────────────────────────
  **HOW A LINE IS CUT.**

  Whitespace and commas separate tokens and a semicolon ends the line, inside
  quotes as outside.  The three rules below take a line apart from the left.
-/
import SproutLang.Assembler.Assembler

namespace SproutLang.Assembler

/-- What separates tokens. -/
def isSeparator (c : Char) : Bool := isSpace c || c = ','

/-- What ends a token. -/
def isSpecial (c : Char) : Bool := isSeparator c || c = ';'

/-- A text that a token in front of it stops at. -/
def Stops (rest : Str) : Prop := rest = [] ∨ ∃ c cs, rest = c :: cs ∧ isSpecial c = true

section Split

variable {g w rest cs : Str}

/-- `splitWords` by the first two characters. -/
theorem splitWords_cons (c : Char) (cs : Str) :
    splitWords (c :: cs) =
      if isSpace c then splitWords cs
      else
        match cs with
        | [] => [[c]]
        | d :: _ =>
            if isSpace d then [c] :: splitWords cs
            else
              match splitWords cs with
              | [] => [[c]]
              | w :: ws => (c :: w) :: ws := by
  cases cs <;> rfl

/-- Leading white space is skipped. -/
theorem splitWords_space (h : ∀ c ∈ g, isSpace c = true) :
    splitWords (g ++ rest) = splitWords rest := by
  induction g with
  | nil => rfl
  | cons c g ih =>
      rw [List.forall_mem_cons] at h
      rw [List.cons_append, splitWords_cons, if_pos h.1, ih h.2]

/-- A word up to the end or to whitespace. -/
theorem splitWords_word (hne : w ≠ []) (hw : ∀ c ∈ w, isSpace c = false)
    (hrest : rest = [] ∨ ∃ c cs, rest = c :: cs ∧ isSpace c = true) :
    splitWords (w ++ rest) = w :: splitWords rest := by
  induction w with
  | nil => exact absurd rfl hne
  | cons c w ih =>
      rw [List.forall_mem_cons] at hw
      rw [List.cons_append, splitWords_cons, hw.1, if_neg Bool.false_ne_true]
      cases w with
      | nil =>
          -- the last character of the word: what follows is no part of it
          rcases hrest with rfl | ⟨d, ds, rfl, hd⟩
          · rfl
          · simp only [List.nil_append, hd, if_true]
      | cons d w =>
          have hrec := ih (by simp) hw.2
          rw [List.forall_mem_cons] at hw
          simp only [List.cons_append] at hrec ⊢
          rw [hw.2.1, if_neg Bool.false_ne_true, hrec]

theorem isSpace_of_isSeparator {c : Char} (h : isSeparator c = true) :
    isSpace (if c = ',' then ' ' else c) = true := by
  unfold isSeparator at h
  split
  · decide
  · rename_i hne
    rw [decide_eq_false hne, Bool.or_false] at h
    exact h

/-- A plain character is no separator and opens no comment. -/
theorem not_isSpecial {c : Char} (h : isSpecial c = false) :
    isSpace c = false ∧ c ≠ ',' ∧ c ≠ ';' := by
  unfold isSpecial isSeparator at h
  rw [Bool.or_eq_false_iff, Bool.or_eq_false_iff] at h
  exact ⟨h.1.1, of_decide_eq_false h.1.2, of_decide_eq_false h.2⟩

/-- The special characters of a given word, counted out. -/
theorem plain_of_all (h : w.all (fun c => !isSpecial c) = true) : ∀ c ∈ w, isSpecial c = false := by
  intro c hc
  have hplain := List.all_eq_true.1 h c hc
  rwa [Bool.not_eq_true'] at hplain

theorem semicolon_of_isSeparator {c : Char} (h : isSeparator c = true) : c ≠ ';' := by
  rintro rfl
  exact absurd h (by decide)

/-- Nothing is cut off before the first semicolon. -/
theorem beforeSep_append (h : ∀ c ∈ w, c ≠ ';') :
    beforeSep ';' (w ++ rest) = w ++ beforeSep ';' rest := by
  unfold beforeSep
  exact List.takeWhile_append_of_pos fun c hc => decide_eq_true (h c hc)

/-- **Separators in front of a token are skipped.** -/
theorem tokenise_separators (h : ∀ c ∈ g, isSeparator c = true) :
    tokenise_line (g ++ rest) = tokenise_line rest := by
  unfold tokenise_line replaceChar
  rw [beforeSep_append fun c hc => semicolon_of_isSeparator (h c hc), List.map_append]
  refine splitWords_space fun c hc => ?_
  obtain ⟨d, hd, rfl⟩ := List.mem_map.1 hc
  exact isSpace_of_isSeparator (h d hd)

/-- **A token ends where a special character stands.** -/
theorem tokenise_word (hne : w ≠ []) (hw : ∀ c ∈ w, isSpecial c = false) (hrest : Stops rest) :
    tokenise_line (w ++ rest) = w :: tokenise_line rest := by
  unfold tokenise_line replaceChar
  rw [beforeSep_append fun c hc => (not_isSpecial (hw c hc)).2.2, List.map_append]
  -- the word has no comma to be replaced
  have hmap : w.map (fun c => if c = ',' then ' ' else c) = w := by
    conv_rhs => rw [← List.map_id w]
    exact List.map_congr_left fun c hc => if_neg (not_isSpecial (hw c hc)).2.1
  rw [hmap]
  refine splitWords_word hne (fun c hc => (not_isSpecial (hw c hc)).1) ?_
  rcases hrest with rfl | ⟨c, cs, rfl, hc⟩
  · exact Or.inl rfl
  · by_cases hsemi : c = ';'
    · -- a comment is cut off
      subst hsemi
      exact Or.inl rfl
    · -- a blank, or a comma that becomes one
      have hsep : isSeparator c = true := by
        unfold isSpecial at hc
        rw [decide_eq_false hsemi, Bool.or_false] at hc
        exact hc
      have hbefore : beforeSep ';' (c :: cs) = c :: beforeSep ';' cs :=
        beforeSep_append (w := [c]) fun d hd => by rw [List.mem_singleton.1 hd]; exact hsemi
      rw [hbefore, List.map_cons]
      exact Or.inr ⟨_, _, rfl, isSpace_of_isSeparator hsep⟩

end Split

end SproutLang.Assembler
