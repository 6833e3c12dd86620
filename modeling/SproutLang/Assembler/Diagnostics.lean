/-
  SproutLang.Assembler.Diagnostics
  ────────────────────────────────
  **WHAT THE ASSEMBLER REPORTS.**

  A text should either be used to its last token or be refused with the number
  of its first line that is not well formed.  `uses_or_reports_iff` says for
  which texts that is so: the first line that is not well formed must be one
  the assembler reports, and where there is none the last function has to be
  closed and the labels have to be found.
-/
import SproutLang.Assembler.Labels
import SproutLang.Assembler.Syntax

namespace SproutLang.Assembler

open Library

/-! ## §1. Failures of the second pass. -/

/-- A failure that names no line. -/
def Failure.NamesNoLine (failure : Failure) : Prop := ∀ n e raw, failure ≠ .line n e raw

section SecondPass

variable {failure : Failure}

/-- A failure of `packInto` names no line. -/
theorem packInto_error {raw : List Byte} {off n : Nat} (h : packInto raw off n = .error failure) :
    failure.NamesNoLine := by
  unfold packInto at h
  split at h
  · cases h
  · injection h with h
    rw [← h]
    intro n e raw hline
    cases hline

/-- Nor does one of `patchFunc`. -/
theorem patchFunc_error {base : Nat} {f : Func} (patches : List (Nat × Str)) :
    ∀ raw, patchFunc base f patches raw = .error failure → failure.NamesNoLine := by
  induction patches with
  | nil =>
      intro raw h
      cases h
  | cons p patches ih =>
      intro raw h
      obtain ⟨off, label⟩ := p
      unfold patchFunc at h
      cases hlookup : f.labels.lookup label with
      | none =>
          simp only [hlookup] at h
          injection h with h
          rw [← h]
          intro n e raw hline
          cases hline
      | some target =>
          simp only [hlookup] at h
          -- the address does not fit its word, or a later patch fails
          rcases except_bind_eq_error h with hpack | ⟨raw', -, h⟩
          · exact packInto_error hpack
          · exact ih raw' h

/-- Nor does one of `patchAll`. -/
theorem patchAll_error (fs : List Func) :
    ∀ pos, patchAll pos fs = .error failure → failure.NamesNoLine := by
  induction fs with
  | nil =>
      intro pos h
      cases h
  | cons f fs ih =>
      intro pos h
      unfold patchAll at h
      -- this function, or one behind it
      rcases except_bind_eq_error h with hpatch | ⟨raw, -, h⟩
      · exact patchFunc_error f.patches f.raw hpatch
      · rcases except_bind_eq_error h with hmore | ⟨raws, -, h⟩
        · exact ih _ hmore
        · cases h

theorem packHeaderWord_error {n : Nat} (h : packHeaderWord n = .error failure) :
    failure.NamesNoLine := by
  unfold packHeaderWord at h
  split at h
  · cases h
  · injection h with h
    rw [← h]
    intro n e raw hline
    cases hline

/-- Nor does one of `packHeader`. -/
theorem packHeader_error {count code : Nat} (h : packHeader count code = .error failure) :
    failure.NamesNoLine := by
  unfold packHeader at h
  rcases except_bind_eq_error h with hcount | ⟨_, -, h⟩
  · exact packHeaderWord_error hcount
  · rcases except_bind_eq_error h with hcode | ⟨_, -, h⟩
    · exact packHeaderWord_error hcode
    · cases h

/-- **The second pass names no line.** -/
theorem emit_binary_error {fs : List Func} (h : _emit_binary fs = .error failure) :
    failure.NamesNoLine := by
  unfold _emit_binary at h
  -- the patches come first, then the header
  rcases except_bind_eq_error h with hpatch | ⟨raws, -, h⟩
  · exact patchAll_error fs _ hpatch
  · rcases except_bind_eq_error h with hheader | ⟨header, -, h⟩
    · exact packHeader_error hheader
    · cases h

end SecondPass

/-! ## §2. The first line that is not well formed. -/

/-- A line is blank, or well formed behind these lines. -/
def LineOk (py : Python) (before : List Str) (raw : Str) : Prop :=
  tokenise_line raw = [] ∨ WellFormedLine py (openAfter py before) (tokenise_line raw)

/-- **Every token is used or the line is reported**: the text assembles and
all its lines are well formed, or the run ends with the number and the text of
the first line that is not. -/
def UsesOrReports (py : Python) (text : Str) : Prop :=
  (∃ bytes, assemble py text = .ok bytes ∧ Everywhere (LineOk py) (readlines text)) ∨
  ∃ before raw after e, FirstFailure (LineOk py) (readlines text) before raw after ∧
    assemble py text = .error (.line (before.length + 1) e raw)

section Reports

variable {py : Python} {text : Str} {lines before after before' after' : List Str} {raw raw' : Str}

/-- A line that is right is handled without an exception. -/
theorem LineOk.handled (h : LineOk py before raw) : Handled py before raw := by
  rcases h with hblank | hline
  · exact Or.inl hblank
  · exact Or.inr (refusal_of_wellFormed hline)

/-- A failure of the first pass is the assembler's. -/
theorem assemble_stops {failure : Failure} (h : _pass1 py (readlines text) = .error failure) :
    assemble py text = .error failure := by
  unfold assemble
  rw [h]
  rfl

/-- A line that is reported ends the run. -/
theorem assemble_reports (h : FirstFailure (LineOk py) (readlines text) before raw after)
    (hslips : ¬ Slips py (openAfter py before) (tokenise_line raw)) :
    ∃ e, assemble py text = .error (.line (before.length + 1) e raw) := by
  have hfails := h.fails
  unfold LineOk at hfails
  push Not at hfails
  obtain ⟨e, hrefusal, hcaught⟩ := refusal_of_reported hfails.2 hslips
  have hnot : ¬ Handled py before raw := by
    intro hcases
    rcases hcases with hblank | hnone
    · exact hfails.1 hblank
    · rw [hnone] at hrefusal
      cases hrefusal
  -- the lines before it are well formed, hence handled: the pass gets here
  obtain ⟨e', hrefusal', hstop⟩ :=
    pass1_stops ⟨h.split, h.clear.mono fun _ _ => LineOk.handled, hnot⟩
  rw [hrefusal] at hrefusal'
  injection hrefusal' with he
  subst he
  refine ⟨e, ?_⟩
  rw [assemble_stops hstop]
  unfold stopAt
  rw [if_pos hcaught]

/-- Only a refused line, by an exception that is caught, is ever reported. -/
theorem assemble_line {n : Nat} {e : PyError}
    (h : assemble py text = .error (.line n e raw)) :
    ∃ before after, FirstFailure (Handled py) (readlines text) before raw after ∧
      n = before.length + 1 ∧
      refusal py (openAfter py before) (tokenise_line raw) = some e ∧ e.caught = true := by
  rcases Everywhere.or_first (Handled py) (readlines text) with hall | ⟨before, raw', after, hfirst⟩
  · exfalso
    by_cases hclosed : openAfter py (readlines text) = false
    · rw [assemble_eq ⟨hall, hclosed⟩] at h
      -- the whole text passes: what fails then names no line
      exact emit_binary_error h n e raw rfl
    · rw [assemble_stops (pass1_unterminated hall (Bool.eq_true_of_not_eq_false hclosed))] at h
      cases h
  · obtain ⟨e', hrefusal, hstop⟩ := pass1_stops hfirst
    rw [assemble_stops hstop] at h
    unfold stopAt at h
    by_cases hcaught : e'.caught = true
    · rw [if_pos hcaught] at h
      injection h with h
      injection h with hn he hraw
      subst hn he hraw
      exact ⟨before, after, hfirst, rfl, hrefusal, hcaught⟩
    · rw [if_neg hcaught] at h
      cases h

/-- **For which texts every token is used or the line is reported.**  The first
line that is not well formed is none that slips through; and where every line
is well formed, the last function is closed and every branch finds a label, at
an address that fits. -/
theorem uses_or_reports_iff (py : Python) (text : Str) :
    UsesOrReports py text ↔
      (∀ before raw after, FirstFailure (LineOk py) (readlines text) before raw after →
        ¬ Slips py (openAfter py before) (tokenise_line raw)) ∧
      (Everywhere (LineOk py) (readlines text) →
        openAfter py (readlines text) = false ∧ Links py (scopesOf py (readlines text))) := by
  constructor
  · intro hcases
    rcases hcases with ⟨bytes, hrun, hall⟩ | ⟨before, raw, after, e, hfirst, hrun⟩
    · refine ⟨fun before raw after hfirst => ?_, fun _ => ?_⟩
      · exact absurd (hall before raw after hfirst.split) hfirst.fails
      · -- the text assembles, so no function is open at its end
        have hhandled : Everywhere (Handled py) (readlines text) :=
          hall.mono fun _ _ => LineOk.handled
        by_cases hclosed : openAfter py (readlines text) = false
        · exact ⟨hclosed, (assemble_succeeds_iff ⟨hhandled, hclosed⟩).1 ⟨bytes, hrun⟩⟩
        · rw [assemble_stops
            (pass1_unterminated hhandled (Bool.eq_true_of_not_eq_false hclosed))] at hrun
          cases hrun
    · refine ⟨fun before' raw' after' hfirst' hslips => ?_, fun hall => ?_⟩
      · -- the line that is reported is the one that slips through
        obtain ⟨hbefore, hraw, -⟩ := hfirst.unique hfirst'
        subst hbefore hraw
        obtain ⟨front, rest, hrefused, hlen, hrefusal, hcaught⟩ := assemble_line hrun
        have hsplit : front ++ raw :: rest = before ++ raw :: after :=
          hrefused.split.symm.trans hfirst.split
        obtain ⟨hfront, -⟩ := List.append_inj hsplit (by omega)
        rw [hfront] at hrefusal
        rw [refusal_of_slips hslips hrefusal] at hcaught
        cases hcaught
      · exact absurd (hall before raw after hfirst.split) hfirst.fails
  · intro ⟨hreports, hwell⟩
    rcases Everywhere.or_first (LineOk py) (readlines text) with hall | ⟨before, raw, after, hfirst⟩
    · -- every line is well formed: the text links, and all its tokens are used
      obtain ⟨hclosed, hlinks⟩ := hwell hall
      have hblocks : Blocks py text := ⟨hall.mono fun _ _ => LineOk.handled, hclosed⟩
      obtain ⟨bytes, hrun⟩ := (assemble_succeeds_iff hblocks).2 hlinks
      exact Or.inl ⟨bytes, hrun, hall⟩
    · -- one is not: the first of them is reported
      obtain ⟨e, hrun⟩ := assemble_reports hfirst (hreports before raw after hfirst)
      exact Or.inr ⟨before, raw, after, e, hfirst, hrun⟩

end Reports

/-- An operand is missing behind `add`. -/
def missingOperand : Str := ".func main\nadd r1, r2\n.endfunc\n".toList

/-- An operand is left over behind `end`. -/
def leftOverOperand : Str := ".func main\nend r1, r2\n.endfunc\n".toList

/-- **The one ends in an exception that nothing catches, the other assembles**,
and neither names its second line. -/
theorem uses_or_reports_fails :
    assemble Python.ascii missingOperand = .error (.uncaught .listIndex) ∧
    ¬ UsesOrReports Python.ascii missingOperand ∧
    (∃ bytes, assemble Python.ascii leftOverOperand = .ok bytes) ∧
    ¬ UsesOrReports Python.ascii leftOverOperand := by
  have hmissing : assemble Python.ascii missingOperand = .error (.uncaught .listIndex) := by
    decide +kernel
  have hleftOver : (assemble Python.ascii leftOverOperand).toBool = true := by decide +kernel
  have hruns : ∃ bytes, assemble Python.ascii leftOverOperand = .ok bytes := by
    cases hrun : assemble Python.ascii leftOverOperand with
    | ok bytes => exact ⟨bytes, rfl⟩
    | error failure =>
        rw [hrun] at hleftOver
        cases hleftOver
  refine ⟨hmissing, ?_, hruns, ?_⟩
  · intro hcases
    rcases hcases with ⟨bytes, hrun, -⟩ | ⟨before, raw, after, e, -, hrun⟩
    · rw [hmissing] at hrun
      cases hrun
    · rw [hmissing] at hrun
      cases hrun
  · intro hcases
    rcases hcases with ⟨bytes, -, hall⟩ | ⟨before, raw, after, e, -, hrun⟩
    · -- the second line has one operand too many
      have hline := hall [".func main\n".toList] "end r1, r2\n".toList [".endfunc\n".toList]
        (by decide +kernel)
      rcases hline with hblank | hline
      · exact absurd hblank (by decide +kernel)
      · unfold WellFormedLine at hline
        have hkind : lineKind Python.ascii (tokenise_line "end r1, r2\n".toList) = .instr := by
          decide +kernel
        simp only [hkind] at hline
        obtain ⟨-, op, hop, hfit⟩ := hline
        have hend : mnemonicOf Python.ascii (tokenise_line "end r1, r2\n".toList) = some .opEnd := by
          decide +kernel
        rw [hend] at hop
        injection hop with hop
        subst hop
        exact absurd hfit.no_more (by decide +kernel)
    · obtain ⟨bytes, hok⟩ := hruns
      rw [hok] at hrun
      cases hrun

end SproutLang.Assembler
