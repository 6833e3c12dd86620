/-
  SproutLang.Assembler.Lines
  ──────────────────────────
  **WHAT A LINE DOES, IN FULL.**

  `_handle_tokens` as a function of the tokens and of whether a function is
  open: the exception it raises, if any (`refusal`), and otherwise the object
  it leaves (`Asm.after`).  `handle_tokens_eq` is the one fact about a line;
  `pass1_stops` and `pass1_iff` say of the first pass that it ends at the
  first line that is refused, and what passes.
-/
import SproutLang.Assembler.Mnemonics
import SproutLang.Library.Positions

namespace SproutLang.Assembler

open Library

/-! ## §1. One line. -/

/-- What a line is, by its first token. -/
inductive LineKind where
  | func | endfunc | label | instr
  deriving DecidableEq, Repr

/-- The first token of a line, as `_handle_tokens` compares it. -/
def lineHead (py : Python) (toks : List Str) : Str := py.lower (toks.headD [])

/-- The kind of a line, by its first token in lower case. -/
def lineKind (py : Python) (toks : List Str) : LineKind :=
  if lineHead py toks = ".func".toList then .func
  else if lineHead py toks = ".endfunc".toList then .endfunc
  else if endsWith (lineHead py toks) ':' then .label
  else .instr

/-- The name under which a label line is entered. -/
def labelKey (py : Python) (toks : List Str) : Str := (lineHead py toks).dropLast

/-- **Why a line is refused**, inside a function or outside. -/
def refusal (py : Python) (inFunc : Bool) (toks : List Str) : Option PyError :=
  match lineKind py toks with
  | .func => if inFunc then some .nestedFunc else raised (frameSizeOf py (toks.drop 2) 0)
  | .endfunc => if inFunc then none else some .endfuncWithoutFunc
  | .label => if inFunc then none else some (.outsideFunc "label".toList)
  | .instr =>
      if inFunc then
        match mnemonicOf py toks with
        | some op => instrRefusal py op toks
        | none => some (.unknownMnemonic (lineHead py toks))
      else some (.outsideFunc (lineHead py toks))

/-- Whether a function is open behind a line. -/
def opens (py : Python) (inFunc : Bool) (toks : List Str) : Bool :=
  match lineKind py toks with
  | .func => true
  | .endfunc => false
  | .label | .instr => inFunc

/-- **The object behind a line** that is not refused. -/
def Asm.after (py : Python) (a : Asm) (toks : List Str) : Asm :=
  match lineKind py toks with
  | .func =>
      a.openFunc (toks[1]?.getD (s!"func{a.functions.length}").toList)
        ((frameSizeOf py (toks.drop 2) 0).toOption.getD 0)
  | .endfunc => { a with inFunc := false }
  | .label => a.modifyLast fun f => f.addLabel (labelKey py toks)
  | .instr =>
      match readLine py toks with
      | some s => a.emit s
      | none => a

/-- The object before the first line. -/
def Asm.start : Asm := { functions := [], inFunc := false }

/-- What a line does: it raises an exception, or it leaves the object behind
it. -/
def Asm.outcome (py : Python) (a : Asm) (toks : List Str) : EStateM.Result PyError Asm Unit :=
  match refusal py a.inFunc toks with
  | some e => .error e a
  | none => .ok () (a.after py toks)

section Line

variable {py : Python} {toks : List Str} {a : Asm}

/-- No mnemonic is a directive or ends like a label. -/
theorem lookup_opcodes {head : Str} {op : Opcode} (h : OPCODES.lookup head = some op) :
    head ≠ ".func".toList ∧ head ≠ ".endfunc".toList ∧ endsWith head ':' = false := by
  have hkeys : ∀ p ∈ OPCODES,
      p.1 ≠ ".func".toList ∧ p.1 ≠ ".endfunc".toList ∧ endsWith p.1 ':' = false := by decide
  obtain ⟨before, after, heq, -⟩ := List.lookup_eq_some_iff.1 h
  exact hkeys (head, op) (by rw [heq]; simp)

/-- Directives and labels have no mnemonic. -/
theorem mnemonicOf_eq_none (h : py.lower (toks.headD []) = ".func".toList ∨
    py.lower (toks.headD []) = ".endfunc".toList ∨
    endsWith (py.lower (toks.headD [])) ':' = true) : mnemonicOf py toks = none := by
  unfold mnemonicOf
  cases hop : OPCODES.lookup (py.lower (toks.headD [])) with
  | none => rfl
  | some op =>
      obtain ⟨hfunc, hendfunc, hlabel⟩ := lookup_opcodes hop
      rcases h with h | h | h
      · exact absurd h hfunc
      · exact absurd h hendfunc
      · rw [hlabel] at h
        exact absurd h (by decide)

/-- A directive and a label have no mnemonic. -/
theorem mnemonicOf_directive (h : lineKind py toks ≠ .instr) : mnemonicOf py toks = none := by
  unfold lineKind at h
  by_cases hfunc : lineHead py toks = ".func".toList
  · exact mnemonicOf_eq_none (Or.inl hfunc)
  by_cases hendfunc : lineHead py toks = ".endfunc".toList
  · exact mnemonicOf_eq_none (Or.inr (Or.inl hendfunc))
  by_cases hlabel : endsWith (lineHead py toks) ':' = true
  · exact mnemonicOf_eq_none (Or.inr (Or.inr hlabel))
  · rw [if_neg hfunc, if_neg hendfunc, if_neg hlabel] at h
    exact absurd rfl h

theorem isFuncLine_iff : isFuncLine py toks = true ↔ lineKind py toks = .func := by
  have hhead : isFuncLine py toks = decide (lineHead py toks = ".func".toList) := rfl
  rw [hhead, decide_eq_true_iff]
  unfold lineKind
  constructor
  · intro hfunc
    rw [if_pos hfunc]
  · intro hkind
    by_contra hfunc
    rw [if_neg hfunc] at hkind
    split_ifs at hkind

theorem isFuncLine_other (h : lineKind py toks ≠ .func) : isFuncLine py toks = false :=
  Bool.eq_false_iff.2 fun hfunc => h (isFuncLine_iff.1 hfunc)

/-- A function is opened outside any other, with a size that can be read. -/
theorem refusal_func {inFunc : Bool} (hkind : lineKind py toks = .func)
    (h : refusal py inFunc toks = none) :
    inFunc = false ∧ ∃ n, frameSizeOf py (toks.drop 2) 0 = .ok n := by
  unfold refusal at h
  simp only [hkind] at h
  cases inFunc with
  | true => cases h
  | false =>
      refine ⟨rfl, ?_⟩
      cases hsize : frameSizeOf py (toks.drop 2) 0 with
      | ok n => exact ⟨n, rfl⟩
      | error e =>
          rw [hsize] at h
          cases h

/-- Everything else stands inside one. -/
theorem refusal_inside {inFunc : Bool} (hkind : lineKind py toks ≠ .func)
    (h : refusal py inFunc toks = none) : inFunc = true := by
  unfold refusal at h
  cases inFunc with
  | true => rfl
  | false =>
      cases hline : lineKind py toks with
      | func => exact absurd hline hkind
      | endfunc | label | instr =>
          simp only [hline] at h
          cases h

/-- A line is read by its mnemonic and its operands. -/
theorem readLine_of {op : Opcode} {s : SourceInstr} (hop : mnemonicOf py toks = some op)
    (hread : readInstr py op toks = .ok s) : readLine py toks = some s := by
  unfold readLine
  simp only [hop, hread]
  rfl

/-- A line with a mnemonic can be read. -/
theorem refusal_instr {inFunc : Bool} (hkind : lineKind py toks = .instr)
    (h : refusal py inFunc toks = none) :
    ∃ op s, mnemonicOf py toks = some op ∧ readInstr py op toks = .ok s ∧ s.Checked := by
  have hopen : inFunc = true := refusal_inside (by rw [hkind]; decide) h
  unfold refusal at h
  simp only [hkind, hopen, if_true] at h
  cases hop : mnemonicOf py toks with
  | none =>
      simp only [hop] at h
      cases h
  | some op =>
      simp only [hop] at h
      obtain ⟨s, hread, hchecked, -⟩ := handle_mnemonic_runs (a := Asm.start) h
      exact ⟨op, s, rfl, hread, hchecked⟩

/-- A refused line raises the exception. -/
theorem outcome_some {e : PyError} (h : refusal py a.inFunc toks = some e) :
    a.outcome py toks = .error e a := by
  unfold Asm.outcome
  simp only [h]

/-- Any other line has its effect. -/
theorem outcome_none (h : refusal py a.inFunc toks = none) :
    a.outcome py toks = .ok () (a.after py toks) := by
  unfold Asm.outcome
  simp only [h]

/-- What a label line does inside a function. -/
def defineLabel (py : Python) (toks : List Str) : AsmM Unit := do
  let offset ← _cur_offset
  modify (Asm.modifyLast fun f => { f with labels := (labelKey py toks, offset) :: f.labels })

/-- What any other line does there. -/
def handleMnemonic (py : Python) (toks : List Str) : AsmM Unit :=
  match mnemonicOf py toks with
  | none => throw (.unknownMnemonic (lineHead py toks))
  | some op => _handle_mnemonic py op toks

/-- What a line of each kind does. -/
def handleKind (py : Python) (toks : List Str) : LineKind → AsmM Unit
  | .func => _begin_func py toks
  | .endfunc => _end_func
  | .label => _require_func "label".toList >>= fun _ => defineLabel py toks
  | .instr => _require_func (lineHead py toks) >>= fun _ => handleMnemonic py toks

/-- `_handle_tokens` goes by the kind of the line. -/
theorem handle_tokens_kind : _handle_tokens py toks = handleKind py toks (lineKind py toks) := by
  unfold _handle_tokens lineKind
  by_cases hfunc : lineHead py toks = ".func".toList
  · rw [if_pos hfunc]
    exact if_pos hfunc
  rw [if_neg hfunc]
  refine (if_neg hfunc).trans ?_
  by_cases hendfunc : lineHead py toks = ".endfunc".toList
  · rw [if_pos hendfunc]
    exact if_pos hendfunc
  rw [if_neg hendfunc]
  refine (if_neg hendfunc).trans ?_
  by_cases hlabel : endsWith (lineHead py toks) ':' = true
  · rw [if_pos hlabel]
    exact if_pos hlabel
  · rw [if_neg hlabel]
    exact if_neg hlabel

theorem modifyLast_inFunc (g : Func → Func) : (a.modifyLast g).inFunc = a.inFunc := by
  unfold Asm.modifyLast
  cases a.functions.getLast? <;> rfl

/-- Whether a function is open depends on the directives only. -/
theorem after_inFunc : (a.after py toks).inFunc = opens py a.inFunc toks := by
  unfold Asm.after opens
  cases lineKind py toks with
  | func => rfl
  | endfunc => rfl
  | label => exact modifyLast_inFunc _
  | instr =>
      simp only
      -- an instruction changes the open function only
      cases readLine py toks with
      | none => rfl
      | some s => exact modifyLast_inFunc _

/-- Inside a function the test for one is passed over. -/
theorem require_func_open {m : Str} {f : Unit → AsmM Unit} (h : a.inFunc = true) :
    (_require_func m >>= f) a = f () a := by
  refine bind_ok ?_
  unfold _require_func
  rw [get_bind, h]
  rfl

theorem require_func_closed {m : Str} {f : Unit → AsmM Unit} (h : a.inFunc = false) :
    (_require_func m >>= f) a = .error (.outsideFunc m) a := by
  refine bind_error ?_
  unfold _require_func
  rw [get_bind, h]
  rfl

/-- `_begin_func` as one case distinction. -/
theorem begin_func_eq :
    _begin_func py toks a =
      if a.inFunc then .error .nestedFunc a
      else (liftPy (frameSizeOf py (toks.drop 2) 0) >>= fun frameSize =>
        set (a.openFunc (toks[1]?.getD (s!"func{a.functions.length}").toList) frameSize)) a := by
  unfold _begin_func
  rw [get_bind]
  cases a.inFunc with
  | true => rfl
  | false => rfl

/-- A label is entered at the end of the code so far. -/
theorem defineLabel_runs :
    defineLabel py toks a = .ok () (a.modifyLast fun f => f.addLabel (labelKey py toks)) := by
  obtain ⟨offset, hoffset⟩ := cur_offset_runs a
  obtain ⟨-, hcur⟩ := cur_offset_eq_ok hoffset
  unfold defineLabel
  rw [bind_ok hoffset, modify_apply]
  congr 1
  -- outside any function there is nothing to change, but then no label gets here
  rcases a.functions_cases with hnil | ⟨fs, f, hsnoc⟩
  · rw [Asm.modifyLast_nil hnil, Asm.modifyLast_nil hnil]
  · rw [Asm.modifyLast_snoc hsnoc, Asm.modifyLast_snoc hsnoc, hcur fs f hsnoc]
    rfl

/-- **A line raises its exception and leaves the object as it was, or the
object is the one behind it.** -/
theorem handle_tokens_eq : _handle_tokens py toks a = a.outcome py toks := by
  rw [handle_tokens_kind]
  unfold Asm.outcome refusal Asm.after handleKind
  cases lineKind py toks with
  | func =>
      simp only [begin_func_eq]
      cases hopen : a.inFunc with
      | true => rfl
      | false =>
          cases frameSizeOf py (toks.drop 2) 0 with
          | ok n => rfl
          | error e => rfl
  | endfunc =>
      unfold _end_func
      simp only [get_bind]
      cases hopen : a.inFunc with
      | true => rfl
      | false => rfl
  | label =>
      simp only
      cases hopen : a.inFunc with
      | true => exact (require_func_open hopen).trans defineLabel_runs
      | false => exact require_func_closed hopen
  | instr =>
      simp only
      cases hopen : a.inFunc with
      -- outside a function the mnemonic is not even looked up
      | false => exact require_func_closed hopen
      | true =>
          rw [require_func_open hopen]
          unfold handleMnemonic readLine
          cases hop : mnemonicOf py toks with
          | none => rfl
          | some op =>
              simp only [if_true]
              cases hrefusal : instrRefusal py op toks with
              | some e => exact handle_mnemonic_refused hrefusal
              | none =>
                  obtain ⟨s, hread, -, hrun⟩ := handle_mnemonic_runs (a := a) hrefusal
                  rw [hread]
                  exact hrun

end Line

/-! ## §2. The first pass. -/

/-- Whether a function is open behind some lines. -/
def openAfter (py : Python) (lines : List Str) : Bool :=
  (lines.map tokenise_line).foldl (opens py) false

/-- The object behind lines that are not refused. -/
def Asm.afterLines (py : Python) (lines : List Str) : Asm :=
  (lines.map tokenise_line).foldl (Asm.after py) Asm.start

/-- A line is blank, or it is not refused behind these lines. -/
def Handled (py : Python) (before : List Str) (raw : Str) : Prop :=
  tokenise_line raw = [] ∨ refusal py (openAfter py before) (tokenise_line raw) = none

/-- How a run ends at a line that is refused. -/
def stopAt (lineno : Nat) (e : PyError) (raw : Str) : Failure :=
  if e.caught then .line lineno e raw else .uncaught e

section Pass

variable {py : Python} {raw : Str} {lines before after : List Str} {a : Asm} {n : Nat}

/-- A blank line has no mnemonic. -/
theorem mnemonicOf_nil : mnemonicOf py [] = none := by
  have hlower : py.lower [] = [] := py.lower_ascii [] (by simp)
  show OPCODES.lookup (py.lower []) = none
  rw [hlower]
  rfl

/-- A blank line has a head like no other. -/
theorem lineKind_nil : lineKind py [] = .instr := by
  have hlower : py.lower [] = [] := py.lower_ascii [] (by simp)
  unfold lineKind lineHead
  rw [List.headD_nil, hlower]
  rfl

theorem after_nil : a.after py [] = a := by
  unfold Asm.after readLine
  simp only [lineKind_nil, mnemonicOf_nil]

/-- One more line opens or closes a function. -/
theorem openAfter_snoc : openAfter py (before ++ [raw])
    = opens py (openAfter py before) (tokenise_line raw) := by
  unfold openAfter
  rw [List.map_append, List.foldl_append]
  rfl

/-- And has its effect on the state. -/
theorem afterLines_snoc : Asm.afterLines py (before ++ [raw])
    = (Asm.afterLines py before).after py (tokenise_line raw) := by
  unfold Asm.afterLines
  rw [List.map_append, List.foldl_append]
  rfl

/-- The state knows whether a function is open. -/
theorem afterLines_inFunc (py : Python) (lines : List Str) :
    (Asm.afterLines py lines).inFunc = openAfter py lines := by
  induction lines using List.reverseRecOn with
  | nil => rfl
  | append_singleton before raw ih => rw [afterLines_snoc, after_inFunc, ih, openAfter_snoc]

/-- The pass goes on behind a line that is handled. -/
theorem passLines_handled (ha : a.inFunc = openAfter py before) (h : Handled py before raw) :
    passLines py n (raw :: lines) a = passLines py (n + 1) lines (a.after py (tokenise_line raw)) := by
  rw [passLines]
  by_cases hblank : tokenise_line raw = []
  · -- a blank line leaves the object as it is
    simp only [hblank, if_pos, after_nil]
  · have hrefusal : refusal py a.inFunc (tokenise_line raw) = none := by
      rw [ha]
      exact h.resolve_left hblank
    simp only [if_neg hblank, handle_tokens_eq, outcome_none hrefusal]

/-- It ends at one that is not. -/
theorem passLines_refused (ha : a.inFunc = openAfter py before) (h : ¬ Handled py before raw) :
    ∃ e, refusal py (openAfter py before) (tokenise_line raw) = some e ∧
      passLines py n (raw :: lines) a = .error (stopAt n e raw) := by
  unfold Handled at h
  push Not at h
  obtain ⟨hblank, hrefusal⟩ := h
  obtain ⟨e, he⟩ := Option.ne_none_iff_exists'.1 hrefusal
  have hrun : _handle_tokens py (tokenise_line raw) a = .error e a := by
    rw [handle_tokens_eq]
    exact outcome_some (by rw [ha]; exact he)
  refine ⟨e, he, ?_⟩
  rw [passLines]
  simp only [if_neg hblank, hrun, stopAt]
  split <;> rfl

/-- **The pass over lines that are all handled.** -/
theorem passLines_run (h : Everywhere (Handled py) before) :
    ∀ lines, passLines py 1 (before ++ lines) Asm.start
      = passLines py (before.length + 1) lines (Asm.afterLines py before) := by
  induction before using List.reverseRecOn with
  | nil => exact fun lines => rfl
  | append_singleton before raw ih =>
      intro lines
      obtain ⟨hbefore, hraw⟩ := Everywhere.snoc_iff.1 h
      rw [List.append_assoc, List.singleton_append, ih hbefore,
        passLines_handled (afterLines_inFunc py before) hraw, afterLines_snoc, List.length_append]
      rfl

/-- **A text of handled lines whose last function is closed** passes. -/
theorem pass1_passes (h : Everywhere (Handled py) lines) (hclosed : openAfter py lines = false) :
    _pass1 py lines = .ok (Asm.afterLines py lines) := by
  have hrun := passLines_run h []
  rw [List.append_nil] at hrun
  have hend : passLines py 1 lines Asm.start = .ok (Asm.afterLines py lines) := hrun
  unfold _pass1
  rw [show passLines py 1 lines { functions := [], inFunc := false } = _ from hend,
    except_bind_ok rfl, afterLines_inFunc, hclosed]
  rfl

/-- One whose last function is open does not. -/
theorem pass1_unterminated (h : Everywhere (Handled py) lines) (hopen : openAfter py lines = true) :
    _pass1 py lines = .error .unterminated := by
  have hrun := passLines_run h []
  rw [List.append_nil] at hrun
  -- every line is handled, so only the test behind the loop is left
  have hend : passLines py 1 lines Asm.start = .ok (Asm.afterLines py lines) := hrun
  unfold _pass1
  rw [show passLines py 1 lines { functions := [], inFunc := false } = _ from hend,
    except_bind_ok rfl, afterLines_inFunc, hopen]
  rfl

/-- **The pass ends at the first line that is refused.** -/
theorem pass1_stops (h : FirstFailure (Handled py) lines before raw after) :
    ∃ e, refusal py (openAfter py before) (tokenise_line raw) = some e ∧
      _pass1 py lines = .error (stopAt (before.length + 1) e raw) := by
  obtain ⟨e, he, hstop⟩ := passLines_refused (afterLines_inFunc py before) h.fails
  refine ⟨e, he, ?_⟩
  have hrun : passLines py 1 lines Asm.start = .error (stopAt (before.length + 1) e raw) := by
    rw [h.split, passLines_run h.clear]
    exact hstop
  unfold _pass1
  rw [show passLines py 1 lines { functions := [], inFunc := false } = _ from hrun]
  rfl

/-- **What passes**: handled lines, and no function open behind them. -/
theorem pass1_iff : (∃ a, _pass1 py lines = .ok a) ↔
    Everywhere (Handled py) lines ∧ openAfter py lines = false := by
  constructor
  · intro ⟨a, ha⟩
    rcases Everywhere.or_first (Handled py) lines with hall | ⟨before, raw, after, hfirst⟩
    · refine ⟨hall, ?_⟩
      -- no line stops the pass, so an open function would
      by_contra hopen
      rw [pass1_unterminated hall (Bool.eq_true_of_not_eq_false hopen)] at ha
      cases ha
    · obtain ⟨e, -, hstop⟩ := pass1_stops hfirst
      rw [hstop] at ha
      cases ha
  · intro h
    exact ⟨_, pass1_passes h.1 h.2⟩

end Pass

end SproutLang.Assembler
