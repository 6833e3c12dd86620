/-
  SproutLang.Assembler.Syntax
  ───────────────────────────
  **THE DOCUMENTED SYNTAX OF A LINE.**

  The header of `assembler.py` lists the operands of every mnemonic.  Against
  this list a line is well formed, or the assembler reports it, or it slips
  through: an operand is missing, a token is left over, or a value does not
  fit its field.  `refusal_of_wellFormed`, `refusal_of_slips` and
  `refusal_of_reported` say what the assembler does in each case.
-/
import SproutLang.Assembler.Lines

namespace SproutLang.Assembler

open Library

/-! ## §1. Operands. -/

/-- What an operand is. -/
inductive OperandKind where
  | register | literal | label | index | flag
  deriving DecidableEq, Repr

/-- The operands of a mnemonic; the flag of a `mov` may be left out. -/
def operandSyntax : Opcode → List OperandKind
  | .opAdd | .opSub | .opMul | .opDiv => [.register, .register, .register]
  | .opLoad64 => [.register, .literal]
  | .opCmp => [.register, .register]
  | .opJe | .opJne | .opJl | .opJg => [.label]
  | .opCall => [.index]
  | .opRet => []
  | .opPush | .opPop | .opEnd | .opDebugReturn => [.register]
  | .opMov => [.register, .register, .flag]
  | .opArrInit | .opArrInsert | .opArrRead => [.register, .register, .register]
  | .opInsertIntoStack | .opReadFromStack => [.register, .register, .register]

/-- How many of them a line has to have. -/
def needed (op : Opcode) : Nat :=
  match op with
  | .opMov => 2
  | _ => (operandSyntax op).length

/-- The exception that an operand causes. -/
def OperandKind.error (py : Python) : OperandKind → Str → Option PyError
  | .register, tok => raised (parse_reg py tok)
  | .literal, tok => raised (encode_value py tok)
  | .label, tok => if startsWith tok '@' then none else some (.branchTarget tok)
  | .index, tok =>
      match py.int0 tok with
      | some n => if 0 ≤ n ∧ n ≤ 0xFFFFFF then none else some (.callRange n)
      | none => some (.notAnInt tok)
  | .flag, tok =>
      match py.int0 tok with
      | some n => if 0 ≤ n ∧ n < 2 ^ 32 then none else some .structRange
      | none => some (.notAnInt tok)

/-- The assembler does not report the operand. -/
def OperandKind.takes (py : Python) (kind : OperandKind) (tok : Str) : Bool :=
  match kind.error py tok with
  | some e => !e.caught
  | none => true

/-- The float that a literal is written as: it is no word and not quoted. -/
def floatOf (py : Python) (tok : Str) : Option Word :=
  if tok = "null".toList ∨ tok = "true".toList ∨ tok = "false".toList then none
  else if quotedBy '"' tok || quotedBy '\'' tok then none
  else py.float tok

/-- The value of an operand fits its field: 48 bits with a sign for an integer
literal, the range of doubles for a float, a byte for a flag.  (The others are
checked.) -/
def OperandKind.inField (py : Python) : OperandKind → Str → Bool
  | .literal, tok =>
      match py.int0 tok with
      | some n => decide (-2 ^ 47 ≤ n ∧ n < 2 ^ 47)
      -- `1e400` is read as an infinity
      | none => (floatOf py tok).all isDouble
  | .flag, tok =>
      match py.int0 tok with
      | some n => decide (0 ≤ n ∧ n ≤ 255)
      | none => true
  | _, _ => true

/-- The exception that the operands cause, read from the left. -/
def operandsError (py : Python) : Nat → List OperandKind → List Str → Option PyError
  | _, [], _ => none
  | 0, _ :: _, [] => none
  | _ + 1, _ :: _, [] => some .listIndex
  | n, kind :: kinds, tok :: toks =>
      match kind.error py tok with
      | some e => some e
      | none => operandsError py (n - 1) kinds toks

section Operands

variable {py : Python} {toks : List Str}

/-- Why what is read is refused. -/
def refusalOf : Except PyError SourceInstr → Option PyError
  | .ok s => s.refusal
  | .error e => some e

/-- Operand `i`, then the others. -/
def thenOthers (py : Python) (kind : OperandKind) (n : Nat) (kinds : List OperandKind) (tok : Str)
    (toks : List Str) : Option PyError :=
  match kind.error py tok with
  | some e => some e
  | none => operandsError py n kinds toks

/-- The first operand that is wrong decides. -/
theorem refusalOf_tok {i n : Nat} {kind : OperandKind} {kinds : List OperandKind}
    {f : Str → Except PyError SourceInstr}
    (h : ∀ tok, refusalOf (f tok) = thenOthers py kind n kinds tok (toks.drop (i + 1))) :
    refusalOf (tokAt toks i >>= f) = operandsError py (n + 1) (kind :: kinds) (toks.drop i) := by
  unfold tokAt
  cases htok : toks[i]? with
  | none =>
      -- no token is left: the operand is missing
      have hdrop : toks.drop i = [] := List.drop_eq_nil_of_le (List.getElem?_eq_none_iff.1 htok)
      rw [hdrop]
      rfl
  | some tok =>
      obtain ⟨hi, hget⟩ := List.getElem?_eq_some_iff.1 htok
      rw [List.drop_eq_getElem_cons hi, hget]
      exact h tok

/-- Operand `i` is a register. -/
theorem refusalOf_reg {i n : Nat} {kinds : List OperandKind} {f : Nat → Except PyError SourceInstr}
    (h : ∀ r, refusalOf (f r) = operandsError py n kinds (toks.drop (i + 1))) :
    refusalOf (regAt py toks i >>= f)
      = operandsError py (n + 1) (.register :: kinds) (toks.drop i) := by
  unfold regAt
  rw [bind_assoc]
  refine refusalOf_tok fun tok => ?_
  have herror : OperandKind.register.error py tok = raised (parse_reg py tok) := rfl
  unfold thenOthers
  rw [herror]
  cases parse_reg py tok with
  | error e => rfl
  | ok r => exact h r

/-- Operand `i` is a number, taken if it is in range. -/
theorem refusalOf_int {i n : Nat} {kind : OperandKind} {tok : Str}
    {f : Int → Except PyError SourceInstr}
    (herror : py.int0 tok = none → kind.error py tok = some (.notAnInt tok))
    (h : ∀ v, py.int0 tok = some v → refusalOf (f v) = kind.error py tok) :
    refusalOf (intOf py tok >>= f) = thenOthers py kind n [] tok (toks.drop i) := by
  unfold intOf thenOthers
  cases hint : py.int0 tok with
  | none =>
      rw [herror hint]
      rfl
  | some v =>
      refine (h v hint).trans ?_
      cases kind.error py tok with
      | none => rfl
      | some e => rfl

/-- **The exceptions of a line with a mnemonic are those of its operands.** -/
theorem instrRefusal_eq (py : Python) (op : Opcode) (toks : List Str) :
    instrRefusal py op toks = operandsError py (needed op) (operandSyntax op) (toks.drop 1) := by
  show refusalOf (readInstr py op toks) = _
  cases op with
  | opAdd | opSub | opMul | opDiv | opInsertIntoStack | opReadFromStack | opArrInit
  | opArrInsert | opArrRead =>
      exact refusalOf_reg fun a => refusalOf_reg fun b => refusalOf_reg fun c => rfl
  | opCmp => exact refusalOf_reg fun a => refusalOf_reg fun b => rfl
  | opPush | opPop | opEnd | opDebugReturn => exact refusalOf_reg fun a => rfl
  | opRet => rfl
  | opLoad64 =>
      -- a register and a literal
      refine refusalOf_reg fun dst => refusalOf_tok fun tok => ?_
      have herror : OperandKind.literal.error py tok = raised (encode_value py tok) := rfl
      unfold thenOthers
      rw [herror]
      cases encode_value py tok with
      | error e => rfl
      | ok literal => rfl
  | opJe | opJne | opJl | opJg =>
      -- a label, refused without its `@`
      refine refusalOf_tok fun label => ?_
      have herror : OperandKind.label.error py label
          = if startsWith label '@' then none else some (.branchTarget label) := rfl
      unfold thenOthers
      rw [herror]
      by_cases hat : startsWith label '@' = true
      · rw [hat]
        rfl
      · rw [Bool.eq_false_iff.2 hat]
        rfl
  | opCall =>
      refine refusalOf_tok fun tok => refusalOf_int (fun hint => ?_) fun v hint => ?_
      · unfold OperandKind.error
        simp only [hint]
      · unfold OperandKind.error
        simp only [hint]
        rfl
  | opMov =>
      -- the flag may be left out
      refine refusalOf_reg fun dst => refusalOf_reg fun src => ?_
      cases htok : toks[3]? with
      | none =>
          have hdrop : toks.drop 3 = [] := List.drop_eq_nil_of_le (List.getElem?_eq_none_iff.1 htok)
          rw [hdrop]
          rfl
      | some tok =>
          obtain ⟨hi, hget⟩ := List.getElem?_eq_some_iff.1 htok
          rw [List.drop_eq_getElem_cons hi, hget]
          refine refusalOf_int (fun hint => ?_) fun v hint => ?_
          · unfold OperandKind.error
            simp only [hint]
          · unfold OperandKind.error
            simp only [hint]
            rfl

/-- An error in a register is reported with its line. -/
theorem parse_reg_caught {tok : Str} {e : PyError} (h : parse_reg py tok = .error e) :
    e.caught = true := by
  unfold parse_reg at h
  split at h
  · split at h
    · injection h with h
      rw [← h]
      rfl
    · split at h
      · cases h
      · injection h with h
        rw [← h]
        rfl
  · injection h with h
    rw [← h]
    rfl

/-- So is one in a text. -/
theorem encode_char6_caught {text : Str} {e : PyError} (h : encode_char6 text = .error e) :
    e.caught = true := by
  unfold encode_char6 at h
  split at h
  · injection h with h
    rw [← h]
    rfl
  · split at h
    · cases h
    · injection h with h
      rw [← h]
      rfl

/-- So is one in any literal. -/
theorem encode_value_caught {tok : Str} {e : PyError} (h : encode_value py tok = .error e) :
    e.caught = true := by
  unfold encode_value at h
  split at h
  · cases h
  · split at h
    · cases h
    · split at h
      · exact encode_char6_caught h
      · split at h
        · cases h
        · split at h
          · cases h
          · injection h with h
            rw [← h]
            rfl

theorem raised_some {α : Type} {x : Except PyError α} {e : PyError} (h : raised x = some e) :
    x = .error e := by
  cases x with
  | ok v => cases h
  | error e' =>
      injection h with h
      rw [h]

namespace OperandKind

variable {kind : OperandKind} {tok : Str}

/-- Only a flag raises what is not caught. -/
theorem caught_or_flag {e : PyError} (h : kind.error py tok = some e) :
    e.caught = true ∨ kind = .flag := by
  cases kind with
  | flag => exact Or.inr rfl
  | register => exact Or.inl (parse_reg_caught (raised_some h))
  | literal => exact Or.inl (encode_value_caught (raised_some h))
  | label =>
      left
      simp only [error] at h
      split at h
      · cases h
      · injection h with h
        rw [← h]
        rfl
  | index =>
      left
      simp only [error] at h
      -- an index is refused as a number or for its range, a `ValueError` both times
      cases hint : py.int0 tok with
      | none =>
          simp only [hint] at h
          injection h with h
          rw [← h]
          rfl
      | some n =>
          simp only [hint] at h
          split at h
          · cases h
          · injection h with h
            rw [← h]
            rfl

/-- An operand that belongs to its kind raises at most a traceback. -/
theorem caught_of_takes (htakes : kind.takes py tok = true) {e : PyError}
    (h : kind.error py tok = some e) : e.caught = false := by
  unfold takes at htakes
  simp only [h, Bool.not_eq_true'] at htakes
  exact htakes

/-- One that does not is reported. -/
theorem caught_of_not_takes (htakes : kind.takes py tok = false) :
    ∃ e, kind.error py tok = some e ∧ e.caught = true := by
  unfold takes at htakes
  cases h : kind.error py tok with
  | none =>
      simp only [h] at htakes
      cases htakes
  | some e =>
      simp only [h, Bool.not_eq_false'] at htakes
      exact ⟨e, rfl, htakes⟩

/-- An operand in its field is read. -/
theorem error_of_inField (htakes : kind.takes py tok = true) (hfield : kind.inField py tok = true) :
    kind.error py tok = none := by
  cases h : kind.error py tok with
  | none => rfl
  | some e =>
      exfalso
      have hnot := caught_of_takes htakes h
      -- what a parser takes raises nothing that is caught, so it can only be a flag
      rcases caught_or_flag h with hcaught | rfl
      · rw [hnot] at hcaught
        cases hcaught
      · simp only [error] at h
        simp only [inField] at hfield
        cases hint : py.int0 tok with
        | none =>
            simp only [hint] at h
            injection h with h
            rw [← h] at hnot
            cases hnot
        | some n =>
            simp only [hint] at h hfield
            -- a byte fits the 32 bits of the word all the more
            have hrange := of_decide_eq_true hfield
            rw [if_pos ⟨hrange.1, by omega⟩] at h
            cases h

end OperandKind

/-- A flag comes last. -/
def FlagLast : List OperandKind → Prop
  | [] => True
  | kind :: kinds => (kind = .flag → kinds = []) ∧ FlagLast kinds

theorem operandSyntax_flagLast (op : Opcode) : FlagLast (operandSyntax op) := by
  cases op <;> simp [operandSyntax, FlagLast]

theorem operandsError_cons (n : Nat) (kind : OperandKind) (kinds : List OperandKind) (tok : Str)
    (toks : List Str) : operandsError py n (kind :: kinds) (tok :: toks)
      = thenOthers py kind (n - 1) kinds tok toks := by
  cases n <;> rfl

/-- Operands that are all there and fit cause no exception. -/
theorem operandsError_none (kinds : List OperandKind) : ∀ (n : Nat) (toks : List Str),
    n ≤ toks.length → (∀ p ∈ kinds.zip toks, p.1.takes py p.2 = true ∧ p.1.inField py p.2 = true) →
      operandsError py n kinds toks = none := by
  induction kinds with
  | nil =>
      intro n toks _ _
      cases n <;> cases toks <;> rfl
  | cons kind kinds ih =>
      intro n toks hlen hfit
      cases toks with
      | nil =>
          -- nothing left to read, and nothing more is needed
          obtain rfl : n = 0 := Nat.le_zero.1 hlen
          rfl
      | cons tok toks =>
          rw [List.zip_cons_cons, List.forall_mem_cons] at hfit
          have hhead := OperandKind.error_of_inField hfit.1.1 hfit.1.2
          rw [operandsError_cons]
          unfold thenOthers
          simp only [hhead]
          exact ih (n - 1) toks (by rw [List.length_cons] at hlen; omega) hfit.2

/-- Where none of them is reported, what is raised is not caught. -/
theorem operandsError_uncaught (kinds : List OperandKind) : ∀ (n : Nat) (toks : List Str),
    (∀ p ∈ kinds.zip toks, p.1.takes py p.2 = true) →
      ∀ e, operandsError py n kinds toks = some e → e.caught = false := by
  induction kinds with
  | nil =>
      intro n toks _ e h
      cases n <;> cases toks <;> cases h
  | cons kind kinds ih =>
      intro n toks htakes e h
      cases toks with
      | nil =>
          cases n with
          -- the flag of a `mov`, left out
          | zero => cases h
          | succ n =>
              injection h with h
              rw [← h]
              rfl
      | cons tok toks =>
          rw [List.zip_cons_cons, List.forall_mem_cons] at htakes
          rw [operandsError_cons] at h
          unfold thenOthers at h
          cases hhead : kind.error py tok with
          | some e' =>
              simp only [hhead] at h
              injection h with h
              rw [← h]
              exact OperandKind.caught_of_takes htakes.1 hhead
          | none =>
              simp only [hhead] at h
              exact ih (n - 1) toks htakes.2 e h

/-- Where one of them is reported, what is raised is caught. -/
theorem operandsError_caught (kinds : List OperandKind) : ∀ (n : Nat) (toks : List Str),
    FlagLast kinds → (∃ p ∈ kinds.zip toks, p.1.takes py p.2 = false) →
      ∃ e, operandsError py n kinds toks = some e ∧ e.caught = true := by
  induction kinds with
  | nil =>
      intro n toks _ h
      obtain ⟨p, hp, -⟩ := h
      exact absurd hp List.not_mem_nil
  | cons kind kinds ih =>
      intro n toks hlast h
      cases toks with
      | nil =>
          obtain ⟨p, hp, -⟩ := h
          exact absurd hp List.not_mem_nil
      | cons tok toks =>
          rw [operandsError_cons]
          unfold thenOthers
          by_cases hhead : kind.takes py tok = true
          · -- the head is taken: the one that is reported stands behind it
            obtain ⟨p, hp, hreported⟩ := h
            have hrest : p ∈ kinds.zip toks := by
              rcases List.mem_cons.1 hp with rfl | hp
              · rw [hhead] at hreported
                cases hreported
              · exact hp
            cases herror : kind.error py tok with
            | none =>
                simp only
                exact ih (n - 1) toks hlast.2 ⟨p, hrest, hreported⟩
            | some e =>
                exfalso
                have hnot := OperandKind.caught_of_takes hhead herror
                rcases OperandKind.caught_or_flag herror with hcaught | hflag
                · rw [hnot] at hcaught
                  cases hcaught
                · rw [hlast.1 hflag] at hrest
                  exact absurd hrest List.not_mem_nil
          · -- the head itself is reported
            obtain ⟨e, herror, hcaught⟩ :=
              OperandKind.caught_of_not_takes (Bool.eq_false_iff.2 hhead)
            simp only [herror]
            exact ⟨e, rfl, hcaught⟩

end Operands

/-! ## §2. Lines. -/

/-- A `frameSize=<N>` token whose number fits the 16 bits of a frame size. -/
def declaresSize (py : Python) (tok : Str) : Bool :=
  "framesize=".toList.isPrefixOf (py.lower tok) &&
    match (afterSep '=' tok).bind py.int0 with
    | some n => decide (0 ≤ n ∧ n < 2 ^ 16)
    | none => false

/-- The operands behind a mnemonic: none is missing, none is left over, and
each is one of its kind that fits its field. -/
structure OperandsFit (py : Python) (op : Opcode) (operands : List Str) : Prop where
  enough : needed op ≤ operands.length
  no_more : operands.length ≤ (operandSyntax op).length
  fit : ∀ p ∈ (operandSyntax op).zip operands, p.1.takes py p.2 = true ∧ p.1.inField py p.2 = true

/-- **A line as the header of the file documents it**, all its tokens used. -/
def WellFormedLine (py : Python) (inFunc : Bool) (toks : List Str) : Prop :=
  match lineKind py toks with
  | .func =>
      inFunc = false ∧ toks.length ≤ 3 ∧ ∀ tok ∈ toks.drop 2, declaresSize py tok = true
  | .endfunc | .label => inFunc = true ∧ toks.length = 1
  | .instr =>
      inFunc = true ∧ ∃ op, mnemonicOf py toks = some op ∧ OperandsFit py op (toks.drop 1)

/-- **A line that is not well formed and that nothing reports.** -/
inductive Slips (py : Python) (inFunc : Bool) (toks : List Str) : Prop where
  /-- Tokens behind `.endfunc` or a label. -/
  | leftOver (opened : inFunc = true)
      (kind : lineKind py toks = .endfunc ∨ lineKind py toks = .label) (more : toks.length ≠ 1)
  /-- A token of `.func` that declares no frame size, one that does not fit, or
  a second one, while no number is refused. -/
  | stray (closed : inFunc = false) (kind : lineKind py toks = .func)
      (read : ∀ e, frameSizeOf py (toks.drop 2) 0 = .error e → e.caught = false)
      (bad : 3 < toks.length ∨ ∃ tok ∈ toks.drop 2, declaresSize py tok = false)
  /-- An operand missing, tokens left over, or a value that does not fit its
  field, behind a mnemonic whose operands are all taken. -/
  | operands (opened : inFunc = true) (kind : lineKind py toks = .instr) {op : Opcode}
      (mnemonic : mnemonicOf py toks = some op)
      (taken : ∀ p ∈ (operandSyntax op).zip (toks.drop 1), p.1.takes py p.2 = true)
      (bad : (toks.drop 1).length < needed op ∨ (operandSyntax op).length < (toks.drop 1).length ∨
        ∃ p ∈ (operandSyntax op).zip (toks.drop 1), p.1.inField py p.2 = false)

section Lines

variable {py : Python} {inFunc : Bool} {toks : List Str} {e : PyError}

/-- Frame sizes that are all declared are read. -/
theorem frameSizeOf_declared (toks : List Str) :
    (∀ tok ∈ toks, declaresSize py tok = true) → ∀ n, ∃ m, frameSizeOf py toks n = .ok m := by
  induction toks with
  | nil => exact fun _ n => ⟨n, rfl⟩
  | cons tok toks ih =>
      intro h n
      rw [List.forall_mem_cons] at h
      obtain ⟨htok, hrest⟩ := h
      unfold declaresSize at htok
      rw [Bool.and_eq_true] at htok
      obtain ⟨hdeclared, hvalue⟩ := htok
      unfold frameSizeOf
      rw [if_pos hdeclared]
      cases hafter : afterSep '=' tok with
      | none =>
          rw [hafter] at hvalue
          cases hvalue
      | some v =>
          simp only [hafter, Option.bind_some] at hvalue ⊢
          cases hint : py.int0 v with
          | none =>
              rw [hint] at hvalue
              cases hvalue
          | some m =>
              -- the number is read whether it fits 16 bits or not
              have hread : intOf py v = .ok m := by
                unfold intOf
                rw [hint]
              rw [except_bind_ok hread]
              exact ih hrest m

/-- **A well-formed line is handled.** -/
theorem refusal_of_wellFormed (h : WellFormedLine py inFunc toks) :
    refusal py inFunc toks = none := by
  unfold WellFormedLine at h
  unfold refusal
  cases hkind : lineKind py toks with
  | func =>
      simp only [hkind] at h ⊢
      obtain ⟨m, hm⟩ := frameSizeOf_declared (toks.drop 2) h.2.2 0
      rw [h.1, hm]
      rfl
  | endfunc =>
      simp only [hkind] at h ⊢
      exact if_pos h.1
  | label =>
      simp only [hkind] at h ⊢
      exact if_pos h.1
  | instr =>
      simp only [hkind] at h ⊢
      obtain ⟨hopen, op, hop, hfit⟩ := h
      rw [if_pos hopen]
      simp only [hop]
      rw [instrRefusal_eq]
      exact operandsError_none _ _ _ hfit.enough hfit.fit

/-- **One that slips through raises nothing that is caught.** -/
theorem refusal_of_slips (h : Slips py inFunc toks) (he : refusal py inFunc toks = some e) :
    e.caught = false := by
  unfold refusal at he
  cases h with
  | leftOver opened kind more =>
      rcases kind with kind | kind <;> simp only [kind, opened] at he <;> cases he
  | stray closed kind read bad =>
      simp only [kind, closed] at he
      exact read e (raised_some he)
  | @operands opened kind op mnemonic taken bad =>
      simp only [kind, opened, mnemonic, if_true] at he
      rw [instrRefusal_eq] at he
      exact operandsError_uncaught _ _ _ taken e he

/-- **Any other line is reported.** -/
theorem refusal_of_reported (hline : ¬ WellFormedLine py inFunc toks)
    (hslips : ¬ Slips py inFunc toks) :
    ∃ e, refusal py inFunc toks = some e ∧ e.caught = true := by
  unfold WellFormedLine at hline
  unfold refusal
  cases hkind : lineKind py toks with
  | func =>
      simp only [hkind] at hline ⊢
      by_cases hopen : inFunc = true
      · exact ⟨.nestedFunc, if_pos hopen, rfl⟩
      · have hclosed := Bool.eq_false_iff.2 hopen
        have hbad : 3 < toks.length ∨ ∃ tok ∈ toks.drop 2, declaresSize py tok = false := by
          by_contra hall
          push Not at hall
          exact hline ⟨hclosed, hall.1, fun tok htok =>
            Bool.eq_true_of_not_eq_false (hall.2 tok htok)⟩
        -- otherwise the line would slip through
        have hread : ∃ e, frameSizeOf py (toks.drop 2) 0 = .error e ∧ e.caught = true := by
          by_contra hnone
          push Not at hnone
          exact hslips (.stray hclosed hkind
            (fun e he => Bool.eq_false_iff.2 (hnone e he)) hbad)
        obtain ⟨e, he, hcaught⟩ := hread
        rw [if_neg hopen, he]
        exact ⟨e, rfl, hcaught⟩
  | endfunc =>
      simp only [hkind] at hline ⊢
      by_cases hopen : inFunc = true
      · -- inside a function only the tokens behind it can be wrong
        exact absurd (.leftOver hopen (Or.inl hkind) fun hlen => hline ⟨hopen, hlen⟩) hslips
      · exact ⟨.endfuncWithoutFunc, if_neg hopen, rfl⟩
  | label =>
      simp only [hkind] at hline ⊢
      by_cases hopen : inFunc = true
      · exact absurd (.leftOver hopen (Or.inr hkind) fun hlen => hline ⟨hopen, hlen⟩) hslips
      · exact ⟨.outsideFunc "label".toList, if_neg hopen, rfl⟩
  | instr =>
      simp only [hkind] at hline ⊢
      by_cases hopen : inFunc = true
      · rw [if_pos hopen]
        cases hop : mnemonicOf py toks with
        | none => exact ⟨.unknownMnemonic (lineHead py toks), rfl, rfl⟩
        | some op =>
            simp only
            rw [instrRefusal_eq]
            refine operandsError_caught _ _ _ (operandSyntax_flagLast op) ?_
            by_contra hnone
            push Not at hnone
            -- no operand is reported: then the line slips through
            have htaken : ∀ p ∈ (operandSyntax op).zip (toks.drop 1), p.1.takes py p.2 = true :=
              fun p hp => Bool.eq_true_of_not_eq_false (hnone p hp)
            refine hslips (.operands hopen hkind hop htaken ?_)
            by_contra hgood
            push Not at hgood
            exact hline ⟨hopen, op, hop, hgood.1, hgood.2.1, fun p hp =>
              ⟨htaken p hp, Bool.eq_true_of_not_eq_false (hgood.2.2 p hp)⟩⟩
      · exact ⟨.outsideFunc (lineHead py toks), if_neg hopen, rfl⟩

end Lines

end SproutLang.Assembler
