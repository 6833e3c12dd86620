/-
  SproutLang.Assembler.Mnemonics
  ──────────────────────────────
  **WHAT A LINE WITH A MNEMONIC DOES.**

  The operands are read (`readInstr`), then the instruction is emitted
  (`emitInstr`).  `readInstr_effect` is the one case analysis over the
  mnemonics: what else is needed of a line follows from it, that it runs
  (`handle_mnemonic_runs`) or the exception it raises
  (`handle_mnemonic_refused`).
-/
import SproutLang.Assembler.Source

namespace SproutLang.Assembler

open Library

/-! ## §1. The functions of the object. -/

section Asm

variable {a : Asm} {fs : List Func} {f : Func}

/-- The last function is the one that changes. -/
theorem Asm.modifyLast_snoc (h : a.functions = fs ++ [f]) (g : Func → Func) :
    a.modifyLast g = { a with functions := fs ++ [g f] } := by
  unfold modifyLast
  rw [h, List.getLast?_append]
  simp only [List.getLast?_singleton, Option.some_or, List.dropLast_concat]

theorem Asm.modifyLast_nil (h : a.functions = []) (g : Func → Func) : a.modifyLast g = a := by
  unfold modifyLast
  rw [h]
  rfl

/-- Either no function was opened yet or there is a last one. -/
theorem Asm.functions_cases (a : Asm) : a.functions = [] ∨ ∃ fs f, a.functions = fs ++ [f] := by
  rcases List.eq_nil_or_concat a.functions with h | ⟨fs, f, h⟩
  · exact Or.inl h
  · exact Or.inr ⟨fs, f, by rw [h, List.concat_eq_append]⟩

/-- Two changes of the last function are one. -/
theorem Asm.modifyLast_modifyLast (a : Asm) (g h : Func → Func) :
    (a.modifyLast g).modifyLast h = a.modifyLast (h ∘ g) := by
  rcases a.functions_cases with hnil | ⟨fs, f, hsnoc⟩
  · rw [modifyLast_nil hnil, modifyLast_nil hnil, modifyLast_nil hnil]
  · rw [modifyLast_snoc hsnoc, modifyLast_snoc hsnoc, modifyLast_snoc rfl]
    rfl

end Asm

/-- The branch of a line to be patched. -/
def SourceInstr.patch (offset : Nat) : SourceInstr → List (Nat × Str)
  | .branch _ label => [(offset, label)]
  | _ => []

/-- A line's instruction at the end of the function, its label unresolved. -/
def Func.emit (f : Func) (s : SourceInstr) : Func :=
  { f with
    raw := f.raw ++ s.bytes fun _ => 0
    patches := f.patches ++ s.patch f.raw.length }

/-- The state after a line that says `s`. -/
def Asm.emit (a : Asm) (s : SourceInstr) : Asm := a.modifyLast fun f => f.emit s

/-- A new function, open for instructions. -/
def Asm.openFunc (a : Asm) (name : Str) (frameSize : Int) : Asm where
  functions := a.functions ++ [{ name, frameSize, labels := [], patches := [], raw := [] }]
  inFunc := true

/-- The name of a label for the current offset. -/
def Func.addLabel (f : Func) (name : Str) : Func :=
  { f with labels := (name, f.raw.length) :: f.labels }

section Offset

variable {a a' : Asm}

/-- The current offset is the length of the open function. -/
theorem cur_offset_eq_ok {n : Nat} (h : _cur_offset a = .ok n a') :
    a = a' ∧ ∀ fs f, a.functions = fs ++ [f] → n = f.raw.length := by
  unfold _cur_offset at h
  rw [get_bind] at h
  cases hlast : a.functions.getLast? with
  | none =>
      simp only [hlast] at h
      injection h with _ ha
      refine ⟨ha, fun fs f hsnoc => ?_⟩
      rw [hsnoc, List.getLast?_concat] at hlast
      exact absurd hlast (by simp)
  | some last =>
      simp only [hlast] at h
      injection h with hn ha
      refine ⟨ha, fun fs f hsnoc => ?_⟩
      rw [hsnoc, List.getLast?_concat] at hlast
      injection hlast with hlast
      rw [← hn, hlast]

/-- The offset can always be read. -/
theorem cur_offset_runs (a : Asm) : ∃ n, _cur_offset a = .ok n a := by
  unfold _cur_offset
  rw [get_bind]
  cases a.functions.getLast? with
  | none => exact ⟨_, rfl⟩
  | some f => exact ⟨_, rfl⟩

end Offset

/-! ## §2. Reading, then emitting. -/

/-- The exception of a computation outside the object. -/
def raised {α : Type} : Except PyError α → Option PyError
  | .ok _ => none
  | .error e => some e

/-- What `_handle_mnemonic` does once the operands are read. -/
def emitInstr : SourceInstr → AsmM Unit
  | .regs op rs => do
      _emit (← liftPy (pack_instr op (rs.getD 0 0) (rs.getD 1 0) ((rs.getD 2 0 : Nat) : Int)))
  | .load dst literal => do
      _emit (← liftPy (pack_instr .opLoad64 dst 0 0))
      _emit (pack_u64 literal)
  | .branch op label => do
      let patchOffset ← _cur_offset
      _emit (← liftPy (pack_instr op 0 0 0))
      _emit [0, 0, 0, 0]
      modify (Asm.modifyLast fun f => { f with patches := f.patches ++ [(patchOffset, label)] })
  | .call idx => do
      if ¬ (0 ≤ idx ∧ idx ≤ 0xFFFFFF) then throw (.callRange idx)
      let i := idx.toNat
      _emit (← liftPy
        (pack_instr .opCall (i / 2 ^ 16 % 256) (i / 2 ^ 8 % 256) ((i % 256 : Nat) : Int)))
  | .mov dst src flag => do
      _emit (← liftPy (pack_instr .opMov dst src flag))

/-- Why a line that says this is refused. -/
def SourceInstr.refusal : SourceInstr → Option PyError
  | .call index => if 0 ≤ index ∧ index ≤ 0xFFFFFF then none else some (.callRange index)
  | .mov _ _ flag => if 0 ≤ flag ∧ flag < 2 ^ 32 then none else some .structRange
  | _ => none

namespace SourceInstr

/-- The index of an accepted `call` has 24 bits. -/
theorem refusal_call_none {index : Int} (h : (call index).refusal = none) :
    0 ≤ index ∧ index ≤ 0xFFFFFF := by
  by_contra hrange
  rw [refusal, if_neg hrange] at h
  cases h

theorem refusal_call_some {index : Int} {e : PyError} (h : (call index).refusal = some e) :
    ¬ (0 ≤ index ∧ index ≤ 0xFFFFFF) ∧ e = .callRange index := by
  by_cases hrange : 0 ≤ index ∧ index ≤ 0xFFFFFF
  · rw [refusal, if_pos hrange] at h
    cases h
  · rw [refusal, if_neg hrange] at h
    injection h with h
    exact ⟨hrange, h.symm⟩

/-- The flag of an accepted `mov` has 32 bits. -/
theorem refusal_mov_none {dst src : Nat} {flag : Int} (h : (mov dst src flag).refusal = none) :
    0 ≤ flag ∧ flag < 2 ^ 32 := by
  by_contra hrange
  rw [refusal, if_neg hrange] at h
  cases h

theorem refusal_mov_some {dst src : Nat} {flag : Int} {e : PyError}
    (h : (mov dst src flag).refusal = some e) :
    ¬ (0 ≤ flag ∧ flag < 2 ^ 32) ∧ e = .structRange := by
  by_cases hrange : 0 ≤ flag ∧ flag < 2 ^ 32
  · rw [refusal, if_pos hrange] at h
    cases h
  · rw [refusal, if_neg hrange] at h
    injection h with h
    exact ⟨hrange, h.symm⟩

end SourceInstr

section Reading

variable {py : Python} {op : Opcode} {toks : List Str} {a : Asm}

/-- An operand that is read is a token of the line. -/
theorem tokAt_eq_ok {i : Nat} {tok : Str} (h : tokAt toks i = .ok tok) :
    toks[i]? = some tok := by
  unfold tokAt at h
  split at h
  · rename_i t htok
    injection h with h
    rw [← h]
    exact htok
  · cases h

/-- A register that is read has a number below 256. -/
theorem regAt_lt {i r : Nat} (h : regAt py toks i = .ok r) : r < 256 := by
  obtain ⟨tok, -, h⟩ := except_bind_eq_ok h
  unfold parse_reg at h
  split at h
  · split at h
    · cases h
    · split at h
      · injection h with h
        omega
      · cases h
  · cases h

theorem liftPy_bind {α β : Type} (x : Except PyError α) (f : α → Except PyError β) :
    liftPy (x >>= f) = liftPy x >>= fun v => liftPy (f v) := by
  funext a
  cases x <;> rfl

theorem liftPy_pure {α : Type} (v : α) : liftPy (pure v) = (pure v : AsmM α) := rfl

/-- **Every handler reads its operands and then emits an instruction.** -/
theorem handle_mnemonic_reads :
    _handle_mnemonic py op toks = liftPy (readInstr py op toks) >>= emitInstr := by
  cases op with
  | opAdd | opSub | opMul | opDiv | opInsertIntoStack | opReadFromStack | opArrInit
  | opArrInsert | opArrRead =>
      simp only [_handle_mnemonic, emitRegs, readInstr, liftPy_bind, bind_assoc, liftPy_pure,
        pure_bind]
      rfl
  | opPush | opPop | opEnd | opDebugReturn | opCmp | opLoad64 | opRet =>
      simp only [_handle_mnemonic, readInstr, liftPy_bind, bind_assoc]
      rfl
  | opJe | opJne | opJl | opJg =>
      simp only [_handle_mnemonic, readInstr, liftPy_bind, bind_assoc]
      congr 1
      funext label a
      -- what is no reference is refused before anything is emitted
      by_cases hat : startsWith label '@' = true
      · rw [hat]
        rfl
      · rw [Bool.eq_false_iff.2 hat]
        rfl
  | opCall =>
      simp only [_handle_mnemonic, readInstr, liftPy_bind, bind_assoc]
      rfl
  | opMov =>
      simp only [_handle_mnemonic, readInstr, liftPy_bind, bind_assoc]
      congr 1
      funext dst
      congr 1
      funext src
      cases toks[3]? with
      | none => rfl
      | some t =>
          simp only [liftPy_bind, bind_assoc]
          rfl

/-- Fields that fit make a word that fits; only a flag can be too large. -/
theorem packed_lt (op : Opcode) {x y z : Nat} (hx : x < 256) (hy : y < 256) (hz : z < 2 ^ 32) :
    packed op x y z < 2 ^ 32 := by
  have hop : op.toNat < 256 := by cases op <;> decide
  unfold packed
  rw [Nat.shiftLeft_eq, Nat.shiftLeft_eq, Nat.shiftLeft_eq]
  refine Nat.or_lt_two_pow (Nat.or_lt_two_pow (Nat.or_lt_two_pow ?_ ?_) ?_) hz <;> omega

/-- Fields that fit are packed. -/
theorem pack_instr_fits (op : Opcode) {x y z : Nat} (hx : x < 256) (hy : y < 256)
    (hz : z < 2 ^ 32) : pack_instr op x y (z : Int) = .ok (bigEndian 4 (packed op x y z)) :=
  if_pos (packed_lt op hx hy hz)

/-- A negative flag, or one of more than 32 bits, is no operand of `struct.pack`. -/
theorem pack_instr_refused (op : Opcode) (x y : Nat) {z : Int} (hz : ¬ (0 ≤ z ∧ z < 2 ^ 32)) :
    pack_instr op x y z = .error .structRange := by
  cases z with
  | negSucc n => rfl
  | ofNat c =>
      have hlarge : 2 ^ 32 ≤ c := by
        by_contra hsmall
        exact hz ⟨Int.natCast_nonneg c, by show (c : Int) < 2 ^ 32; omega⟩
      -- the flag is the last field, so the word is at least as large
      have hle : c ≤ packed op x y c := Nat.right_le_or
      exact if_neg (by show ¬ packed op x y c < 2 ^ 32; omega)

/-- **What reading settles**: the mnemonic, the width, and all that is checked
unless the instruction is refused. -/
theorem readInstr_effect {s : SourceInstr} (h : readInstr py op toks = .ok s) :
    s.opcode = op ∧ s.width = op.width ∧ (s.refusal = none → s.Checked) := by
  unfold readInstr at h
  cases op with
  | opAdd | opSub | opMul | opDiv | opInsertIntoStack | opReadFromStack | opArrInit
  | opArrInsert | opArrRead =>
      obtain ⟨x, hx, h⟩ := except_bind_eq_ok h
      obtain ⟨y, hy, h⟩ := except_bind_eq_ok h
      obtain ⟨z, hz, h⟩ := except_bind_eq_ok h
      injection h with h
      subst h
      refine ⟨rfl, rfl, fun _ => ⟨Opcode.noConfusion, rfl, Nat.le_refl 3, ?_⟩⟩
      exact List.forall_mem_cons.2 ⟨regAt_lt hx,
        List.forall_mem_cons.2 ⟨regAt_lt hy, List.forall_mem_singleton.2 (regAt_lt hz)⟩⟩
  | opPush | opPop | opEnd | opDebugReturn =>
      obtain ⟨x, hx, h⟩ := except_bind_eq_ok h
      injection h with h
      subst h
      refine ⟨rfl, rfl, fun _ => ⟨Opcode.noConfusion, rfl, Nat.le_add_left 1 2, ?_⟩⟩
      exact List.forall_mem_singleton.2 (regAt_lt hx)
  | opCmp =>
      obtain ⟨x, hx, h⟩ := except_bind_eq_ok h
      obtain ⟨y, hy, h⟩ := except_bind_eq_ok h
      injection h with h
      subst h
      refine ⟨rfl, rfl, fun _ => ⟨Opcode.noConfusion, rfl, Nat.le_add_left 2 1, ?_⟩⟩
      exact List.forall_mem_cons.2 ⟨regAt_lt hx, List.forall_mem_singleton.2 (regAt_lt hy)⟩
  | opRet =>
      injection h with h
      subst h
      refine ⟨rfl, rfl, fun _ => ⟨Opcode.noConfusion, rfl, Nat.zero_le 3, ?_⟩⟩
      exact fun _ hr => absurd hr List.not_mem_nil
  | opLoad64 =>
      obtain ⟨dst, hdst, h⟩ := except_bind_eq_ok h
      obtain ⟨tok, -, h⟩ := except_bind_eq_ok h
      obtain ⟨literal, -, h⟩ := except_bind_eq_ok h
      injection h with h
      subst h
      exact ⟨rfl, rfl, fun _ => regAt_lt hdst⟩
  | opJe | opJne | opJl | opJg =>
      obtain ⟨label, -, h⟩ := except_bind_eq_ok h
      split at h
      · obtain ⟨_, hthrow, _⟩ := except_bind_eq_ok h
        injection hthrow
      · injection h with h
        subst h
        exact ⟨rfl, rfl, fun _ => rfl⟩
  | opCall =>
      obtain ⟨tok, -, h⟩ := except_bind_eq_ok h
      obtain ⟨index, -, h⟩ := except_bind_eq_ok h
      injection h with h
      subst h
      refine ⟨rfl, rfl, fun hnone => ?_⟩
      -- the 24 bits of the index are tested where it is emitted
      have hrange := SourceInstr.refusal_call_none hnone
      exact ⟨hrange.1, by omega⟩
  | opMov =>
      obtain ⟨dst, hdst, h⟩ := except_bind_eq_ok h
      obtain ⟨src, hsrc, h⟩ := except_bind_eq_ok h
      -- the flag is the third operand, or zero where there is none
      obtain ⟨flag, rfl⟩ : ∃ flag, s = .mov dst src flag := by
        split at h
        · obtain ⟨flag, -, h⟩ := except_bind_eq_ok h
          injection h with h
          exact ⟨flag, h.symm⟩
        · injection h with h
          exact ⟨0, h.symm⟩
      refine ⟨rfl, rfl, fun hnone => ?_⟩
      have hrange := SourceInstr.refusal_mov_none hnone
      exact ⟨regAt_lt hdst, regAt_lt hsrc, hrange.1⟩

theorem liftPy_ok {α β : Type} {x : Except PyError α} {v : α} {f : α → AsmM β} (hx : x = .ok v) :
    (liftPy x >>= f) a = f v a := by
  rw [hx]
  rfl

theorem liftPy_error {α β : Type} {x : Except PyError α} {e : PyError} {f : α → AsmM β}
    (hx : x = .error e) : (liftPy x >>= f) a = .error e a := by
  rw [hx]
  rfl

/-- A refused instruction raises the exception. -/
theorem emitInstr_refused {s : SourceInstr} {e : PyError} (h : s.refusal = some e) :
    emitInstr s a = .error e a := by
  cases s with
  | regs | load | branch => exact absurd h (by simp [SourceInstr.refusal])
  | call index =>
      obtain ⟨hrange, rfl⟩ := SourceInstr.refusal_call_some h
      simp only [emitInstr]
      rw [if_pos hrange]
      rfl
  | mov dst src flag =>
      obtain ⟨hrange, rfl⟩ := SourceInstr.refusal_mov_some h
      exact liftPy_error (pack_instr_refused .opMov dst src hrange)

/-- Bytes that are emitted in two pieces. -/
theorem emit_emit (x y : List Byte) : (_emit x >>= fun _ => _emit y) a = _emit (x ++ y) a := by
  have hfirst : _emit x a = .ok () (a.modifyLast fun f => { f with raw := f.raw ++ x }) := rfl
  rw [bind_ok hfirst]
  unfold _emit
  rw [modify_apply, modify_apply, Asm.modifyLast_modifyLast]
  congr 2
  funext f
  simp only [Function.comp_apply, List.append_assoc]

/-- A line that is no branch is its bytes. -/
theorem emit_bytes {s : SourceInstr} {data : List Byte} (hpatch : ∀ n, s.patch n = [])
    (hdata : s.bytes (fun _ => 0) = data) : _emit data a = .ok () (a.emit s) := by
  unfold _emit Asm.emit
  rw [modify_apply]
  congr 2
  funext f
  unfold Func.emit
  rw [hpatch, List.append_nil, hdata]

/-- A branch is its word, four zeros and a patch. -/
theorem emit_branch (op : Opcode) (label : Str) :
    emitInstr (.branch op label) a = .ok () (a.emit (.branch op label)) := by
  have hpack : pack_instr op 0 0 0 = .ok (bigEndian 4 (packed op 0 0 0)) :=
    pack_instr_fits op (by decide) (by decide) (z := 0) (by decide)
  obtain ⟨offset, hoffset⟩ := cur_offset_runs a
  obtain ⟨-, hcur⟩ := cur_offset_eq_ok hoffset
  -- the word and the target are emitted one after the other
  have hword := emit_emit (a := a) (bigEndian 4 (packed op 0 0 0)) [0, 0, 0, 0]
  simp only [emitInstr]
  rw [bind_ok hoffset, liftPy_ok hpack, ← bind_assoc, bind_ok (hword.trans (modify_apply _)),
    modify_apply, Asm.modifyLast_modifyLast]
  unfold Asm.emit
  congr 1
  rcases a.functions_cases with hnil | ⟨fs, f, hsnoc⟩
  · rw [Asm.modifyLast_nil hnil, Asm.modifyLast_nil hnil]
  · -- the offset is the length of the code before the word
    have hzero : bigEndian 4 0 = [0, 0, 0, 0] := by decide
    have hbytes : (SourceInstr.branch op label).bytes (fun _ => 0)
        = bigEndian 4 (packed op 0 0 0) ++ [0, 0, 0, 0] := by
      rw [← hzero]
      rfl
    rw [Asm.modifyLast_snoc hsnoc, Asm.modifyLast_snoc hsnoc, hcur fs f hsnoc]
    unfold Func.emit
    rw [hbytes]
    rfl

/-- **What is checked and not refused is emitted.** -/
theorem emitInstr_runs {s : SourceInstr} (hs : s.Checked) (h : s.refusal = none) :
    emitInstr s a = .ok () (a.emit s) := by
  cases s with
  | regs op rs =>
      have hlt := SourceInstr.getD_lt hs.2.2.2
      refine (liftPy_ok (pack_instr_fits op (hlt 0) (hlt 1)
        (Nat.lt_trans (hlt 2) (by decide)))).trans ?_
      exact emit_bytes (fun _ => rfl) (List.append_nil _)
  | load dst literal =>
      refine (liftPy_ok (pack_instr_fits .opLoad64 hs (by decide) (by decide))).trans ?_
      exact (emit_emit _ _).trans (emit_bytes (fun _ => rfl) rfl)
  | branch op label => exact emit_branch op label
  | call index =>
      simp only [emitInstr]
      rw [if_neg (not_not.2 (SourceInstr.refusal_call_none h))]
      refine (liftPy_ok (pack_instr_fits .opCall (Nat.mod_lt _ (by decide))
        (Nat.mod_lt _ (by decide)) (Nat.lt_trans (Nat.mod_lt _ (by decide)) (by decide)))).trans ?_
      exact emit_bytes (fun _ => rfl) (List.append_nil _)
  | mov dst src flag =>
      -- a flag that is not refused is a natural number
      have hrange := SourceInstr.refusal_mov_none h
      obtain ⟨n, rfl⟩ := Int.eq_ofNat_of_zero_le hrange.1
      refine (liftPy_ok (pack_instr_fits .opMov hs.1 hs.2.1 (by omega))).trans ?_
      exact emit_bytes (fun _ => rfl) (List.append_nil _)

/-- Why a line with a mnemonic is refused. -/
def instrRefusal (py : Python) (op : Opcode) (toks : List Str) : Option PyError :=
  match readInstr py op toks with
  | .ok s => s.refusal
  | .error e => some e

/-- A line refused for its operands raises the exception. -/
theorem handle_mnemonic_refused {e : PyError} (h : instrRefusal py op toks = some e) :
    _handle_mnemonic py op toks a = .error e a := by
  rw [handle_mnemonic_reads]
  unfold instrRefusal at h
  cases hread : readInstr py op toks with
  | error e' =>
      simp only [hread] at h
      injection h with h
      rw [← h]
      -- an operand is refused, and nothing is emitted yet
      exact liftPy_error rfl
  | ok s =>
      simp only [hread] at h
      rw [liftPy_ok rfl]
      exact emitInstr_refused h

/-- Any other line emits the instruction it says. -/
theorem handle_mnemonic_runs (h : instrRefusal py op toks = none) :
    ∃ s, readInstr py op toks = .ok s ∧ s.Checked ∧
      _handle_mnemonic py op toks a = .ok () (a.emit s) := by
  rw [handle_mnemonic_reads]
  unfold instrRefusal at h
  cases hread : readInstr py op toks with
  | error e =>
      simp only [hread] at h
      exact absurd h (by simp)
  | ok s =>
      simp only [hread] at h
      have hchecked := (readInstr_effect hread).2.2 h
      rw [liftPy_ok rfl]
      exact ⟨s, rfl, hchecked, emitInstr_runs hchecked h⟩

end Reading

end SproutLang.Assembler
