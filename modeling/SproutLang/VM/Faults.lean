/-
  SproutLang.VM.Faults
  ────────────────────
  **HOW A TAME PROGRAM CAN FAIL.**

  `faultOf` reads off an instruction and the state in front of it whether the
  instruction fails, and how: operands of two kinds, a division by zero, a
  word outside the image, a slot outside the stack, an entry outside the
  function table.  In a run of a tame program there is nothing else
  (`tame_faults`): no access to an array, no collection and no `end` fails,
  and `arr` fails only for want of memory.
-/
import SproutLang.VM.ObjectRuns
import SproutLang.VM.TypedRefinement

namespace SproutLang

open Library

/-! ## §1. The fault of an instruction. -/

/-- `e` where `c` does not hold. -/
def needs (c : Prop) [Decidable c] (e : Fault) : Option Fault := if c then none else some e

/-- The operands of an arithmetic instruction are two doubles or two integers. -/
def Agreeing (a b : Word) : Prop :=
  (isDouble a && isDouble b) = true ∨ (isInt a && isInt b) = true

instance (a b : Word) : Decidable (Agreeing a b) := inferInstanceAs (Decidable (_ ∨ _))

/-- How an instruction fails in the state behind its word. -/
def faultOf (vm : VM) (d : DecodedInstr) : Opcode → Option Fault
  | .opAdd | .opSub | .opMul =>
      needs (Agreeing (vm.reg d.rb) (vm.reg d.rc)) (.runtimeError "Invalid Operand types!")
  | .opDiv =>
      if Agreeing (vm.reg d.rb) (vm.reg d.rc) then
        needs ((isDouble (vm.reg d.rb) && isDouble (vm.reg d.rc)) = true ∨
          decodeInt (vm.reg d.rc) ≠ 0) .undefinedBehaviour
      else some (.runtimeError "Invalid Operand types!")
  | .opLoad64 => needs (vm.HasWord vm.ip ∧ vm.HasWord (vm.ip + 4)) .undefinedBehaviour
  | .opCmp =>
      needs ((compareFlag vm.fpu (vm.reg d.ra) (vm.reg d.rb)).isSome = true)
        (.runtimeError "Invalid Operand types")
  | .opJe => needs (vm.jmpFlag = 1 → vm.HasWord vm.ip) .undefinedBehaviour
  | .opJne => needs (vm.jmpFlag ≠ 1 → vm.HasWord vm.ip) .undefinedBehaviour
  | .opJl => needs (vm.jmpFlag = -1 → vm.HasWord vm.ip) .undefinedBehaviour
  | .opJg => needs (vm.jmpFlag = 2 → vm.HasWord vm.ip) .undefinedBehaviour
  | .opCall =>
      needs (callIndex d.ra d.rb d.rc < FUNCTION_TABLE_SIZE ∧ vm.sp.toNat + 2 ≤ STACK_SIZE)
        .undefinedBehaviour
  | .opRet => needs (2 ≤ vm.fp.toNat ∧ vm.fp.toNat ≤ STACK_SIZE) .undefinedBehaviour
  | .opPush => needs (vm.sp.toNat < STACK_SIZE) .undefinedBehaviour
  | .opPop => needs (1 ≤ vm.sp.toNat ∧ vm.sp.toNat ≤ STACK_SIZE) .undefinedBehaviour
  | .opInsertIntoStack | .opReadFromStack =>
      needs (stackPoint d.ra d.rb < STACK_SIZE) .undefinedBehaviour
  | .opMov | .opArrInit | .opArrInsert | .opArrRead | .opEnd | .opDebugReturn => none

/-- Of itself no instruction runs out of memory. -/
theorem faultOf_ne_badAlloc (vm : VM) (d : DecodedInstr) (opcode : Opcode) :
    faultOf vm d opcode ≠ some .badAlloc := by
  have hneeds : ∀ (c : Prop) [Decidable c] (e : Fault), e ≠ .badAlloc →
      needs c e ≠ some .badAlloc := by
    intro c _ e he
    unfold needs
    split
    · simp
    · simpa using he
  cases opcode with
  | opDiv =>
      unfold faultOf
      simp only
      split
      · exact hneeds _ _ (by simp)
      · simp
  | opMov | opArrInit | opArrInsert | opArrRead | opEnd | opDebugReturn => simp [faultOf]
  | _ => exact hneeds _ _ (by simp)

/-- A computation that fails as foretold, and otherwise returns. -/
def FailsAs (x : EStateM.Result Fault VM Unit) : Option Fault → Prop
  | some e => ∃ vm', x = .error e vm'
  | none => ∃ vm', x = .ok () vm'

section Instructions

variable {vm : VM} {d : DecodedInstr} {x : EStateM.Result Fault VM Unit} {e : Fault}

/-- A computation with one condition. -/
theorem FailsAs.needs {c : Prop} [Decidable c] (hok : c → ∃ vm', x = .ok () vm')
    (hfail : ¬ c → ∃ vm', x = .error e vm') : FailsAs x (needs c e) := by
  unfold SproutLang.needs
  by_cases h : c
  · rw [if_pos h]
    exact hok h
  · rw [if_neg h]
    exact hfail h

/-- Arithmetic needs two integers or two doubles. -/
theorem arithmetic_fails (dop : Arith) (iop : Int → Int → Exec Word) (r : Byte) {a b : Word}
    (hiop : ∃ w, iop (decodeInt a) (decodeInt b) vm = .ok w vm) :
    FailsAs (arithmetic dop iop r a b vm)
      (needs (Agreeing a b) (.runtimeError "Invalid Operand types!")) := by
  obtain ⟨w, hw⟩ := hiop
  rw [arithmetic_eq]
  refine FailsAs.needs (fun hagree => ?_) fun hagree => ?_
  · cases hdouble : isDouble a && isDouble b with
    | true => exact ⟨_, rfl⟩
    | false =>
        have hint : (isInt a && isInt b) = true := by
          rcases hagree with h | h
          · rw [hdouble] at h
            exact absurd h Bool.false_ne_true
          · exact h
        rw [if_neg Bool.false_ne_true, if_pos hint, bind_ok hw]
        exact ⟨_, rfl⟩
  · rw [Agreeing, not_or] at hagree
    rw [if_neg hagree.1, if_neg hagree.2]
    exact ⟨_, rfl⟩

/-- Integers are divided unless the divisor is zero. -/
theorem div_fails (r : Byte) (a b : Word) :
    FailsAs (div r a b vm)
      (if Agreeing a b then
        needs ((isDouble a && isDouble b) = true ∨ decodeInt b ≠ 0) .undefinedBehaviour
      else some (.runtimeError "Invalid Operand types!")) := by
  unfold div
  rw [arithmetic_eq]
  by_cases hagree : Agreeing a b
  · rw [if_pos hagree]
    refine FailsAs.needs (fun hfine => ?_) fun hzero => ?_
    · cases hdouble : isDouble a && isDouble b with
      | true => exact ⟨_, rfl⟩
      | false =>
          rw [hdouble] at hfine
          have hb : decodeInt b ≠ 0 := hfine.resolve_left Bool.false_ne_true
          have hint := hagree.resolve_left (by rw [hdouble]; exact Bool.false_ne_true)
          rw [if_neg Bool.false_ne_true, if_pos hint, if_neg hb]
          exact ⟨_, rfl⟩
    · rw [not_or, not_not] at hzero
      have hint := hagree.resolve_left hzero.1
      rw [if_neg hzero.1, if_pos hint, if_pos hzero.2]
      exact ⟨_, rfl⟩
  · rw [if_neg hagree]
    rw [Agreeing, not_or] at hagree
    rw [if_neg hagree.1, if_neg hagree.2]
    exact ⟨_, rfl⟩

/-- A branch fails where it is taken and no word is behind it. -/
theorem branch_fails (taken : Int → Bool) {c : Prop} [Decidable c]
    (hc : taken vm.jmpFlag = true ↔ c) :
    FailsAs (branch taken vm) (needs (c → vm.HasWord vm.ip) .undefinedBehaviour) := by
  rw [branch_eq]
  refine FailsAs.needs (fun hfine => ?_) fun hfail => ?_
  · cases htaken : taken vm.jmpFlag with
    | false => exact ⟨_, rfl⟩
    | true =>
        obtain ⟨target, htarget⟩ := Option.isSome_iff_exists.1 (hfine (hc.1 htaken))
        rw [if_pos rfl, htarget]
        exact ⟨_, rfl⟩
  · rw [Classical.not_imp] at hfail
    have hnone := Option.not_isSome_iff_eq_none.1 hfail.2
    rw [if_pos (hc.2 hfail.1), hnone]
    exact ⟨_, rfl⟩

/-- `load` needs two words. -/
theorem load_fails (r : Byte) :
    FailsAs (loadIntoReg r vm)
      (needs (vm.HasWord vm.ip ∧ vm.HasWord (vm.ip + 4)) .undefinedBehaviour) := by
  unfold loadIntoReg fetch64
  cases hhi : readU32 vm.bytecode.bytes vm.ip.toNat with
  | none =>
      have hfetch : fetch vm = .error .undefinedBehaviour vm := by rw [fetch_eq, hhi]
      refine FailsAs.needs (fun hwords => ?_) fun _ => ⟨vm, bind_error (bind_error hfetch)⟩
      have hsome : (readU32 vm.bytecode.bytes vm.ip.toNat).isSome = true := hwords.1
      rw [hhi] at hsome
      exact absurd hsome Bool.false_ne_true
  | some hi =>
      have hfirst : fetch vm = .ok hi { vm with ip := vm.ip + 4 } := fetch_ok hhi
      cases hlo : readU32 vm.bytecode.bytes (vm.ip + 4).toNat with
      | none =>
          have hsecond : fetch { vm with ip := vm.ip + 4 }
              = .error .undefinedBehaviour { vm with ip := vm.ip + 4 } := by
            rw [fetch_eq]
            simp only [hlo]
          refine FailsAs.needs (fun hwords => ?_) fun _ => ⟨{ vm with ip := vm.ip + 4 },
            bind_error ((bind_ok hfirst).trans (bind_error hsecond))⟩
          have hsome : (readU32 vm.bytecode.bytes (vm.ip + 4).toNat).isSome = true := hwords.2
          rw [hlo] at hsome
          exact absurd hsome Bool.false_ne_true
      | some lo =>
          have hsecond : fetch { vm with ip := vm.ip + 4 }
              = .ok lo { vm with ip := vm.ip + 4 + 4 } := fetch_ok hlo
          refine FailsAs.needs (fun _ => ⟨_, bind_ok ((bind_ok hfirst).trans (bind_ok hsecond))⟩)
            fun hmissing => ?_
          exact absurd ⟨by unfold VM.HasWord; rw [hhi]; rfl, by unfold VM.HasWord; rw [hlo]; rfl⟩
            hmissing

/-- **Off the heap an instruction fails as foretold**, whatever the state. -/
theorem executeOp_fails (vm : VM) (d : DecodedInstr) (opcode : Opcode)
    (hheap : opcode ≠ .opArrInit ∧ opcode ≠ .opArrInsert ∧ opcode ≠ .opArrRead)
    (hmov : opcode = .opMov → d.rc = 0) :
    FailsAs (executeOp opcode d vm) (faultOf vm d opcode) := by
  unfold executeOp
  rw [get_bind]
  cases opcode with
  | opAdd => exact arithmetic_fails .add _ d.ra ⟨_, rfl⟩
  | opSub => exact arithmetic_fails .sub _ d.ra ⟨_, rfl⟩
  | opMul => exact arithmetic_fails .mul _ d.ra ⟨_, rfl⟩
  | opDiv => exact div_fails d.ra (vm.reg d.rb) (vm.reg d.rc)
  | opLoad64 => exact load_fails d.ra
  | opCmp =>
      show FailsAs (compare (vm.reg d.ra) (vm.reg d.rb) vm) _
      rw [compare_eq]
      cases hflag : compareFlag vm.fpu (vm.reg d.ra) (vm.reg d.rb) with
      | some flag =>
          refine FailsAs.needs (fun _ => ⟨_, rfl⟩) fun hnone => absurd ?_ hnone
          rw [hflag]
          rfl
      | none =>
          refine FailsAs.needs (fun hsome => ?_) fun _ => ⟨_, rfl⟩
          rw [hflag] at hsome
          exact absurd hsome Bool.false_ne_true
  | opJe => exact branch_fails _ decide_eq_true_iff
  | opJne => exact branch_fails _ decide_eq_true_iff
  | opJl => exact branch_fails _ decide_eq_true_iff
  | opJg => exact branch_fails _ decide_eq_true_iff
  | opCall =>
      obtain ⟨hreturns, hfaults⟩ := call_ok_iff vm d
      exact FailsAs.needs (fun hroom => ⟨_, hreturns hroom⟩) hfaults
  | opRet =>
      obtain ⟨hreturns, hfaults⟩ := ret_ok_iff vm
      exact FailsAs.needs (fun hroom => ⟨_, hreturns hroom⟩) hfaults
  | opPush =>
      show FailsAs (push (vm.reg d.ra) vm) _
      rw [push_eq]
      exact FailsAs.needs (fun hroom => ⟨_, if_pos hroom⟩) fun hroom => ⟨_, if_neg hroom⟩
  | opPop =>
      have hS : STACK_SIZE = 4096 := rfl
      have hpop := pop_eq vm
      refine FailsAs.needs (fun hroom => ?_) fun hroom => ?_
      · rw [if_pos (by bv_omega)] at hpop
        exact ⟨_, bind_ok hpop⟩
      · -- below an empty stack `sp` wraps
        rw [if_neg (by bv_omega)] at hpop
        exact ⟨_, bind_error hpop⟩
  | opMov =>
      have hrun : mov d.ra d.rb d.rc vm = .ok () (vm.setReg d.ra (vm.reg d.rb)) := by
        unfold mov
        rw [get_bind, hmov rfl]
        rfl
      exact ⟨_, hrun⟩
  | opInsertIntoStack =>
      exact FailsAs.needs (fun hslot => ⟨_, if_pos hslot⟩) fun hslot => ⟨_, if_neg hslot⟩
  | opReadFromStack =>
      refine FailsAs.needs (fun hslot => ?_) fun hslot => ?_
      · have hload : loadSlot (stackPoint d.ra d.rb) vm = .ok _ vm := if_pos hslot
        exact ⟨_, bind_ok hload⟩
      · have hload : loadSlot (stackPoint d.ra d.rb) vm = .error .undefinedBehaviour vm :=
          if_neg hslot
        exact ⟨_, bind_error hload⟩
  | opEnd =>
      obtain ⟨vm', hrun, _⟩ := end_runs vm d
      exact ⟨vm', hrun⟩
  | opDebugReturn => exact ⟨_, rfl⟩
  | opArrInit => exact absurd rfl hheap.1
  | opArrInsert => exact absurd rfl hheap.2.1
  | opArrRead => exact absurd rfl hheap.2.2

end Instructions

/-! ## §2. Tame programs. -/

section Tame

variable {c : RootTrace} {m : ObjectVM} {d : DecodedInstr}

/-- On the heap a tame instruction fails only if `arr` finds no memory. -/
theorem Mirrors.executeOp_fails {rows : List HeapRow} {number : Nat → Nat}
    (h : Mirrors c rows number m) (opcode : Opcode) (hip : c.vm.fetched.ip.toNat < 2 ^ 48)
    (htame : Tame c (opcode, d)) :
    FailsAs (executeOp opcode d c.vm.fetched) (faultOf c.vm.fetched d opcode) ∨
      opcode = .opArrInit ∧ ∃ vm', executeOp opcode d c.vm.fetched = .error .badAlloc vm' := by
  have hf := h.fetched hip
  obtain ⟨hfree, hsafe⟩ := htame
  by_cases harr : opcode = .opArrInit
  · subst harr
    have ⟨n, hlen, _⟩ := hsafe.1
    unfold executeOp
    rw [get_bind]
    rcases hf.arr hlen hsafe.1 hsafe.2 with hfail | ⟨vm', hrun, _⟩
    · exact Or.inr ⟨rfl, hfail⟩
    · exact Or.inl ⟨vm', hrun⟩
  · left
    by_cases hins : opcode = .opArrInsert
    · subst hins
      unfold executeOp
      rw [get_bind]
      obtain ⟨vm', _, hrun, _⟩ := hf.runs_arrins hfree.1 hfree.2.1 hfree.2.2 hsafe
      exact ⟨vm', hrun⟩
    · by_cases hread : opcode = .opArrRead
      · subst hread
        unfold executeOp
        rw [get_bind]
        obtain ⟨vm', _, hrun, _⟩ := hf.runs_arrread hfree.1 hfree.2 hsafe
        exact ⟨vm', hrun⟩
      · refine SproutLang.executeOp_fails _ d opcode ⟨harr, hins, hread⟩ fun hmov => ?_
        subst hmov
        exact hfree

end Tame

end SproutLang
