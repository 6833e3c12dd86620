/-
  SproutLang.VM.ObjectRefinement
  ──────────────────────────────
  **THE VM REFINES THE MACHINE WITHOUT ADDRESSES.**

  One lemma for each instruction, each about a VM that returns and about one
  that faults; from them:

    • `Mirrors.agrees_executeOp` — an instruction,
    • `Mirrors.agrees_iterate`   — a round of the VM and a step of the object
                                   machine agree, faults included, unless
                                   memory has run out,
    • `Mirrors.faults_iterate`   — and where the round faults.
-/
import SproutLang.VM.ObjectRelation

namespace SproutLang

open Library

/-! ## §1. Outcomes. -/

/-- **What a round of the VM and a step of the object machine have in
common**: both go on, both halt, or both fault in the same way; only memory
that runs out is the VM's own affair. -/
inductive Agrees (stale : Nat → Prop) (staleFp : Prop) :
    EStateM.Result Fault VM Unit → Except Fault ObjectVM → Prop where
  | next {vm : VM} {m : ObjectVM} (mirrored : Mirrored ⟨vm, stale, staleFp⟩ m) :
      Agrees stale staleFp (.ok () vm) (.ok m)
  | halted {vm : VM} {m : ObjectVM} (stopped : vm.running = false) (control : SameControl vm m) :
      Agrees stale staleFp (.ok () vm) (.ok m)
  | fault {e : Fault} {vm : VM} : Agrees stale staleFp (.error e vm) (.error e)
  | exhausted {vm : VM} {r : Except Fault ObjectVM} : Agrees stale staleFp (.error .badAlloc vm) r

section Instruction

variable {c : RootTrace} {rows : List HeapRow} {number : Nat → Nat} {m : ObjectVM}
  {d : DecodedInstr}

/-- What a register's cell says about its word. -/
theorem Mirrors.reg_word (h : Mirrors c rows number m) {r : Byte} {w : Word}
    (hr : m.reg r = .word w) : c.vm.reg r = w ∧ isPointer w = false := by
  have hkind := h.cells.regs r
  rw [hr] at hkind
  exact ⟨hkind.1.symm, by rw [hkind.1]; exact hkind.2⟩

/-- Where the object machine has an array, the VM has a pointer. -/
theorem Mirrors.reg_array (h : Mirrors c rows number m) {r : Byte} {k : Nat}
    (hr : m.reg r = .array k) : isPointer (c.vm.reg r) = true := by
  have hkind := h.cells.regs r
  rw [hr] at hkind
  exact hkind

/-- Arithmetic: the same result, the same fault, and no pointer. -/
theorem Mirrors.agrees_arithmetic (h : Mirrors c rows number m) (op : Arith) {iop : Int → Int → Exec Word}
    (hiop : ∀ a b, iop a b c.vm = if op = .div ∧ b = 0 then .error .undefinedBehaviour c.vm
      else .ok (BitVec.ofInt 64 (op.exact a b)) c.vm) :
    Agrees c.stale c.staleFp (arithmetic op iop d.ra (c.vm.reg d.rb) (c.vm.reg d.rc) c.vm)
      (m.arithmetic op d) := by
  rw [arithmetic_eq]
  unfold ObjectVM.arithmetic
  -- an array on either side fits no case
  cases hb : m.reg d.rb with
  | array k =>
      obtain ⟨hdouble, hint, _⟩ := isPointer_classes (h.reg_array hb)
      rw [hdouble, hint]
      exact Agrees.fault
  | word a =>
      obtain ⟨hwb, hpb⟩ := h.reg_word hb
      cases hc : m.reg d.rc with
      | array k =>
          obtain ⟨hdouble, hint, _⟩ := isPointer_classes (h.reg_array hc)
          rw [hdouble, hint, Bool.and_false, Bool.and_false]
          exact Agrees.fault
      | word b =>
          obtain ⟨hwc, hpc⟩ := h.reg_word hc
          rw [hwb, hwc]
          simp only [ObjectVM.arithWord, h.control.fpu]
          cases hdouble : isDouble a && isDouble b with
          | true =>
              exact Agrees.next ⟨rows, number,
                h.setReg (Stands.plain (c.vm.fpu.ieee op a b).isPointer_eq_false)⟩
          | false =>
              cases hint : isInt a && isInt b with
              | false => exact Agrees.fault
              | true =>
                  have hres := hiop (decodeInt a) (decodeInt b)
                  by_cases hzero : op = .div ∧ decodeInt b = 0
                  · rw [if_pos hzero] at hres
                    simp only [if_pos hzero, if_neg Bool.false_ne_true, if_true,
                      bind_error hres]
                    exact Agrees.fault
                  · rw [if_neg hzero] at hres
                    simp only [if_neg hzero, if_neg Bool.false_ne_true, if_true, bind_ok hres]
                    exact Agrees.next ⟨rows, number, h.setReg (Stands.plain (isPointer_encodeInt _))⟩

/-- Comparisons agree. -/
theorem Mirrors.agrees_compare (h : Mirrors c rows number m) :
    Agrees c.stale c.staleFp (compare (c.vm.reg d.ra) (c.vm.reg d.rb) c.vm) (m.compare d) := by
  rw [compare_eq]
  unfold ObjectVM.compare
  -- with a pointer on either side the source throws
  have hthrow : isPointer (c.vm.reg d.ra) = true ∨ isPointer (c.vm.reg d.rb) = true →
      compareFlag c.vm.fpu (c.vm.reg d.ra) (c.vm.reg d.rb) = none := by
    intro hptr
    unfold compareFlag
    rcases hptr with hptr | hptr
    · obtain ⟨hdouble, hint, hbool, _⟩ := isPointer_classes hptr
      simp only [hdouble, hint, hbool, Bool.false_and, if_neg Bool.false_ne_true]
    · obtain ⟨hdouble, hint, hbool, _⟩ := isPointer_classes hptr
      simp only [hdouble, hint, hbool, Bool.and_false, if_neg Bool.false_ne_true]
  cases ha : m.reg d.ra with
  | array k =>
      rw [hthrow (Or.inl (h.reg_array ha))]
      exact Agrees.fault
  | word a =>
      cases hb : m.reg d.rb with
      | array k =>
          rw [hthrow (Or.inr (h.reg_array hb))]
          exact Agrees.fault
      | word b =>
          rw [(h.reg_word ha).1, (h.reg_word hb).1]
          cases hflag : compareFlag c.vm.fpu a b with
          | some flag =>
              rw [← h.control.fpu] at hflag
              simp only [hflag]
              exact Agrees.next ⟨rows, number, h.setFlag flag⟩
          | none =>
              rw [← h.control.fpu] at hflag
              simp only [hflag]
              exact Agrees.fault

/-- Both machines read the same image. -/
theorem Mirrors.wordAt_some (h : Mirrors c rows number m) {a : Word} {w : BitVec 32}
    (hword : readU32 c.vm.bytecode.bytes a.toNat = some w) : m.wordAt a = .ok w := by
  unfold ObjectVM.wordAt
  rw [h.control.code, hword]

/-- Behind the image neither machine finds a word. -/
theorem Mirrors.wordAt_none (h : Mirrors c rows number m) {a : Word}
    (hword : readU32 c.vm.bytecode.bytes a.toNat = none) :
    m.wordAt a = .error .undefinedBehaviour := by
  unfold ObjectVM.wordAt
  rw [h.control.code, hword]

/-- An address in the image, or just behind it, is no pointer. -/
theorem isPointer_code {ip : Word} (hip : ip.toNat < 2 ^ 48) :
    isPointer ip = false ∧ isPointer (ip + 4) = false ∧ isPointer (ip + 4 + 4) = false := by
  have h4 : (ip + 4).toNat = ip.toNat + 4 := by bv_omega
  have h8 : (ip + 4 + 4).toNat = ip.toNat + 8 := by bv_omega
  exact ⟨isPointer_eq_false_of_lt (by omega), isPointer_eq_false_of_lt (by omega),
    isPointer_eq_false_of_lt (by omega)⟩

/-- Branches agree. -/
theorem Mirrors.agrees_branch (h : Mirrors c rows number m) (hip : c.vm.ip.toNat < 2 ^ 48)
    (taken : Int → Bool) :
    Agrees c.stale c.staleFp (branch taken c.vm) (m.branch c.vm.ip taken) := by
  rw [branch_eq]
  unfold ObjectVM.branch
  have hflag : taken m.jmpFlag = taken c.vm.jmpFlag := congrArg taken h.control.jmpFlag
  rw [hflag]
  cases taken c.vm.jmpFlag with
  | true =>
      cases hword : readU32 c.vm.bytecode.bytes c.vm.ip.toNat with
      | none =>
          rw [h.wordAt_none hword]
          exact Agrees.fault
      | some target =>
          rw [h.wordAt_some hword]
          refine Agrees.next ⟨rows, number, h.setIp (isPointer_eq_false_of_lt ?_)⟩
          rw [BitVec.toNat_setWidth]
          have := target.isLt
          omega
  | false => exact Agrees.next ⟨rows, number, h.setIp (isPointer_code hip).2.1⟩

/-- A `load` of a plain word. -/
theorem Mirrors.agrees_load (h : Mirrors c rows number m) (hip : c.vm.ip.toNat < 2 ^ 48)
    (hplain : (value (fetch64 c.vm)).all (fun w => !isPointer w) = true) :
    Agrees c.stale c.staleFp (loadIntoReg d.ra c.vm) (m.execute c.vm.ip d .opLoad64) := by
  unfold loadIntoReg ObjectVM.execute
  cases hhi : readU32 c.vm.bytecode.bytes c.vm.ip.toNat with
  | none =>
      have hfetch : fetch c.vm = .error .undefinedBehaviour c.vm := by rw [fetch_eq, hhi]
      have hboth : fetch64 c.vm = .error .undefinedBehaviour c.vm := bind_error hfetch
      rw [bind_error hboth, h.wordAt_none hhi]
      exact Agrees.fault
  | some hi =>
      have hfirst : fetch c.vm = .ok hi { c.vm with ip := c.vm.ip + 4 } := fetch_ok hhi
      rw [h.wordAt_some hhi]
      cases hlo : readU32 c.vm.bytecode.bytes (c.vm.ip + 4).toNat with
      | none =>
          have hsecond : fetch { c.vm with ip := c.vm.ip + 4 }
              = .error .undefinedBehaviour { c.vm with ip := c.vm.ip + 4 } := by
            rw [fetch_eq]
            simp only [hlo]
          have hboth : fetch64 c.vm
              = .error .undefinedBehaviour { c.vm with ip := c.vm.ip + 4 } := by
            unfold fetch64
            rw [bind_ok hfirst, bind_error hsecond]
          rw [bind_error hboth, h.wordAt_none hlo]
          exact Agrees.fault
      | some lo =>
          have hsecond : fetch { c.vm with ip := c.vm.ip + 4 }
              = .ok lo { c.vm with ip := c.vm.ip + 4 + 4 } := fetch_ok hlo
          have hboth : fetch64 c.vm = .ok ((hi.setWidth 64 <<< 32) ||| lo.setWidth 64)
              { c.vm with ip := c.vm.ip + 4 + 4 } := by
            unfold fetch64
            rw [bind_ok hfirst, bind_ok hsecond]
            rfl
          rw [bind_ok hboth, h.wordAt_some hlo]
          rw [hboth] at hplain
          have hword : (!isPointer ((hi.setWidth 64 <<< 32) ||| lo.setWidth 64)) = true := hplain
          refine Agrees.next ⟨rows, number, ?_⟩
          exact (h.setIp (isPointer_code hip).2.2).setReg (Stands.plain (by simpa using hword))

/-- An instruction that the object machine guards, and a VM that keeps to the
guard. -/
theorem Agrees.guarded {stale : Nat → Prop} {staleFp : Prop} {x : EStateM.Result Fault VM Unit}
    {P : Prop} [Decidable P] {m' : ObjectVM} (hpos : P → Agrees stale staleFp x (.ok m'))
    (hneg : ¬ P → ∃ vm', x = .error .undefinedBehaviour vm') :
    Agrees stale staleFp x (ObjectVM.guarded P m') := by
  unfold ObjectVM.guarded
  by_cases h : P
  · rw [if_pos h]
    exact hpos h
  · obtain ⟨vm', hx⟩ := hneg h
    rw [if_neg h, hx]
    exact Agrees.fault

/-- A push agrees, and its slot is fresh. -/
theorem Mirrors.agrees_push (h : Mirrors c rows number m) :
    Agrees (fun j => c.stale j ∧ j ≠ c.vm.sp.toNat) c.staleFp (push (c.vm.reg d.ra) c.vm)
      (m.execute c.vm.ip d .opPush) := by
  refine Agrees.guarded (fun hroom => ?_) fun hroom => ?_
  · rw [h.control.sp] at hroom
    rw [push_eq, if_pos hroom]
    exact Agrees.next ⟨rows, number, h.pushed (h.reg d.ra) hroom⟩
  · rw [h.control.sp] at hroom
    exact ⟨_, by rw [push_eq, if_neg hroom]⟩

/-- Below an empty stack `sp` wraps, and misses the stack. -/
theorem Mirrors.agrees_pop (h : Mirrors c rows number m) :
    Agrees c.stale c.staleFp (executeOp .opPop d c.vm) (m.execute c.vm.ip d .opPop) := by
  have hS : STACK_SIZE = 4096 := rfl
  have hpop := pop_eq c.vm
  show Agrees _ _ ((pop >>= fun w => SproutLang.setReg d.ra w) c.vm) _
  refine Agrees.guarded (fun hroom => ?_) fun hroom => ?_
  · rw [h.control.sp] at hroom
    have hsub : (c.vm.sp - 1).toNat = c.vm.sp.toNat - 1 := by bv_omega
    rw [hsub, if_pos (by omega)] at hpop
    rw [bind_ok hpop]
    exact Agrees.next ⟨rows, number, h.popped d.ra hroom.1⟩
  · rw [h.control.sp] at hroom
    rw [if_neg (by bv_omega)] at hpop
    exact ⟨_, bind_error hpop⟩

/-- A plain move agrees. -/
theorem Mirrors.agrees_mov (h : Mirrors c rows number m) (hflag : d.rc = 0) :
    Agrees c.stale c.staleFp (mov d.ra d.rb d.rc c.vm) (m.execute c.vm.ip d .opMov) := by
  have hrun : mov d.ra d.rb d.rc c.vm = .ok () (c.vm.setReg d.ra (c.vm.reg d.rb)) := by
    unfold mov
    rw [get_bind, hflag]
    rfl
  rw [hrun, show m.execute c.vm.ip d .opMov = .ok _ from if_pos hflag]
  exact Agrees.next ⟨rows, number, h.setReg (h.reg d.rb)⟩

/-- `ins` agrees, and its slot is fresh. -/
theorem Mirrors.agrees_insert (h : Mirrors c rows number m) :
    Agrees (fun j => c.stale j ∧ j ≠ stackPoint d.ra d.rb) c.staleFp
      (insertIntoStack d.ra d.rb (c.vm.reg d.rc) c.vm) (m.execute c.vm.ip d .opInsertIntoStack) := by
  refine Agrees.guarded (fun hslot => ?_) fun hslot => ⟨_, if_neg hslot⟩
  have hstore : storeSlot (stackPoint d.ra d.rb) (c.vm.reg d.rc) c.vm = .ok () _ := if_pos hslot
  show Agrees _ _ (storeSlot _ _ c.vm) _
  rw [hstore]
  exact Agrees.next ⟨rows, number, h.setSlot (h.reg d.rc)⟩

/-- `read` of a slot that is not stale. -/
theorem Mirrors.agrees_read (h : Mirrors c rows number m)
    (hfresh : ¬ c.stale (stackPoint d.ra d.rb)) :
    Agrees c.stale c.staleFp (readFromStack d.ra d.rb d.rc c.vm)
      (m.execute c.vm.ip d .opReadFromStack) := by
  unfold readFromStack
  refine Agrees.guarded (fun hslot => ?_) fun hslot => ?_
  · have hload : loadSlot (stackPoint d.ra d.rb) c.vm = .ok _ c.vm := if_pos hslot
    rw [bind_ok hload]
    exact Agrees.next ⟨rows, number, h.setReg (h.slot hfresh)⟩
  · have hload : loadSlot (stackPoint d.ra d.rb) c.vm = .error .undefinedBehaviour c.vm :=
      if_neg hslot
    exact ⟨_, bind_error hload⟩

/-- A `call` that returned has its effect; the table and the stack decide
whether it does. -/
theorem call_ok_iff (vm : VM) (d : DecodedInstr) :
    (callIndex d.ra d.rb d.rc < FUNCTION_TABLE_SIZE ∧ vm.sp.toNat + 2 ≤ STACK_SIZE →
      call d.ra d.rb d.rc vm = .ok () (vm.called (vm.functionTable (callIndex d.ra d.rb d.rc)))) ∧
    (¬ (callIndex d.ra d.rb d.rc < FUNCTION_TABLE_SIZE ∧ vm.sp.toNat + 2 ≤ STACK_SIZE) →
      ∃ vm', call d.ra d.rb d.rc vm = .error .undefinedBehaviour vm') := by
  have hS : STACK_SIZE = 4096 := rfl
  unfold call
  by_cases hindex : callIndex d.ra d.rb d.rc < FUNCTION_TABLE_SIZE
  · have hf : functionAt (callIndex d.ra d.rb d.rc) vm = .ok _ vm := if_pos hindex
    rw [bind_ok hf, get_bind]
    -- the two pushes, one after the other
    have hpush := push_eq vm vm.fp
    by_cases hlow : vm.sp.toNat < STACK_SIZE
    · rw [if_pos hlow] at hpush
      rw [bind_ok hpush, get_bind]
      have hsp : (vm.pushed vm.fp).sp.toNat = vm.sp.toNat + 1 := by
        show (vm.sp + 1).toNat = _
        bv_omega
      have hpush' := push_eq (vm.pushed vm.fp) (vm.pushed vm.fp).ip
      rw [hsp] at hpush'
      by_cases hhigh : vm.sp.toNat + 1 < STACK_SIZE
      · rw [if_pos hhigh] at hpush'
        rw [bind_ok hpush']
        have hsp2 : vm.sp + 1 + 1 = vm.sp + 2 := by bv_omega
        refine ⟨fun _ => ?_, fun hnot => absurd ⟨hindex, by omega⟩ hnot⟩
        rw [VM.called, ← hsp2]
        rfl
      · rw [if_neg hhigh] at hpush'
        rw [bind_error hpush']
        exact ⟨fun hroom => absurd hroom.2 (by omega), fun _ => ⟨_, rfl⟩⟩
    · rw [if_neg hlow] at hpush
      rw [bind_error hpush]
      exact ⟨fun hroom => absurd hroom.2 (by omega), fun _ => ⟨_, rfl⟩⟩
  · have hf : functionAt (callIndex d.ra d.rb d.rc) vm = .error .undefinedBehaviour vm :=
      if_neg hindex
    rw [bind_error hf]
    exact ⟨fun hroom => absurd hroom.1 hindex, fun _ => ⟨_, rfl⟩⟩

/-- A `ret` needs two words below its frame pointer. -/
theorem ret_ok_iff (vm : VM) :
    (2 ≤ vm.fp.toNat ∧ vm.fp.toNat ≤ STACK_SIZE → ret vm = .ok () vm.returned) ∧
    (¬ (2 ≤ vm.fp.toNat ∧ vm.fp.toNat ≤ STACK_SIZE) →
      ∃ vm', ret vm = .error .undefinedBehaviour vm') := by
  have hS : STACK_SIZE = 4096 := rfl
  unfold ret
  rw [bind_ok (modify_apply _)]
  have hpop := pop_eq { vm with sp := vm.fp }
  by_cases hhigh : (vm.fp - 1).toNat < STACK_SIZE
  · have hfirst : pop { vm with sp := vm.fp }
        = .ok (vm.stack (vm.fp - 1).toNat) { vm with sp := vm.fp - 1 } := hpop.trans (if_pos hhigh)
    rw [bind_ok hfirst, bind_ok (modify_apply _)]
    have hpop' := pop_eq { vm with sp := vm.fp - 1, ip := vm.stack (vm.fp - 1).toNat }
    by_cases hlow : (vm.fp - 1 - 1).toNat < STACK_SIZE
    · have hsecond := hpop'.trans (if_pos hlow)
      rw [bind_ok hsecond]
      have hone : (vm.fp - 1).toNat = vm.fp.toNat - 1 := by bv_omega
      have htwo : (vm.fp - 1 - 1).toNat = vm.fp.toNat - 2 := by bv_omega
      have hfp : vm.fp - 1 - 1 = vm.fp - 2 := by bv_omega
      refine ⟨fun _ => ?_, fun hnot => absurd (by bv_omega) hnot⟩
      show EStateM.Result.ok () _ = EStateM.Result.ok () vm.returned
      rw [VM.returned, ← hfp, ← hone, ← htwo]
    · have hsecond := hpop'.trans (if_neg hlow)
      rw [bind_error hsecond]
      exact ⟨fun hroom => absurd hroom (by bv_omega), fun _ => ⟨_, rfl⟩⟩
  · have hfirst := hpop.trans (if_neg hhigh)
    rw [bind_error hfirst]
    exact ⟨fun hroom => absurd hroom (by bv_omega), fun _ => ⟨_, rfl⟩⟩

/-- A call agrees where its frame holds no stale slot. -/
theorem Mirrors.agrees_call (h : Mirrors c rows number m) (hip : c.vm.ip.toNat < 2 ^ 48)
    (hfp : ¬ c.staleFp)
    (hfree : ∀ j, c.vm.sp.toNat + 2 ≤ j → j < c.vm.sp.toNat + 2
      + (c.vm.functionTable (callIndex d.ra d.rb d.rc)).frameSize.toNat → ¬ c.stale j)
    (hlimit : ∀ vm', call d.ra d.rb d.rc c.vm = .ok () vm' → vm'.sp.toNat ≤ STACK_SIZE) :
    Agrees (fun j => c.stale j ∧ j ≠ c.vm.sp.toNat ∧ j ≠ c.vm.sp.toNat + 1) False
      (call d.ra d.rb d.rc c.vm) (m.execute c.vm.ip d .opCall) := by
  obtain ⟨hreturns, hfaults⟩ := call_ok_iff c.vm d
  refine Agrees.guarded (fun hroom => ?_) fun hroom => ?_
  · rw [h.control.sp] at hroom
    have hrun := hreturns hroom
    rw [hrun, h.control.functionTable]
    exact Agrees.next ⟨rows, number, h.called hip hroom.2 hfp hfree (hlimit _ hrun)⟩
  · rw [h.control.sp] at hroom
    exact hfaults hroom

/-- A return agrees where it uncovers none. -/
theorem Mirrors.agrees_ret (h : Mirrors c rows number m)
    (hfree : ∀ j, c.vm.sp.toNat ≤ j → j < c.vm.fp.toNat - 2 → ¬ c.stale j) :
    Agrees c.stale (c.stale (c.vm.fp.toNat - 2)) (ret c.vm) (m.execute c.vm.ip d .opRet) := by
  obtain ⟨hreturns, hfaults⟩ := ret_ok_iff c.vm
  cases hptr : isPointer c.vm.fp with
  | false =>
      have hfp := h.cells.fp.eq_word hptr
      have hstep : m.execute c.vm.ip d .opRet
          = ObjectVM.guarded (2 ≤ c.vm.fp.toNat ∧ c.vm.fp.toNat ≤ STACK_SIZE)
            (m.returned c.vm.fp) := by
        unfold ObjectVM.execute
        simp only [hfp]
      rw [hstep]
      refine Agrees.guarded (fun hroom => ?_) hfaults
      rw [hreturns hroom]
      exact Agrees.next ⟨rows, number, h.returned hroom.1 hroom.2 hfree⟩
  | true =>
      obtain ⟨k, hfp⟩ := h.cells.fp.eq_array hptr
      have hstep : m.execute c.vm.ip d .opRet = .error .undefinedBehaviour := by
        unfold ObjectVM.execute
        simp only [hfp]
      -- taken as a number, a pointer is no index of the stack
      have hfar : ¬ (2 ≤ c.vm.fp.toNat ∧ c.vm.fp.toNat ≤ STACK_SIZE) := by
        have hS : STACK_SIZE = 4096 := rfl
        have hnum := (isPointer_iff _).1 hptr
        omega
      obtain ⟨vm', hrun⟩ := hfaults hfar
      rw [hrun, hstep]
      exact Agrees.fault

/-- The array and the position an access in range is about. -/
theorem Mirrors.element (h : Mirrors c rows number m) (hrange : InRange c.vm d)
    (hplain : isPointer (c.vm.reg d.rc) = false)
    (hsafe : decodeInt (c.vm.reg d.rc) + 2 < blockLength c.vm d.rb) :
    ∃ p ∈ heapObjects rows, ∃ (i : Nat) (words : List Word),
      decodeInt (c.vm.reg d.rc) = (i : Int) ∧ decodePointer (c.vm.reg d.rb) = p.1 + 16 ∧
      m.arrays[number p.1]? = some words ∧ Holds c.vm.store p words ∧ i + 2 < words.length ∧
      m.element d = some (number p.1, i) := by
  obtain ⟨hptr, hnonneg, _⟩ := hrange
  obtain ⟨i, hidx⟩ := Int.eq_ofNat_of_zero_le hnonneg
  obtain ⟨p, hp, hdecode⟩ := h.rooted.regs d.rb hptr
  obtain ⟨words, hwords, hholds⟩ := h.array hp
  have hg := h.rooted.represents.geometry
  have hbound := hg.object_bounded hp
  have hsize := (MarkedBy.refl h.rooted.represents.headers).objSize_eq hg hp
  unfold blockLength at hsafe
  rw [hdecode, headerOf_add (by omega), hsize, hidx, hholds.size] at hsafe
  refine ⟨p, hp, i, words, hidx, hdecode, hwords, hholds, by omega, ?_⟩
  have hrb := h.cells.regsNumbered d.rb hptr p hp hdecode
  have hrc := (h.cells.regs d.rc).eq_word hplain
  unfold ObjectVM.element
  rw [hrb, hrc]
  simp only [Cell.number, hidx]

/-- The fields and the elements of a block are mapped. -/
theorem Mirrors.mapped (h : Mirrors c rows number m) {p : Nat × Obj} (hp : p ∈ heapObjects rows)
    {k : Nat} (hal : k % 8 = 0) (hk : k + 8 ≤ p.2.size) : c.vm.store.Mapped (p.1 + k) := by
  have hg := h.rooted.represents.geometry
  have hpal := hg.object_aligned hp
  exact hg.mapped hp (by omega) (by omega) (by omega)

/-- **`arrins`** of a plain word stores it in the array. -/
theorem Mirrors.runs_arrins (h : Mirrors c rows number m) (hrange : InRange c.vm d)
    (hindex : isPointer (c.vm.reg d.rc) = false) (hvalue : isPointer (c.vm.reg d.ra) = false)
    (hsafe : decodeInt (c.vm.reg d.rc) + 2 < blockLength c.vm d.rb) :
    ∃ vm' m', arrAccess d.ra d.rb d.rc 0 c.vm = .ok () vm' ∧
      m.execute c.vm.ip d .opArrInsert = .ok m' ∧
      Mirrors ⟨vm', c.stale, c.staleFp⟩ rows number m' := by
  obtain ⟨p, hp, i, words, hidx, hdecode, hwords, hholds, hi, helement⟩ :=
    h.element hrange hindex hsafe
  have hsize := hholds.size
  have hstep : m.execute c.vm.ip d .opArrInsert
      = .ok (m.insert (number p.1) i (c.vm.reg d.ra)) := by
    unfold ObjectVM.execute
    simp only [helement, (h.cells.regs d.ra).eq_word hvalue]
  have hfields := h.mapped hp (k := 32) (by omega) (by omega)
  have helem := h.mapped hp (k := 40 + 8 * i) (by omega) (by omega)
  have hlen := hholds.length (by omega)
  have hrun := moveArray_store d.ra hidx (by rw [hdecode]; exact hfields)
    (by rw [hdecode, show p.1 + 16 + 16 = p.1 + 32 from rfl, hlen]; omega)
    (by rw [hdecode, show p.1 + 16 + 24 + 8 * i = p.1 + (40 + 8 * i) from by omega]; exact helem)
  rw [hdecode, show p.1 + 16 + 24 + 8 * i = p.1 + (40 + 8 * i) from by omega] at hrun
  exact ⟨_, _, hrun, hstep, h.arrins hp (by omega) hvalue⟩

/-- **`arrread`** finds the word the array has there. -/
theorem Mirrors.runs_arrread (h : Mirrors c rows number m) (hrange : InRange c.vm d)
    (hindex : isPointer (c.vm.reg d.rc) = false)
    (hsafe : decodeInt (c.vm.reg d.rc) + 2 < blockLength c.vm d.rb) :
    ∃ vm' m', arrAccess d.ra d.rb d.rc 1 c.vm = .ok () vm' ∧
      m.execute c.vm.ip d .opArrRead = .ok m' ∧
      Mirrors ⟨vm', c.stale, c.staleFp⟩ rows number m' := by
  obtain ⟨p, hp, i, words, hidx, hdecode, hwords, hholds, hi, helement⟩ :=
    h.element hrange hindex hsafe
  have hsize := hholds.size
  have hlookup : m.lookup (number p.1) i = some (c.vm.store.word (p.1 + (40 + 8 * i))) := by
    unfold ObjectVM.lookup
    simp only [hwords]
    exact hholds.elements i hi
  have hstep : m.execute c.vm.ip d .opArrRead
      = .ok (m.setReg d.ra (.word (c.vm.store.word (p.1 + (40 + 8 * i))))) := by
    unfold ObjectVM.execute
    simp only [helement, hlookup]
  have hfields := h.mapped hp (k := 32) (by omega) (by omega)
  have helem := h.mapped hp (k := 40 + 8 * i) (by omega) (by omega)
  have hlen := hholds.length (by omega)
  have hrun := moveArray_load d.ra hidx (by rw [hdecode]; exact hfields)
    (by rw [hdecode, show p.1 + 16 + 16 = p.1 + 32 from rfl, hlen]; omega)
    (by rw [hdecode, show p.1 + 16 + 24 + 8 * i = p.1 + (40 + 8 * i) from by omega]; exact helem)
  rw [hdecode, show p.1 + 16 + 24 + 8 * i = p.1 + (40 + 8 * i) from by omega] at hrun
  have hplain := (h.rooted.arrays p hp).elements (40 + 8 * i) (by omega) (by omega) (by omega)
  exact ⟨_, _, hrun, hstep, h.setReg (Stands.plain hplain)⟩

/-- **`arr`** makes the next array, or memory has run out. -/
theorem Mirrors.agrees_arr (h : Mirrors c rows number m) (hplain : isPointer (c.vm.reg d.rb) = false)
    (hfits : Fits c.vm d.rb) (hquiet : c.vm.collects → ScanQuiet c.vm) :
    Agrees (fun i => staleAfter c d i .opArrInit) (staleFpAfter c .opArrInit)
      (arrInit d.ra d.rb d.rc c.vm) (m.execute c.vm.ip d .opArrInit) := by
  have ⟨n, hlen, _⟩ := hfits
  have hstep : m.execute c.vm.ip d .opArrInit = .ok (m.allocated d.ra n) := by
    unfold ObjectVM.execute
    simp only [(h.cells.regs d.rb).eq_word hplain, Cell.number, hlen]
  rw [hstep]
  unfold arrInit
  rcases h.arr hlen hfits hquiet with ⟨vm1, hfail⟩ | ⟨vm', hrun, hmirrored⟩
  · rw [hfail]
    exact Agrees.exhausted
  · rw [hrun]
    exact Agrees.next hmirrored

/-- What `end` does, whatever is in the heaps. -/
theorem end_runs (vm : VM) (d : DecodedInstr) :
    ∃ vm', executeOp .opEnd d vm = .ok () vm' ∧
      vm'.control = { vm.control with running := false, out := vm.out ++ printed (vm.reg d.ra) } := by
  -- `free` takes any chunk
  have hfree : ∀ (half : Half) (vm : VM), ∃ vm', onHeap half freeHeap vm = .ok () vm' := by
    intro half vm
    have hchunks : ∀ (cs : List Chunk) (s : Store), ∃ s', freeChunks cs s = .ok () s' := by
      intro cs
      induction cs with
      | nil => exact fun s => ⟨s, rfl⟩
      | cons chunk cs ih =>
          intro s
          obtain ⟨s', hs'⟩ := ih { s with live := s.live.filter (fun r => r.base ≠ chunk.mem) }
          exact ⟨s', hs'⟩
    obtain ⟨s', hs'⟩ := hchunks (vm.heap half).chunks vm.store
    have hheap : freeHeap ⟨vm.store, vm.heap half⟩
        = .ok () ⟨s', { vm.heap half with chunks := [], totalAllocated := 0 }⟩ := by
      unfold freeHeap
      rw [get_bind, bind_ok (inStore_ok hs')]
      rfl
    exact ⟨_, onHeap_ok hheap⟩
  obtain ⟨vm1, hA⟩ := hfree .A
    { vm with out := vm.out ++ printed (vm.reg d.ra), running := false }
  obtain ⟨vm2, hB⟩ := hfree .B vm1
  have hend : endWith (vm.reg d.ra) vm
      = .ok () { vm with out := vm.out ++ printed (vm.reg d.ra) } := rfl
  refine ⟨vm2, ?_, (onHeap_effect hB).1.trans (onHeap_effect hA).1⟩
  show (endWith (vm.reg d.ra) >>= fun _ =>
    (modify fun vm => { vm with running := false }) >>= fun _ =>
      onHeap .A freeHeap >>= fun _ => onHeap .B freeHeap : Exec Unit) vm = _
  rw [bind_ok hend, bind_ok (modify_apply _), bind_ok hA, hB]

/-- `end` prints the same. -/
theorem Mirrors.agrees_end (h : Mirrors c rows number m) {stale : Nat → Prop} {staleFp : Prop} :
    Agrees stale staleFp (executeOp .opEnd d c.vm) (m.execute c.vm.ip d .opEnd) := by
  obtain ⟨vm', hrun, hcontrol⟩ := end_runs c.vm d
  rw [hrun]
  have hc := h.control
  have hstopped : vm'.running = false := congrArg Control.running hcontrol
  refine Agrees.halted hstopped ?_
  refine (?_ : SameControl { c.vm with running := false, out := _ } _).of_control hcontrol
  exact
    { code := hc.code
      functionTable := hc.functionTable
      fpu := hc.fpu
      jmpFlag := hc.jmpFlag
      running := rfl
      out := by
        show m.out ++ (m.reg d.ra).printed = c.vm.out ++ printed (c.vm.reg d.ra)
        rw [hc.out, (h.cells.regs d.ra).printed]
      sp := hc.sp
      ip := hc.ip }

end Instruction

/-! ## §3. A round. -/

/-- **What a program keeps to that never looks at an address**: it loads no
pointer, moves between registers only, takes no pointer for a length or an
index, accesses arrays in range and stores no pointer in them. -/
def AddressFree (vm : VM) (d : DecodedInstr) : Opcode → Prop
  | .opLoad64 => (value (fetch64 vm.fetched)).all (fun w => !isPointer w) = true
  | .opMov => d.rc = 0
  | .opArrInit => isPointer (vm.reg d.rb) = false
  | .opArrInsert =>
      InRange vm d ∧ isPointer (vm.reg d.rc) = false ∧ isPointer (vm.reg d.ra) = false
  | .opArrRead => InRange vm d ∧ isPointer (vm.reg d.rc) = false
  | _ => True

instance (vm : VM) (d : DecodedInstr) (opcode : Opcode) : Decidable (AddressFree vm d opcode) :=
  match opcode with
  | .opLoad64 => inferInstanceAs (Decidable (_ = true))
  | .opMov => inferInstanceAs (Decidable (d.rc = 0))
  | .opArrInit => inferInstanceAs (Decidable (_ = false))
  | .opArrInsert => inferInstanceAs (Decidable (InRange vm d ∧ _ ∧ _))
  | .opArrRead => inferInstanceAs (Decidable (InRange vm d ∧ _))
  | .opAdd | .opSub | .opMul | .opDiv | .opEnd | .opCmp | .opDebugReturn | .opJe | .opJne
  | .opJl | .opJg | .opCall | .opRet | .opPush | .opPop | .opInsertIntoStack
  | .opReadFromStack => isTrue trivial

/-- It looks at no address, and is safe. -/
def Tame (c : RootTrace) (i : Opcode × DecodedInstr) : Prop := AddressFree c.vm i.2 i.1 ∧ Safe c i

section Round

variable {c : RootTrace} {rows : List HeapRow} {number : Nat → Nat} {m : ObjectVM}
  {d : DecodedInstr} {opcode : Opcode}

/-- Fetching a word moves `ip` on both sides. -/
theorem Mirrors.fetched (h : Mirrors c rows number m) (hip : c.vm.fetched.ip.toNat < 2 ^ 48) :
    Mirrors ⟨c.vm.fetched, c.stale, c.staleFp⟩ rows number (m.fetched c.vm.fetched.ip) := by
  have hplain : isPointer c.vm.fetched.ip = false := isPointer_eq_false_of_lt (by omega)
  exact h.setIp hplain

/-- **Every instruction of a tame program agrees** with that of the object
machine. -/
theorem Mirrors.agrees_executeOp (h : Mirrors c rows number m) (hip : c.vm.fetched.ip.toNat < 2 ^ 48)
    (htame : Tame c (opcode, d))
    (hlimit : ∀ vm', executeOp opcode d c.vm.fetched = .ok () vm' → vm'.sp.toNat ≤ STACK_SIZE) :
    Agrees (fun i => staleAfter c d i opcode) (staleFpAfter c opcode)
      (executeOp opcode d c.vm.fetched)
      ((m.fetched c.vm.fetched.ip).execute c.vm.fetched.ip d opcode) := by
  have hf := h.fetched hip
  obtain ⟨hfree, hsafe⟩ := htame
  unfold executeOp at hlimit ⊢
  rw [get_bind] at hlimit ⊢
  cases opcode with
  | opAdd => exact hf.agrees_arithmetic .add fun _ _ => rfl
  | opSub => exact hf.agrees_arithmetic .sub fun _ _ => rfl
  | opMul => exact hf.agrees_arithmetic .mul fun _ _ => rfl
  | opDiv =>
      show Agrees c.stale c.staleFp
        (div d.ra (c.vm.fetched.reg d.rb) (c.vm.fetched.reg d.rc) c.vm.fetched)
        ((m.fetched c.vm.fetched.ip).arithmetic .div d)
      refine hf.agrees_arithmetic .div fun a b => ?_
      -- the source divides where the object machine does
      by_cases hb : b = 0
      · rw [if_pos hb, if_pos ⟨rfl, hb⟩]
        rfl
      · rw [if_neg hb, if_neg fun hdiv => hb hdiv.2]
        rfl
  | opLoad64 => exact hf.agrees_load hip hfree
  | opCmp => exact hf.agrees_compare
  | opJe => exact hf.agrees_branch hip (fun flag => flag = 1)
  | opJne => exact hf.agrees_branch hip (fun flag => flag ≠ 1)
  | opJl => exact hf.agrees_branch hip (fun flag => flag = -1)
  | opJg => exact hf.agrees_branch hip (fun flag => flag = 2)
  | opCall => exact hf.agrees_call hip hsafe.1 hsafe.2 hlimit
  | opRet => exact hf.agrees_ret hsafe
  | opPush => exact hf.agrees_push
  | opPop => exact hf.agrees_pop
  | opMov => exact hf.agrees_mov hfree
  | opInsertIntoStack => exact hf.agrees_insert
  | opReadFromStack => exact hf.agrees_read hsafe
  | opArrInit => exact hf.agrees_arr hfree hsafe.1 hsafe.2
  | opArrInsert =>
      obtain ⟨vm', m', hrun, hstep, h'⟩ := hf.runs_arrins hfree.1 hfree.2.1 hfree.2.2 hsafe
      show Agrees c.stale c.staleFp (arrAccess d.ra d.rb d.rc 0 c.vm.fetched) _
      rw [hrun, hstep]
      exact Agrees.next ⟨rows, number, h'⟩
  | opArrRead =>
      obtain ⟨vm', m', hrun, hstep, h'⟩ := hf.runs_arrread hfree.1 hfree.2 hsafe
      show Agrees c.stale c.staleFp (arrAccess d.ra d.rb d.rc 1 c.vm.fetched) _
      rw [hrun, hstep]
      exact Agrees.next ⟨rows, number, h'⟩
  | opEnd => exact hf.agrees_end
  | opDebugReturn => exact Agrees.next ⟨rows, number, hf.print (hf.cells.regs d.ra)⟩

/-- The instruction word both machines fetch. -/
theorem Mirrors.fetched_word (h : Mirrors c rows number m) {i : BitVec 32}
    (hword : readU32 c.vm.bytecode.bytes c.vm.ip.toNat = some i) :
    m.ip = .word c.vm.ip ∧ m.wordAt c.vm.ip = .ok i ∧ c.vm.fetched.ip.toNat < 2 ^ 48 := by
  have hbound := readU32_bound hword
  have himage := c.vm.bytecode.addressable
  have hnext : c.vm.fetched.ip.toNat = c.vm.ip.toNat + 4 := by
    show (c.vm.ip + 4).toNat = _
    bv_omega
  have hplain : isPointer c.vm.ip = false := isPointer_eq_false_of_lt (by omega)
  exact ⟨h.control.ip.eq_word hplain, h.wordAt_some hword, by omega⟩

/-- A round is the instruction that its word names. -/
theorem iterate_of_word {vm : VM} {i : BitVec 32}
    (hword : readU32 vm.bytecode.bytes vm.ip.toNat = some i)
    (hop : Opcode.ofByte (decode i).opcode = some opcode) :
    iterate vm = executeOp opcode (decode i) vm.fetched := by
  have hfetch : fetch vm = .ok i vm.fetched := fetch_ok hword
  unfold iterate
  rw [bind_ok hfetch]
  unfold execute
  rw [hop]

/-- **A round of the VM and a step of the object machine agree**, for a tame
instruction that leaves `sp` in the stack. -/
theorem Mirrors.agrees_iterate (h : Mirrors c rows number m) {i : BitVec 32}
    (hword : readU32 c.vm.bytecode.bytes c.vm.ip.toNat = some i)
    (hop : Opcode.ofByte (decode i).opcode = some opcode) (htame : Tame c (opcode, decode i))
    (hlimit : ∀ vm', iterate c.vm = .ok () vm' → vm'.sp.toNat ≤ STACK_SIZE) :
    Agrees (fun slot => staleAfter c (decode i) slot opcode) (staleFpAfter c opcode)
      (iterate c.vm) m.step := by
  obtain ⟨hmip, hmword, hip⟩ := h.fetched_word hword
  have hrun := iterate_of_word hword hop
  have hstep : m.step = (m.fetched (c.vm.ip + 4)).execute (c.vm.ip + 4) (decode i) opcode := by
    unfold ObjectVM.step
    simp only [hmip, hmword, bind, Except.bind, hop]
  rw [hrun, hstep]
  rw [hrun] at hlimit
  exact h.agrees_executeOp hip htame hlimit

/-- Without an instruction to execute both fault alike. -/
theorem Mirrors.faults_iterate (h : Mirrors c rows number m)
    (hnone : ∀ i, readU32 c.vm.bytecode.bytes c.vm.ip.toNat = some i →
      Opcode.ofByte (decode i).opcode = none) :
    ∃ e vm', iterate c.vm = .error e vm' ∧ m.step = .error e := by
  cases hword : readU32 c.vm.bytecode.bytes c.vm.ip.toNat with
  | none =>
      have hfetch : fetch c.vm = .error .undefinedBehaviour c.vm := by rw [fetch_eq, hword]
      refine ⟨_, c.vm, bind_error hfetch, ?_⟩
      unfold ObjectVM.step
      -- no array is where the image could be
      cases hptr : isPointer c.vm.ip with
      | false =>
          simp only [h.control.ip.eq_word hptr, h.wordAt_none hword]
          rfl
      | true =>
          obtain ⟨k, hk⟩ := h.control.ip.eq_array hptr
          simp only [hk]
  | some i =>
      obtain ⟨hmip, hmword, _⟩ := h.fetched_word hword
      have hop := hnone i hword
      have hfetch : fetch c.vm = .ok i c.vm.fetched := fetch_ok hword
      have hstep : m.step = .error (.runtimeError
          s!"Invalid opcode: 0x{hex02 (decode i).opcode.toNat}") := by
        unfold ObjectVM.step
        simp only [hmip, hmword, bind, Except.bind, hop]
      refine ⟨_, c.vm.fetched, ?_, hstep⟩
      unfold iterate
      rw [bind_ok hfetch]
      unfold execute
      rw [hop]
      rfl

end Round

end SproutLang
