/-
  SproutLang.VM.Effects
  ─────────────────────
  **WHAT ONE INSTRUCTION DOES.**

  First an equation for each instruction that faults only when it reads or
  writes outside an array of the struct; then `Effect`, which lists what an
  instruction that returned has done.  An invariant of runs is proved by cases
  on `Effect` and never unfolds the dispatcher again:

    • `executeOp_effect` — an instruction that returned had its effect,
    • `iterate_effect`   — and so had a round of the loop.
-/
import SproutLang.VM.Execution
import SproutLang.VM.Heap.Arrays

namespace SproutLang

open Library

/-! ## §1. Equations. -/

section Equations

variable (vm : VM) (a b c r : Byte) (w v : Word)

/-- The machine with one more word on the stack. -/
def VM.pushed (vm : VM) (w : Word) : VM := { vm.setSlot vm.sp.toNat w with sp := vm.sp + 1 }

/-- A push, as far as the stack reaches. -/
theorem push_eq : push w vm =
    if vm.sp.toNat < STACK_SIZE then .ok () (vm.pushed w)
    else .error .undefinedBehaviour vm := by
  unfold push
  rw [get_bind]
  by_cases h : vm.sp.toNat < STACK_SIZE
  · have hstore : storeSlot vm.sp.toNat w vm = .ok () (vm.setSlot vm.sp.toNat w) := if_pos h
    rw [bind_ok hstore, if_pos h]
    rfl
  · have hstore : storeSlot vm.sp.toNat w vm = .error .undefinedBehaviour vm := if_neg h
    rw [bind_error hstore, if_neg h]

/-- A pop likewise. -/
theorem pop_eq : pop vm =
    if (vm.sp - 1).toNat < STACK_SIZE then
      .ok (vm.stack (vm.sp - 1).toNat) { vm with sp := vm.sp - 1 }
    else .error .undefinedBehaviour { vm with sp := vm.sp - 1 } := by
  unfold pop
  rw [bind_ok (modify_apply _), get_bind]
  rfl

/-- Arithmetic by the kinds of the operands. -/
theorem arithmetic_eq (dop : Arith) (iop : Int → Int → Exec Word) :
    arithmetic dop iop r w v vm =
    if isDouble w && isDouble v then .ok () (vm.setReg r (vm.fpu.arith dop w v))
    else if isInt w && isInt v then
      (iop (decodeInt w) (decodeInt v) >>= fun res => setReg r (encodeInt res)) vm
    else .error (.runtimeError "Invalid Operand types!") vm := by
  unfold arithmetic
  split
  · rfl
  · split <;> rfl

/-- The flag `compare` sets; `none` where it throws. -/
def compareFlag (fpu : Fpu) (w v : Word) : Option Int :=
  if isDouble w && isDouble v then
    if fpu.eq w v then some 1
    else if fpu.lt w v then some (-1)
    else if fpu.lt v w then some 2
    else some 0
  else if isInt w && isInt v then
    if decodeInt w = decodeInt v then some 1
    else if decodeInt w < decodeInt v then some (-1)
    else if decodeInt w > decodeInt v then some 2
    else some 0
  else if isBool w && isBool v then
    if decodeBool w = decodeBool v then some 1 else some 0
  else none

/-- A comparison by the flag of the operands. -/
theorem compare_eq : compare w v vm =
    match compareFlag vm.fpu w v with
    | some flag => .ok () { vm with jmpFlag := flag }
    | none => .error (.runtimeError "Invalid Operand types") vm := by
  unfold compare compareFlag
  split
  · rw [get_bind]
    repeat (first | rfl | split)
  · split
    · show (if decodeInt w = decodeInt v then setJmpFlag 1
        else if decodeInt w < decodeInt v then setJmpFlag (-1)
        else if decodeInt w > decodeInt v then setJmpFlag 2 else setJmpFlag 0) vm = _
      repeat (first | rfl | split)
    · split
      · split <;> rfl
      · rfl

/-- A fetch, as far as the image reaches. -/
theorem fetch_eq : fetch vm =
    match readU32 vm.bytecode.bytes vm.ip.toNat with
    | some i => .ok i { vm with ip := vm.ip + 4 }
    | none => .error .undefinedBehaviour vm := rfl

theorem fetch_ok {vm : VM} {i : BitVec 32} (h : readU32 vm.bytecode.bytes vm.ip.toNat = some i) :
    fetch vm = .ok i { vm with ip := vm.ip + 4 } := by
  rw [fetch_eq, h]

/-- A branch by the flag and the word behind it. -/
theorem branch_eq (taken : Int → Bool) : branch taken vm =
    if taken vm.jmpFlag then
      match readU32 vm.bytecode.bytes vm.ip.toNat with
      | some target => .ok () { vm with ip := target.setWidth 64 }
      | none => .error .undefinedBehaviour vm
    else .ok () { vm with ip := vm.ip + 4 } := by
  unfold branch
  rw [get_bind]
  split
  · cases h : readU32 vm.bytecode.bytes vm.ip.toNat with
    | some target =>
        have hfetch := fetch_ok h
        rw [bind_ok hfetch]
        rfl
    | none =>
        have hfetch : fetch vm = .error .undefinedBehaviour vm := by rw [fetch_eq, h]
        rw [bind_error hfetch]
  · rfl

end Equations

/-! ## §2. Effects. -/

/-- The opcodes whose result is computed from two registers. -/
def Opcode.IsArithmetic (opcode : Opcode) : Prop :=
  opcode = .opAdd ∨ opcode = .opSub ∨ opcode = .opMul ∨ opcode = .opDiv

/-- Where a word went that was pushed. -/
theorem VM.pushed_stack (vm : VM) (w : Word) (j : Nat) :
    (vm.pushed w).stack j = if j = vm.sp.toNat then w else vm.stack j := by
  show Function.update vm.stack vm.sp.toNat w j = _
  rw [Function.update_apply]

/-- The machine inside the function `f`. -/
def VM.called (vm : VM) (f : FunctionInfo) : VM :=
  { (vm.pushed vm.fp).pushed vm.ip with
    fp := vm.sp + 2
    sp := vm.sp + 2 + f.frameSize.setWidth 64
    ip := f.entryIP.setWidth 64 }

/-- A call loads nothing. -/
theorem VM.called_loaded (vm : VM) (f : FunctionInfo) :
    (vm.called f).bytecode = vm.bytecode ∧ (vm.called f).functionTable = vm.functionTable :=
  ⟨rfl, rfl⟩

/-- The machine back from a function. -/
def VM.returned (vm : VM) : VM :=
  { vm with
    ip := vm.stack (vm.fp.toNat - 1)
    fp := vm.stack (vm.fp.toNat - 2)
    sp := vm.fp - 2 }

/-- **What an instruction that returned has done** to the state `vm` it was
executed in. -/
inductive Effect (vm : VM) : Opcode → DecodedInstr → VM → Prop where
  | arithmetic {opcode : Opcode} {d : DecodedInstr} {w : Word} (arith : opcode.IsArithmetic)
      (plain : isPointer w = false) : Effect vm opcode d (vm.setReg d.ra w)
  | load {d : DecodedInstr} {w : Word}
      (imm : fetch64 vm = .ok w { vm with ip := vm.ip + 4 + 4 }) :
      Effect vm .opLoad64 d ({ vm with ip := vm.ip + 4 + 4 }.setReg d.ra w)
  | compare {d : DecodedInstr} {flag : Int} : Effect vm .opCmp d { vm with jmpFlag := flag }
  | taken {opcode : Opcode} {d : DecodedInstr} {target : BitVec 32} (jump : opcode.isBranch = true)
      (word : readU32 vm.bytecode.bytes vm.ip.toNat = some target) :
      Effect vm opcode d { vm with ip := target.setWidth 64 }
  | passed {opcode : Opcode} {d : DecodedInstr} (jump : opcode.isBranch = true) :
      Effect vm opcode d { vm with ip := vm.ip + 4 }
  | call {d : DecodedInstr} (index : callIndex d.ra d.rb d.rc < FUNCTION_TABLE_SIZE)
      (room : vm.sp.toNat + 2 ≤ STACK_SIZE) :
      Effect vm .opCall d (vm.called (vm.functionTable (callIndex d.ra d.rb d.rc)))
  | ret {d : DecodedInstr} (low : 2 ≤ vm.fp.toNat) (high : vm.fp.toNat ≤ STACK_SIZE) :
      Effect vm .opRet d vm.returned
  | push {d : DecodedInstr} (room : vm.sp.toNat < STACK_SIZE) :
      Effect vm .opPush d (vm.pushed (vm.reg d.ra))
  | pop {d : DecodedInstr} (low : 1 ≤ vm.sp.toNat) (high : vm.sp.toNat ≤ STACK_SIZE) :
      Effect vm .opPop d
        ({ vm with sp := vm.sp - 1 }.setReg d.ra (vm.stack (vm.sp.toNat - 1)))
  | mov {d : DecodedInstr} (flag : d.rc ≠ 1 ∧ d.rc ≠ 2 ∧ d.rc ≠ 3) :
      Effect vm .opMov d (vm.setReg d.ra (vm.reg d.rb))
  | deref {d : DecodedInstr} {vm' : VM} (flag : d.rc = 1 ∨ d.rc = 2 ∨ d.rc = 3)
      (run : mov d.ra d.rb d.rc vm = .ok () vm') : Effect vm .opMov d vm'
  | insert {d : DecodedInstr} (slot : stackPoint d.ra d.rb < STACK_SIZE) :
      Effect vm .opInsertIntoStack d (vm.setSlot (stackPoint d.ra d.rb) (vm.reg d.rc))
  | read {d : DecodedInstr} (slot : stackPoint d.ra d.rb < STACK_SIZE) :
      Effect vm .opReadFromStack d (vm.setReg d.rc (vm.stack (stackPoint d.ra d.rb)))
  | arr {d : DecodedInstr} {vm' : VM} (run : initArray d.ra d.rb d.rc vm = .ok () vm') :
      Effect vm .opArrInit d vm'
  | arrins {d : DecodedInstr}
      (mapped : vm.store.Mapped
        (elementAddr (decodePointer (vm.reg d.rb)) (decodeInt (vm.reg d.rc)))) :
      Effect vm .opArrInsert d
        (vm.setStore (vm.store.put
          (elementAddr (decodePointer (vm.reg d.rb)) (decodeInt (vm.reg d.rc))) (vm.reg d.ra)))
  | arrread {d : DecodedInstr}
      (mapped : vm.store.Mapped
        (elementAddr (decodePointer (vm.reg d.rb)) (decodeInt (vm.reg d.rc)))) :
      Effect vm .opArrRead d
        (vm.setReg d.ra (vm.store.word
          (elementAddr (decodePointer (vm.reg d.rb)) (decodeInt (vm.reg d.rc)))))
  | end_ {d : DecodedInstr} {vm' : VM}
      (control : vm'.control
        = { vm.control with running := false, out := vm.out ++ printed (vm.reg d.ra) })
      (reg : vm'.reg = vm.reg) (stack : vm'.stack = vm.stack) : Effect vm .opEnd d vm'
  | debugReturn {d : DecodedInstr} :
      Effect vm .opDebugReturn d { vm with out := vm.out ++ printed (vm.reg d.ra) }

/-! ## §3. Every instruction that returns has its effect. -/

section Inversion

variable {vm vm' : VM} {d : DecodedInstr}

/-- A word the encoder made of an integer is no pointer. -/
theorem isPointer_encodeInt (w : Word) : isPointer (encodeInt w) = false :=
  isPointer_eq_false_of_isInt (isInt_encodeInt w)

/-- Integer or double, the result of an arithmetic instruction is no pointer. -/
theorem arithmetic_effect {dop : Arith} {iop : Int → Int → Exec Word} {r : Byte} {w v : Word}
    (hiop : ∀ a b vm1 res, iop a b vm = .ok res vm1 → vm1 = vm)
    (h : arithmetic dop iop r w v vm = .ok () vm') :
    ∃ x, isPointer x = false ∧ vm' = vm.setReg r x := by
  rw [arithmetic_eq] at h
  split at h
  · injection h with _ hvm
    exact ⟨_, (vm.fpu.ieee dop w v).isPointer_eq_false, hvm.symm⟩
  · split at h
    · obtain ⟨res, vm1, hres, hset⟩ := bind_eq_ok.1 h
      have hvm1 := hiop _ _ _ _ hres
      subst hvm1
      injection hset with _ hvm
      exact ⟨_, isPointer_encodeInt res, hvm.symm⟩
    · exact absurd h (by simp)

/-- What a branch has done. -/
theorem branch_effect {taken : Int → Bool} {opcode : Opcode} (hop : opcode.isBranch = true)
    (h : branch taken vm = .ok () vm') : Effect vm opcode d vm' := by
  rw [branch_eq] at h
  split at h
  · cases hword : readU32 vm.bytecode.bytes vm.ip.toNat with
    | some target =>
        rw [hword] at h
        injection h with _ hvm
        subst hvm
        exact Effect.taken hop hword
    | none =>
        rw [hword] at h
        exact absurd h (by simp)
  · injection h with _ hvm
    subst hvm
    exact Effect.passed hop

/-- What a push has done. -/
theorem push_effect {w : Word} (h : push w vm = .ok () vm') :
    vm.sp.toNat < STACK_SIZE ∧ vm' = vm.pushed w := by
  rw [push_eq] at h
  split at h
  · rename_i hroom
    injection h with _ hvm
    exact ⟨hroom, hvm.symm⟩
  · exact absurd h (by simp)

/-- What a pop has done. -/
theorem pop_effect {w : Word} (h : pop vm = .ok w vm') :
    1 ≤ vm.sp.toNat ∧ vm.sp.toNat ≤ STACK_SIZE ∧ w = vm.stack (vm.sp.toNat - 1) ∧
      vm' = { vm with sp := vm.sp - 1 } := by
  rw [pop_eq] at h
  split at h
  · rename_i hroom
    have hS : STACK_SIZE = 4096 := rfl
    have hsub : (vm.sp - 1).toNat = vm.sp.toNat - 1 ∧ 1 ≤ vm.sp.toNat := by
      bv_omega
    injection h with hw hvm
    rw [hsub.1] at hw hroom
    exact ⟨hsub.2, by omega, hw.symm, hvm.symm⟩
  · exact absurd h (by simp)

/-- What a call has done. -/
theorem call_effect (h : call d.ra d.rb d.rc vm = .ok () vm') : Effect vm .opCall d vm' := by
  unfold call at h
  obtain ⟨f, vm1, hf, h⟩ := bind_eq_ok.1 h
  unfold functionAt at hf
  split at hf
  · rename_i hindex
    injection hf with hf hvm1
    subst hvm1 hf
    rw [get_bind] at h
    -- `fp`, then `ip`
    obtain ⟨_, vm2, hpush, h⟩ := bind_eq_ok.1 h
    obtain ⟨hlow, rfl⟩ := push_effect hpush
    rw [get_bind] at h
    obtain ⟨_, vm3, hpush, h⟩ := bind_eq_ok.1 h
    obtain ⟨hhigh, rfl⟩ := push_effect hpush
    injection h with _ hvm
    have hS : STACK_SIZE = 4096 := rfl
    have hsp : (vm.pushed vm.fp).sp = vm.sp + 1 := rfl
    have hsp2 : vm.sp + 1 + 1 = vm.sp + 2 := by bv_omega
    rw [hsp] at hhigh
    have hcalled : vm' = vm.called (vm.functionTable (callIndex d.ra d.rb d.rc)) := by
      rw [← hvm, VM.called, ← hsp2]
      rfl
    rw [hcalled]
    exact Effect.call hindex (by bv_omega)
  · exact absurd hf (by simp)

/-- What a return has done. -/
theorem ret_effect (h : ret vm = .ok () vm') : Effect vm .opRet d vm' := by
  unfold ret at h
  rw [bind_ok (modify_apply _)] at h
  obtain ⟨ip, vm1, hpop, h⟩ := bind_eq_ok.1 h
  obtain ⟨hlow, hhigh, rfl, rfl⟩ := pop_effect hpop
  rw [bind_ok (modify_apply _)] at h
  obtain ⟨fp, vm2, hpop, h⟩ := bind_eq_ok.1 h
  obtain ⟨hlow2, _, rfl, rfl⟩ := pop_effect hpop
  injection h with _ hvm
  simp only at hlow hhigh hlow2
  have hfp : vm.fp - 1 - 1 = vm.fp - 2 := by bv_omega
  have hone : (vm.fp - 1).toNat - 1 = vm.fp.toNat - 2 := by bv_omega
  have hreturned : vm' = vm.returned := by
    rw [← hvm, VM.returned, ← hfp, ← hone]
  rw [hreturned]
  exact Effect.ret (by bv_omega) hhigh

/-- A load that succeeds changes nothing. -/
theorem onStore_load_effect {a : Nat} {w : Word} (h : onStore (load a) vm = .ok w vm') :
    vm.store.Mapped a ∧ w = vm.store.word a ∧ vm' = vm := by
  obtain ⟨s, hload, rfl⟩ := zoom_eq_ok.1 h
  obtain ⟨hmapped, rfl, rfl⟩ := load_eq_ok hload
  exact ⟨hmapped, rfl, rfl⟩

/-- A store that succeeds changes one word. -/
theorem onStore_store_effect {a : Nat} {w : Word} (h : onStore (store a w) vm = .ok () vm') :
    vm.store.Mapped a ∧ vm' = vm.setStore (vm.store.put a w) := by
  obtain ⟨s, hstore, rfl⟩ := zoom_eq_ok.1 h
  obtain ⟨hmapped, rfl⟩ := store_eq_ok hstore
  exact ⟨hmapped, rfl⟩

/-- The element of an access that returned is there. -/
theorem moveArray_effect {target address index : Byte} {flag : Nat}
    (h : moveArray target address index flag vm = .ok () vm') :
    let element := elementAddr (decodePointer (vm.reg address)) (decodeInt (vm.reg index))
    (flag = 0 → vm.store.Mapped element ∧
      vm' = vm.setStore (vm.store.put element (vm.reg target))) ∧
    (flag = 1 → vm.store.Mapped element ∧ vm' = vm.setReg target (vm.store.word element)) := by
  intro element
  unfold moveArray at h
  rw [get_bind] at h
  obtain ⟨fields, vm1, hload, h⟩ := bind_eq_ok.1 h
  obtain ⟨_, rfl, rfl⟩ := onStore_load_effect hload
  split at h
  · -- the index is outside
    obtain ⟨_, _, hthrow, _⟩ := bind_eq_ok.1 h
    exact absurd hthrow (by simp)
  · constructor
    · rintro rfl
      obtain ⟨_, vm2, hstore, h⟩ := bind_eq_ok.1 h
      obtain ⟨hmapped, rfl⟩ := onStore_store_effect hstore
      injection h with _ hvm
      exact ⟨hmapped, hvm.symm⟩
    · rintro rfl
      obtain ⟨w, vm2, hload, h⟩ := bind_eq_ok.1 h
      obtain ⟨hmapped, rfl, rfl⟩ := onStore_load_effect hload
      injection h with _ hvm
      exact ⟨hmapped, hvm.symm⟩

/-- A fetch that succeeds passes four bytes. -/
theorem fetch_effect {i : BitVec 32} (h : fetch vm = .ok i vm') :
    readU32 vm.bytecode.bytes vm.ip.toNat = some i ∧ vm' = { vm with ip := vm.ip + 4 } := by
  rw [fetch_eq] at h
  cases hword : readU32 vm.bytecode.bytes vm.ip.toNat with
  | some j =>
      rw [hword] at h
      injection h with hi hvm
      exact ⟨by rw [hi], hvm.symm⟩
  | none =>
      rw [hword] at h
      exact absurd h (by simp)

/-- `fetch64` fetches twice. -/
theorem fetch64_effect {w : Word} (h : fetch64 vm = .ok w vm') :
    vm' = { vm with ip := vm.ip + 4 + 4 } := by
  unfold fetch64 at h
  obtain ⟨hi, vm1, hfetch, h⟩ := bind_eq_ok.1 h
  obtain ⟨_, rfl⟩ := fetch_effect hfetch
  obtain ⟨lo, vm2, hfetch2, h⟩ := bind_eq_ok.1 h
  obtain ⟨_, rfl⟩ := fetch_effect hfetch2
  injection h with _ hvm
  exact hvm.symm

/-- What a move has done. -/
theorem mov_effect (h : mov d.ra d.rb d.rc vm = .ok () vm') : Effect vm .opMov d vm' := by
  by_cases hflag : d.rc = 1 ∨ d.rc = 2 ∨ d.rc = 3
  · exact Effect.deref hflag h
  · rw [not_or, not_or] at hflag
    unfold mov at h
    rw [get_bind, if_neg hflag.1, if_neg hflag.2.1, if_neg hflag.2.2] at h
    injection h with _ hvm
    subst hvm
    exact Effect.mov hflag

/-- What works on memory and a heap leaves the rest of the machine alone. -/
theorem onHeap_effect {α : Type} {half : Half} {x : EStateM Fault Space α} {a : α}
    (h : onHeap half x vm = .ok a vm') :
    vm'.control = vm.control ∧ vm'.reg = vm.reg ∧ vm'.stack = vm.stack ∧
      vm'.active = vm.active := by
  obtain ⟨sp, _, rfl⟩ := zoom_eq_ok.1 h
  simp

theorem pure_effect {α : Type} {x a : α} (h : (pure x : Exec α) vm = .ok a vm') : vm' = vm := by
  injection h with _ hvm
  exact hvm.symm

/-- Division by zero throws. -/
theorem div_effect {r : Byte} {w v : Word} (h : div r w v vm = .ok () vm') :
    ∃ x, isPointer x = false ∧ vm' = vm.setReg r x := by
  refine arithmetic_effect (fun a b vm1 res hres => ?_) h
  split at hres
  · obtain ⟨_, _, hthrow, _⟩ := bind_eq_ok.1 hres
    exact absurd hthrow (by simp)
  · exact pure_effect hres

/-- What `load` has done. -/
theorem loadIntoReg_effect (h : loadIntoReg d.ra vm = .ok () vm') :
    Effect vm .opLoad64 d vm' := by
  obtain ⟨w, vm1, hfetch, h⟩ := bind_eq_ok.1 h
  have hvm1 := fetch64_effect hfetch
  subst hvm1
  injection h with _ hvm
  subst hvm
  exact Effect.load hfetch

/-- What `cmp` has done. -/
theorem compare_effect (h : compare (vm.reg d.ra) (vm.reg d.rb) vm = .ok () vm') :
    Effect vm .opCmp d vm' := by
  rw [compare_eq] at h
  cases hflag : compareFlag vm.fpu (vm.reg d.ra) (vm.reg d.rb) with
  | some flag =>
      rw [hflag] at h
      injection h with _ hvm
      subst hvm
      exact Effect.compare
  | none =>
      -- the two tags differ
      rw [hflag] at h
      exact absurd h (by simp)

/-- What `ins` has done. -/
theorem storeSlot_effect (h : storeSlot (stackPoint d.ra d.rb) (vm.reg d.rc) vm = .ok () vm') :
    Effect vm .opInsertIntoStack d vm' := by
  unfold storeSlot at h
  split at h
  · rename_i hslot
    injection h with _ hvm
    subst hvm
    exact Effect.insert hslot
  · exact absurd h (by simp)

/-- What `read` has done. -/
theorem readFromStack_effect (h : readFromStack d.ra d.rb d.rc vm = .ok () vm') :
    Effect vm .opReadFromStack d vm' := by
  unfold readFromStack at h
  obtain ⟨w, vm1, hload, h⟩ := bind_eq_ok.1 h
  unfold loadSlot at hload
  split at hload
  · rename_i hslot
    injection hload with hw hvm1
    subst hw hvm1
    injection h with _ hvm
    subst hvm
    exact Effect.read hslot
  · exact absurd hload (by simp)

/-- `END` prints and frees both heaps. -/
theorem end_effect (h : (do
      endWith (vm.reg d.ra)
      modify fun vm => { vm with running := false }
      onHeap .A freeHeap
      onHeap .B freeHeap : Exec Unit) vm = .ok () vm') : Effect vm .opEnd d vm' := by
  have hend : endWith (vm.reg d.ra) vm
      = .ok () { vm with out := vm.out ++ printed (vm.reg d.ra) } := rfl
  rw [bind_ok hend, bind_ok (modify_apply _)] at h
  obtain ⟨_, vm1, hA, hB⟩ := bind_eq_ok.1 h
  obtain ⟨hcontrolA, hregA, hstackA, _⟩ := onHeap_effect hA
  obtain ⟨hcontrolB, hregB, hstackB, _⟩ := onHeap_effect hB
  exact Effect.end_ (hcontrolB.trans hcontrolA) (hregB.trans hregA) (hstackB.trans hstackA)

/-- **What a case of the `switch` does** when it returns. -/
theorem executeOp_effect (opcode : Opcode) (h : executeOp opcode d vm = .ok () vm') :
    Effect vm opcode d vm' := by
  unfold executeOp at h
  rw [get_bind] at h
  cases opcode with
  | opAdd =>
      obtain ⟨w, hw, rfl⟩ := arithmetic_effect (fun _ _ _ _ => pure_effect) h
      exact Effect.arithmetic (Or.inl rfl) hw
  | opSub =>
      obtain ⟨w, hw, rfl⟩ := arithmetic_effect (fun _ _ _ _ => pure_effect) h
      exact Effect.arithmetic (Or.inr (Or.inl rfl)) hw
  | opMul =>
      obtain ⟨w, hw, rfl⟩ := arithmetic_effect (fun _ _ _ _ => pure_effect) h
      exact Effect.arithmetic (Or.inr (Or.inr (Or.inl rfl))) hw
  | opDiv =>
      obtain ⟨w, hw, rfl⟩ := div_effect h
      exact Effect.arithmetic (Or.inr (Or.inr (Or.inr rfl))) hw
  | opLoad64 => exact loadIntoReg_effect h
  | opCmp => exact compare_effect h
  | opJe => exact branch_effect rfl h
  | opJne => exact branch_effect rfl h
  | opJl => exact branch_effect rfl h
  | opJg => exact branch_effect rfl h
  | opCall => exact call_effect h
  | opRet => exact ret_effect h
  | opPush =>
      obtain ⟨hroom, rfl⟩ := push_effect h
      exact Effect.push hroom
  | opPop =>
      obtain ⟨w, vm1, hpop, h⟩ := bind_eq_ok.1 h
      obtain ⟨hlow, hhigh, rfl, rfl⟩ := pop_effect hpop
      injection h with _ hvm
      subst hvm
      exact Effect.pop hlow hhigh
  | opMov => exact mov_effect h
  | opInsertIntoStack => exact storeSlot_effect h
  | opReadFromStack => exact readFromStack_effect h
  | opArrInit => exact Effect.arr h
  | opArrInsert =>
      have h : moveArray d.ra d.rb d.rc 0 vm = .ok () vm' := h
      obtain ⟨hmapped, rfl⟩ := (moveArray_effect h).1 rfl
      exact Effect.arrins hmapped
  | opArrRead =>
      have h : moveArray d.ra d.rb d.rc 1 vm = .ok () vm' := h
      obtain ⟨hmapped, rfl⟩ := (moveArray_effect h).2 rfl
      exact Effect.arrread hmapped
  | opEnd => exact end_effect h
  | opDebugReturn =>
      have hvm := pure_effect h
      subst hvm
      exact Effect.debugReturn

/-- **An instruction that is executed has the effect of its opcode.** -/
theorem execute_effect (h : execute d vm = .ok () vm') :
    ∃ opcode, Opcode.ofByte d.opcode = some opcode ∧ Effect vm opcode d vm' := by
  unfold execute at h
  cases hop : Opcode.ofByte d.opcode with
  | some opcode =>
      simp only [hop] at h
      exact ⟨opcode, rfl, executeOp_effect opcode h⟩
  | none =>
      simp only [hop] at h
      exact absurd h (by simp)

/-- **A round of the loop that returned** fetched an instruction and had its
effect. -/
theorem iterate_effect (h : iterate vm = .ok () vm') :
    ∃ i opcode, readU32 vm.bytecode.bytes vm.ip.toNat = some i ∧
      Opcode.ofByte (decode i).opcode = some opcode ∧
      Effect { vm with ip := vm.ip + 4 } opcode (decode i) vm' := by
  unfold iterate at h
  obtain ⟨i, vm1, hfetch, h⟩ := bind_eq_ok.1 h
  obtain ⟨hword, rfl⟩ := fetch_effect hfetch
  obtain ⟨opcode, hop, heffect⟩ := execute_effect h
  exact ⟨i, opcode, hword, hop, heffect⟩

end Inversion

/-! ## §4. One round. -/

/-- The machine behind the instruction word it has fetched. -/
def VM.fetched (vm : VM) : VM := { vm with ip := vm.ip + 4 }

/-- **A round of a running machine** that executes the instruction `d` and
leaves `sp` in the stack. -/
structure Executes (vm : VM) (opcode : Opcode) (d : DecodedInstr) (vm' : VM) : Prop where
  running : vm.running = true
  word : ∃ i, readU32 vm.bytecode.bytes vm.ip.toNat = some i ∧ decode i = d
  opcode : Opcode.ofByte d.opcode = some opcode
  run : iterate vm = .ok () vm'
  limit : vm'.sp.toNat ≤ STACK_SIZE

section Round

variable {vm vm' : VM} {opcode : Opcode} {d : DecodedInstr}

/-- So does a round of the loop. -/
theorem Executes.effect (h : Executes vm opcode d vm') : Effect vm.fetched opcode d vm' := by
  obtain ⟨i, opcode', hword, hop, heffect⟩ := iterate_effect h.run
  obtain ⟨i', hword', hdecode⟩ := h.word
  rw [hword] at hword'
  injection hword' with hi
  subst hi
  rw [hdecode] at hop heffect
  rw [h.opcode] at hop
  injection hop with hop
  subst hop
  exact heffect

section Inverted

variable {vm vm' : VM} {d : DecodedInstr}

/-- What a `call` does. -/
theorem Effect.call_inv (h : Effect vm .opCall d vm') :
    vm' = vm.called (vm.functionTable (callIndex d.ra d.rb d.rc)) ∧
      vm.sp.toNat + 2 ≤ STACK_SIZE := by
  cases h with
  | arithmetic arith => rcases arith with h | h | h | h <;> exact absurd h (by decide)
  | taken jump => exact absurd jump (by decide)
  | passed jump => exact absurd jump (by decide)
  | call _ room => exact ⟨rfl, room⟩

/-- What a `ret` does. -/
theorem Effect.ret_inv (h : Effect vm .opRet d vm') : vm' = vm.returned ∧ 2 ≤ vm.fp.toNat := by
  cases h with
  | arithmetic arith => rcases arith with h | h | h | h <;> exact absurd h (by decide)
  | taken jump => exact absurd jump (by decide)
  | passed jump => exact absurd jump (by decide)
  | ret low => exact ⟨rfl, low⟩

/-- What a `push` does. -/
theorem Effect.push_inv (h : Effect vm .opPush d vm') : vm' = vm.pushed (vm.reg d.ra) := by
  cases h with
  | arithmetic arith => rcases arith with h | h | h | h <;> exact absurd h (by decide)
  | taken jump => exact absurd jump (by decide)
  | passed jump => exact absurd jump (by decide)
  | push => rfl

end Inverted

/-- A word read at `ip` ends inside the image. -/
theorem readU32_bound {bytes : List Byte} {a : Nat} {w : BitVec 32}
    (h : readU32 bytes a = some w) : a + 4 ≤ bytes.length := by
  unfold readU32 at h
  by_cases hlt : a + 3 < bytes.length
  · omega
  · rw [List.getElem?_eq_none (i := a + 3) (by omega)] at h
    split at h
    · simp_all
    · exact absurd h (by simp)

/-- The address behind a fetched word is that of a byte of the image or of its
end, so it is never taken for a pointer. -/
theorem Executes.fetched_ip (h : Executes vm opcode d vm') :
    vm.fetched.ip.toNat = vm.ip.toNat + 4 ∧ vm.fetched.ip.toNat < 2 ^ 48 := by
  obtain ⟨i, hword, _⟩ := h.word
  have hbound := readU32_bound hword
  have himage := vm.bytecode.addressable
  have hip : vm.fetched.ip.toNat = vm.ip.toNat + 4 := by
    show (vm.ip + 4).toNat = _
    bv_omega
  omega

/-- The round can be computed. -/
def MayExecute (vm : VM) (opcode : Opcode) (d : DecodedInstr) : Prop :=
  vm.running = true ∧ (readU32 vm.bytecode.bytes vm.ip.toNat).map decode = some d ∧
  Opcode.ofByte d.opcode = some opcode ∧ value (iterate vm) = some () ∧
  (finalState (iterate vm)).sp.toNat ≤ STACK_SIZE

instance (vm : VM) (opcode : Opcode) (d : DecodedInstr) : Decidable (MayExecute vm opcode d) :=
  inferInstanceAs (Decidable (_ ∧ _))

/-- An instruction that may be executed leads to the final state. -/
theorem MayExecute.executes (h : MayExecute vm opcode d) :
    Executes vm opcode d (finalState (iterate vm)) := by
  obtain ⟨hrunning, hword, hop, hrun, hlimit⟩ := h
  obtain ⟨i, hread, hdecode⟩ := Option.map_eq_some_iff.1 hword
  exact ⟨hrunning, ⟨i, hread, hdecode⟩, hop, ok_of_value hrun, hlimit⟩

end Round

end SproutLang
