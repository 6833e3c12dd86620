/-
  SproutLang.VM.TypedRefinement
  ─────────────────────────────
  **THE VM REFINES THE TYPED MACHINE.**

  `VM.typed` reads every word of the machine as the value it stands for.
  Inside the scope of the typed machine:

    • `iterate_matches`   — a round of the VM and a step of the typed machine
                            match: both go on to related states, or the VM
                            throws and the typed machine stops,
    • `run_refines_typed` — so every run from `init` is a run of the typed
                            machine.
-/
import SproutLang.VM.TypedMachine
import SproutLang.VM.Effects
import SproutLang.VM.Loader
import SproutLang.Library.Runs

namespace SproutLang

open Library

/-! ## §1. The value of a word. -/

section OfWord

variable {w v : Word}

theorem Value.ofWord_of_isInt (h : isInt w = true) : ofWord w = .int (Int48.ofWord w) :=
  if_pos h

theorem Value.ofWord_of_isBool (h : isBool w = true) : ofWord w = .bool (decodeBool w) := by
  have hint : isInt w = false := by
    rw [isBool_iff] at h
    rw [Bool.eq_false_iff, ne_eq, isInt_iff]
    omega
  unfold ofWord
  rw [hint, h]
  rfl

theorem Value.ofWord_of_isChar6 (h : isChar6 w = true) : ofWord w = .char6 (decodeChar6 w) := by
  rw [isChar6_iff] at h
  have hint : isInt w = false := by
    rw [Bool.eq_false_iff, ne_eq, isInt_iff]
    omega
  have hbool : isBool w = false := by
    rw [Bool.eq_false_iff, ne_eq, isBool_iff]
    omega
  unfold ofWord
  rw [hint, hbool, (isChar6_iff w).2 h]
  rfl

/-- A double carries no tag. -/
theorem tagged_of_isDouble (tag : Word) (h : isDouble w = true) :
    (!isDouble w && getTag w == tag) = false := by
  rw [h]
  rfl

theorem Value.ofWord_of_isDouble (h : isDouble w = true) : ofWord w = .double w := by
  unfold ofWord isInt isBool isChar6 isPointer
  rw [tagged_of_isDouble _ h, tagged_of_isDouble _ h, tagged_of_isDouble _ h,
    tagged_of_isDouble _ h, h]
  rfl

/-- A word read as an integer is one. -/
theorem Value.isInt_of_ofWord {n : Int48} (h : ofWord w = .int n) : isInt w = true := by
  unfold ofWord at h
  split at h
  · assumption
  · repeat (first | exact absurd h (by simp) | split at h)

/-- A word read as a boolean is one. -/
theorem Value.isBool_of_ofWord {b : Bool} (h : ofWord w = .bool b) : isBool w = true := by
  unfold ofWord at h
  split at h
  · exact absurd h (by simp)
  · split at h
    · assumption
    · repeat (first | exact absurd h (by simp) | split at h)

/-- A word read as a double is one. -/
theorem Value.isDouble_of_ofWord {x : Word} (h : ofWord w = .double x) : isDouble w = true := by
  unfold ofWord at h
  repeat (first | assumption | exact absurd h (by simp) | split at h)

/-- What `end` prints depends on the value alone. -/
theorem Value.printed_ofWord (w : Word) : (ofWord w).printed = SproutLang.printed w := by
  unfold SproutLang.printed
  -- in the order in which the source asks
  split
  · rename_i hint
    rw [ofWord_of_isInt hint]
    rfl
  · rename_i hint
    split
    · rename_i hdouble
      rw [ofWord_of_isDouble hdouble]
      rfl
    · rename_i hdouble
      split
      · rename_i hchar
        rw [ofWord_of_isChar6 hchar]
        rfl
      · rename_i hchar
        cases hw : ofWord w with
        | int n => exact absurd (isInt_of_ofWord hw) hint
        | double x => exact absurd (isDouble_of_ofWord hw) hdouble
        | char6 c =>
            unfold ofWord at hw
            repeat (first | exact absurd ‹_› hchar | exact absurd hw (by simp) | split at hw)
        | bool | null | pointer | other => rfl

/-- **Boxing reduces to 48 bits**: the integer of a boxed result. -/
theorem Value.ofWord_encodeInt (n : Int) :
    ofWord (encodeInt (BitVec.ofInt 64 n)) = .int (Int48.reduce n) := by
  rw [ofWord_of_isInt (isInt_encodeInt _)]
  unfold Int48.ofWord Int48.reduce
  simp only [decodeInt_encodeInt]

end OfWord

/-! ## §2. Operations on words and on values. -/

section Operations

variable {w v : Word}

/-- Two operands of an operation: both integers, both doubles, or neither. -/
theorem Value.arith_mismatch {op : Arith} (hdouble : (isDouble w && isDouble v) = false)
    (hint : (isInt w && isInt v) = false) :
    (ofWord w).arith op (ofWord v) = .error .mismatch := by
  cases hw : ofWord w with
  | int m =>
      cases hv : ofWord v with
      | int n =>
          rw [isInt_of_ofWord hw, isInt_of_ofWord hv] at hint
          exact absurd hint (by decide)
      | _ => rfl
  | double x =>
      cases hv : ofWord v with
      | double y =>
          rw [isDouble_of_ofWord hw, isDouble_of_ofWord hv] at hdouble
          exact absurd hdouble (by decide)
      | _ => rfl
  | _ => rfl

/-- Words of two kinds do not compare. -/
theorem Value.compare_mismatch (hdouble : (isDouble w && isDouble v) = false)
    (hint : (isInt w && isInt v) = false) (hbool : (isBool w && isBool v) = false) :
    (ofWord w).compare (ofWord v) = .error .mismatch := by
  -- of equal kinds at most one hypothesis stands against the comparison
  cases hw : ofWord w with
  | int m =>
      cases hv : ofWord v with
      | int n =>
          rw [isInt_of_ofWord hw, isInt_of_ofWord hv] at hint
          exact absurd hint (by decide)
      | _ => rfl
  | double x =>
      cases hv : ofWord v with
      | double y =>
          rw [isDouble_of_ofWord hw, isDouble_of_ofWord hv] at hdouble
          exact absurd hdouble (by decide)
      | _ => rfl
  | bool a =>
      cases hv : ofWord v with
      | bool b =>
          rw [isBool_of_ofWord hw, isBool_of_ofWord hv] at hbool
          exact absurd hbool (by decide)
      | _ => rfl
  | _ => rfl

/-- The number `jmpFlag` holds for what a comparison found. -/
def Relation.flag : Relation → Int
  | .less => -1
  | .equal => 1
  | .greater => 2
  | .unequal => 0

/-- The flag `init` sets is that of `greater`. -/
def flagOf : Option Relation → Int
  | some relation => relation.flag
  | none => 2

/-- **`compare` finds the relation of the two values**, or throws where they
have none. -/
theorem compareFlag_ofWord (fpu : Fpu) (hdouble : (isDouble w && isDouble v) = false) :
    (compareFlag fpu w v = none ∧ (Value.ofWord w).compare (Value.ofWord v) = .error .mismatch) ∨
    ∃ relation, compareFlag fpu w v = some relation.flag ∧
      (Value.ofWord w).compare (Value.ofWord v) = .ok relation := by
  unfold compareFlag
  rw [hdouble, if_neg Bool.false_ne_true]
  cases hint : isInt w && isInt v with
  | true =>
      rw [if_pos rfl]
      rw [Bool.and_eq_true] at hint
      rw [Value.ofWord_of_isInt hint.1, Value.ofWord_of_isInt hint.2]
      refine Or.inr ?_
      show ∃ relation : Relation, _ ∧ (if decodeInt w = decodeInt v then Except.ok Relation.equal
        else if decodeInt w < decodeInt v then .ok .less else .ok .greater) = Except.ok relation
      -- the three flags of integers
      rcases lt_trichotomy (decodeInt w) (decodeInt v) with hlt | heq | hgt
      · rw [if_neg hlt.ne, if_pos hlt, if_neg hlt.ne, if_pos hlt]
        exact ⟨.less, rfl, rfl⟩
      · rw [if_pos heq, if_pos heq]
        exact ⟨.equal, rfl, rfl⟩
      · rw [if_neg hgt.ne', if_neg hgt.not_gt, if_pos hgt, if_neg hgt.ne', if_neg hgt.not_gt]
        exact ⟨.greater, rfl, rfl⟩
  | false =>
      rw [if_neg Bool.false_ne_true]
      cases hbool : isBool w && isBool v with
      | true =>
          rw [if_pos rfl]
          rw [Bool.and_eq_true] at hbool
          rw [Value.ofWord_of_isBool hbool.1, Value.ofWord_of_isBool hbool.2]
          refine Or.inr ?_
          show ∃ relation : Relation, _ ∧ (if decodeBool w = decodeBool v
            then Except.ok Relation.equal else .ok .unequal) = Except.ok relation
          -- bools are equal or not, there is no order
          by_cases heq : decodeBool w = decodeBool v
          · rw [if_pos heq, if_pos heq]
            exact ⟨.equal, rfl, rfl⟩
          · rw [if_neg heq, if_neg heq]
            exact ⟨.unequal, rfl, rfl⟩
      | false =>
          rw [if_neg Bool.false_ne_true]
          exact Or.inl ⟨rfl, Value.compare_mismatch hdouble hint hbool⟩

end Operations

/-! ## §3. The relation. -/

/-- The machine with every word read as a value; `last` is what the last
comparison found, which the VM only knows as a number. -/
def VM.typed (vm : VM) (last : Option Relation) : TypedVM where
  code := vm.bytecode
  ip := vm.ip
  sp := vm.sp
  reg r := .ofWord (vm.reg r)
  stack i := .ofWord (vm.stack i)
  last := last
  running := vm.running
  out := vm.out

/-- **The VM is in the state `m` of the typed machine**: same `ip`, `sp`,
halting state and output, and every register and slot holds a word of the
value `m` has there.  The heaps are unused. -/
structure Refines (vm : VM) (m : TypedVM) : Prop where
  typed : m = vm.typed m.last
  flag : vm.jmpFlag = flagOf m.last
  emptyA : vm.heapA.chunks = []
  emptyB : vm.heapB.chunks = []

/-- A round of the VM and a step of the typed machine that come to the same:
both go on, or the VM throws and the typed machine meets a type mismatch or an
unknown opcode. -/
inductive Matches : EStateM.Result Fault VM Unit → Except Stop TypedVM → Prop where
  | next {vm : VM} {m : TypedVM} (refines : Refines vm m) : Matches (.ok () vm) (.ok m)
  | mismatch {what : String} {vm : VM} : Matches (.error (.runtimeError what) vm) (.error .mismatch)
  | unknownOpcode {what : String} {vm : VM} :
      Matches (.error (.runtimeError what) vm) (.error .unknownOpcode)

section Typed

variable {vm : VM} {m : TypedVM} {d : DecodedInstr}

/-- An assignment to a register commutes with the reading. -/
theorem VM.typed_setReg (vm : VM) (last : Option Relation) (r : Byte) (w : Word) :
    (vm.setReg r w).typed last = (vm.typed last).setReg r (.ofWord w) := by
  have hreg : (fun r' => Value.ofWord (Function.update vm.reg r w r'))
      = Function.update (fun r' => Value.ofWord (vm.reg r')) r (.ofWord w) := by
    funext r'
    rw [Function.update_apply, Function.update_apply]
    split <;> rfl
  unfold VM.typed TypedVM.setReg VM.setReg
  rw [hreg]

/-- So does one to a stack slot. -/
theorem VM.typed_setSlot (vm : VM) (last : Option Relation) (i : Nat) (w : Word) :
    (vm.setSlot i w).typed last = (vm.typed last).setSlot i (.ofWord w) := by
  have hstack : (fun j => Value.ofWord (Function.update vm.stack i w j))
      = Function.update (fun j => Value.ofWord (vm.stack j)) i (.ofWord w) := by
    funext j
    rw [Function.update_apply, Function.update_apply]
    split <;> rfl
  unfold VM.typed TypedVM.setSlot VM.setSlot
  rw [hstack]

/-- Writing a register keeps the relation. -/
theorem Refines.setReg (h : Refines vm m) (r : Byte) (w : Word) :
    Refines (vm.setReg r w) (m.setReg r (.ofWord w)) where
  typed := by
    rw [h.typed]
    exact (VM.typed_setReg vm m.last r w).symm
  flag := h.flag
  emptyA := h.emptyA
  emptyB := h.emptyB

/-- Writing a slot keeps the relation. -/
theorem Refines.setSlot (h : Refines vm m) (i : Nat) (w : Word) :
    Refines (vm.setSlot i w) (m.setSlot i (.ofWord w)) where
  typed := by
    rw [h.typed]
    exact (VM.typed_setSlot vm m.last i w).symm
  flag := h.flag
  emptyA := h.emptyA
  emptyB := h.emptyB

theorem Refines.setIp (h : Refines vm m) (ip : Word) :
    Refines { vm with ip := ip } { m with ip := ip } where
  typed := by
    rw [h.typed]
    rfl
  flag := h.flag
  emptyA := h.emptyA
  emptyB := h.emptyB

theorem Refines.setSp (h : Refines vm m) (sp : Word) :
    Refines { vm with sp := sp } { m with sp := sp } where
  typed := by
    rw [h.typed]
    rfl
  flag := h.flag
  emptyA := h.emptyA
  emptyB := h.emptyB

/-- So does a comparison that finds the same on both sides. -/
theorem Refines.setLast (h : Refines vm m) (relation : Relation) :
    Refines { vm with jmpFlag := relation.flag } { m with last := some relation } where
  typed := by
    rw [h.typed]
    rfl
  flag := rfl
  emptyA := h.emptyA
  emptyB := h.emptyB

/-- The same is printed. -/
theorem Refines.print (h : Refines vm m) (w : Word) :
    Refines { vm with out := vm.out ++ printed w }
      { m with out := m.out ++ (Value.ofWord w).printed } where
  typed := by
    rw [h.typed, Value.printed_ofWord]
    rfl
  flag := h.flag
  emptyA := h.emptyA
  emptyB := h.emptyB

theorem Refines.reg (h : Refines vm m) (r : Byte) : m.reg r = .ofWord (vm.reg r) := by
  rw [h.typed]
  rfl

theorem Refines.stack (h : Refines vm m) (i : Nat) : m.stack i = .ofWord (vm.stack i) := by
  rw [h.typed]
  rfl

theorem Refines.ip (h : Refines vm m) : m.ip = vm.ip := by
  rw [h.typed]
  rfl

theorem Refines.sp (h : Refines vm m) : m.sp = vm.sp := by
  rw [h.typed]
  rfl

theorem Refines.running (h : Refines vm m) : m.running = vm.running := by
  rw [h.typed]
  rfl

theorem Refines.out (h : Refines vm m) : m.out = vm.out := by
  rw [h.typed]
  rfl

theorem Refines.wordAt (h : Refines vm m) {a : Word} {w : BitVec 32}
    (hword : readU32 vm.bytecode.bytes a.toNat = some w) : m.wordAt a = .ok w := by
  rw [h.typed]
  exact TypedVM.wordAt_ok hword

end Typed

/-! ## §4. Scope. -/

/-- The image has a word at an address. -/
def VM.HasWord (vm : VM) (a : Word) : Prop := (readU32 vm.bytecode.bytes a.toNat).isSome = true

instance (vm : VM) (a : Word) : Decidable (vm.HasWord a) := inferInstanceAs (Decidable (_ = true))

/-- **The scope of the typed machine** for an instruction, in the state behind
its word: the words and slots it uses are there, and no arithmetic is done on
two doubles, no division by zero. -/
def Opcode.InScope (vm : VM) (d : DecodedInstr) : Opcode → Prop
  | .opAdd | .opSub | .opMul => (isDouble (vm.reg d.rb) && isDouble (vm.reg d.rc)) = false
  | .opDiv => (isDouble (vm.reg d.rb) && isDouble (vm.reg d.rc)) = false ∧
      ¬ (isInt (vm.reg d.rb) ∧ isInt (vm.reg d.rc) ∧ decodeInt (vm.reg d.rc) = 0)
  | .opLoad64 => vm.HasWord vm.ip ∧ vm.HasWord (vm.ip + 4)
  | .opCmp => (isDouble (vm.reg d.ra) && isDouble (vm.reg d.rb)) = false
  | .opJe => vm.jmpFlag = 1 → vm.HasWord vm.ip
  | .opJne => vm.jmpFlag ≠ 1 → vm.HasWord vm.ip
  | .opJl => vm.jmpFlag = -1 → vm.HasWord vm.ip
  | .opJg => vm.jmpFlag = 2 → vm.HasWord vm.ip
  | .opPush => vm.sp.toNat < STACK_SIZE
  | .opPop => (vm.sp - 1).toNat < STACK_SIZE
  | .opMov => d.rc = 0
  | .opInsertIntoStack | .opReadFromStack => stackPoint d.ra d.rb < STACK_SIZE
  | .opEnd | .opDebugReturn => True
  | .opCall | .opRet | .opArrInit | .opArrInsert | .opArrRead => False

/-- The machine runs and its next instruction is in the scope; a byte that is
no opcode is. -/
structure InScope (vm : VM) (d : DecodedInstr) : Prop where
  running : vm.running = true
  word : (readU32 vm.bytecode.bytes vm.ip.toNat).map decode = some d
  scope : ∀ opcode ∈ Opcode.ofByte d.opcode, opcode.InScope vm.fetched d

/-! ## §5. One instruction. -/

section Instruction

variable {vm : VM} {m : TypedVM} {d : DecodedInstr}

/-- Arithmetic matches. -/
theorem arithmetic_matches (h : Refines vm m) (op : Arith) {iop : Int → Int → Exec Word}
    (hdouble : (isDouble (vm.reg d.rb) && isDouble (vm.reg d.rc)) = false)
    (hiop : isInt (vm.reg d.rb) = true → isInt (vm.reg d.rc) = true →
      ¬ (op = .div ∧ decodeInt (vm.reg d.rc) = 0) ∧
      iop (decodeInt (vm.reg d.rb)) (decodeInt (vm.reg d.rc)) vm
        = .ok (BitVec.ofInt 64 (op.exact (decodeInt (vm.reg d.rb)) (decodeInt (vm.reg d.rc)))) vm) :
    Matches (arithmetic op iop d.ra (vm.reg d.rb) (vm.reg d.rc) vm) (m.arithmetic op d) := by
  rw [arithmetic_eq, hdouble, if_neg Bool.false_ne_true]
  unfold TypedVM.arithmetic
  rw [h.reg, h.reg]
  cases hint : isInt (vm.reg d.rb) && isInt (vm.reg d.rc) with
  | true =>
      rw [if_pos rfl]
      rw [Bool.and_eq_true] at hint
      obtain ⟨hdiv, hres⟩ := hiop hint.1 hint.2
      rw [bind_ok hres, Value.ofWord_of_isInt hint.1, Value.ofWord_of_isInt hint.2]
      -- the typed value is reduced to 48 bits, as `encodeInt` does
      have hvalue : (Value.int (Int48.ofWord (vm.reg d.rb))).arith op
          (.int (Int48.ofWord (vm.reg d.rc)))
          = .ok (.int (Int48.reduce (op.exact (decodeInt (vm.reg d.rb))
              (decodeInt (vm.reg d.rc))))) := if_neg hdiv
      rw [hvalue, ← Value.ofWord_encodeInt]
      exact Matches.next (h.setReg d.ra _)
  | false =>
      rw [if_neg Bool.false_ne_true, Value.arith_mismatch hdouble hint]
      exact Matches.mismatch

/-- The flag and the relation decide the branches alike. -/
theorem taken_flagOf (last : Option Relation) :
    taken last .opJe = decide (flagOf last = 1) ∧ taken last .opJne = decide (flagOf last ≠ 1) ∧
    taken last .opJl = decide (flagOf last = -1) ∧ taken last .opJg = decide (flagOf last = 2) := by
  cases last with
  | none => decide
  | some relation => cases relation <;> decide

/-- Branches match. -/
theorem branch_matches (h : Refines vm m) {opcode : Opcode} {jumps : Int → Bool}
    (htaken : taken m.last opcode = jumps (flagOf m.last))
    (hword : jumps vm.jmpFlag = true → vm.HasWord vm.ip) :
    Matches (branch jumps vm) (m.branch opcode) := by
  rw [branch_eq]
  unfold TypedVM.branch
  rw [htaken, ← h.flag]
  cases hjumps : jumps vm.jmpFlag with
  | true =>
      obtain ⟨target, htarget⟩ := Option.isSome_iff_exists.1 (hword hjumps)
      rw [if_pos rfl, if_pos rfl, htarget, h.ip, h.wordAt htarget]
      exact Matches.next (h.setIp _)
  | false =>
      rw [if_neg Bool.false_ne_true, if_neg Bool.false_ne_true, h.ip]
      exact Matches.next (h.setIp _)

/-- `load` matches. -/
theorem load_matches (h : Refines vm m) (hhi : vm.HasWord vm.ip) (hlo : vm.HasWord (vm.ip + 4)) :
    Matches (loadIntoReg d.ra vm) (m.execute d .opLoad64) := by
  obtain ⟨hi, hhi⟩ := Option.isSome_iff_exists.1 hhi
  obtain ⟨lo, hlo⟩ := Option.isSome_iff_exists.1 hlo
  have hfetch : fetch64 vm
      = .ok ((hi.setWidth 64 <<< 32) ||| lo.setWidth 64) { vm with ip := vm.ip + 4 + 4 } := by
    have hfirst : fetch vm = .ok hi { vm with ip := vm.ip + 4 } := fetch_ok hhi
    have hsecond : fetch { vm with ip := vm.ip + 4 }
        = .ok lo { vm with ip := vm.ip + 4 + 4 } := fetch_ok hlo
    unfold fetch64
    rw [bind_ok hfirst, bind_ok hsecond]
    rfl
  unfold loadIntoReg
  rw [bind_ok hfetch]
  unfold TypedVM.execute
  rw [h.ip, h.wordAt hhi, h.wordAt hlo]
  exact Matches.next ((h.setIp _).setReg d.ra _)

/-- `cmp` matches. -/
theorem compare_matches (h : Refines vm m)
    (hdouble : (isDouble (vm.reg d.ra) && isDouble (vm.reg d.rb)) = false) :
    Matches (compare (vm.reg d.ra) (vm.reg d.rb) vm) (m.execute d .opCmp) := by
  rw [compare_eq]
  unfold TypedVM.execute
  rw [h.reg, h.reg]
  rcases compareFlag_ofWord vm.fpu hdouble with ⟨hflag, hvalue⟩ | ⟨relation, hflag, hvalue⟩
  · rw [hflag, hvalue]
    exact Matches.mismatch
  · rw [hflag, hvalue]
    exact Matches.next (h.setLast relation)

/-- `push` matches. -/
theorem push_matches (h : Refines vm m) (hroom : vm.sp.toNat < STACK_SIZE) :
    Matches (push (vm.reg d.ra) vm) (m.execute d .opPush) := by
  have htyped : m.execute d .opPush
      = .ok { m.setSlot m.sp.toNat (m.reg d.ra) with sp := m.sp + 1 } := by
    rw [← h.sp] at hroom
    exact if_pos hroom
  rw [push_eq, if_pos hroom, htyped, h.sp, h.reg]
  exact Matches.next ((h.setSlot _ _).setSp _)

/-- `pop` matches. -/
theorem pop_matches (h : Refines vm m) (hroom : (vm.sp - 1).toNat < STACK_SIZE) :
    Matches (executeOp .opPop d vm) (m.execute d .opPop) := by
  have hpop : pop vm = .ok (vm.stack (vm.sp - 1).toNat) { vm with sp := vm.sp - 1 } := by
    rw [pop_eq, if_pos hroom]
  have htyped : m.execute d .opPop
      = .ok ({ m with sp := m.sp - 1 }.setReg d.ra (m.stack (m.sp - 1).toNat)) := by
    rw [← h.sp] at hroom
    exact if_pos hroom
  show Matches ((pop >>= fun w => setReg d.ra w) vm) _
  rw [bind_ok hpop, htyped, h.sp, h.stack]
  exact Matches.next ((h.setSp _).setReg d.ra _)

/-- A plain `mov` matches. -/
theorem mov_matches (h : Refines vm m) (hflag : d.rc = 0) :
    Matches (mov d.ra d.rb d.rc vm) (m.execute d .opMov) := by
  have htyped : m.execute d .opMov = .ok (m.setReg d.ra (m.reg d.rb)) := if_pos hflag
  have hrun : mov d.ra d.rb d.rc vm = .ok () (vm.setReg d.ra (vm.reg d.rb)) := by
    unfold mov
    rw [get_bind, hflag]
    rfl
  rw [hrun, htyped, h.reg]
  exact Matches.next (h.setReg d.ra _)

/-- `ins` matches. -/
theorem insert_matches (h : Refines vm m) (hslot : stackPoint d.ra d.rb < STACK_SIZE) :
    Matches (insertIntoStack d.ra d.rb (vm.reg d.rc) vm) (m.execute d .opInsertIntoStack) := by
  have htyped : m.execute d .opInsertIntoStack
      = .ok (m.setSlot (stackPoint d.ra d.rb) (m.reg d.rc)) := if_pos hslot
  have hrun : insertIntoStack d.ra d.rb (vm.reg d.rc) vm
      = .ok () (vm.setSlot (stackPoint d.ra d.rb) (vm.reg d.rc)) := if_pos hslot
  rw [hrun, htyped, h.reg]
  exact Matches.next (h.setSlot _ _)

/-- `read` matches. -/
theorem read_matches (h : Refines vm m) (hslot : stackPoint d.ra d.rb < STACK_SIZE) :
    Matches (readFromStack d.ra d.rb d.rc vm) (m.execute d .opReadFromStack) := by
  have htyped : m.execute d .opReadFromStack
      = .ok (m.setReg d.rc (m.stack (stackPoint d.ra d.rb))) := if_pos hslot
  have hload : loadSlot (stackPoint d.ra d.rb) vm
      = .ok (vm.stack (stackPoint d.ra d.rb)) vm := if_pos hslot
  unfold readFromStack
  rw [bind_ok hload, htyped, h.stack]
  exact Matches.next (h.setReg d.rc _)

/-- Freeing a heap that has no chunk. -/
theorem onHeap_freeHeap (vm : VM) (half : Half) (h : (vm.heap half).chunks = []) :
    onHeap half freeHeap vm
      = .ok () ((vm.setHeap half { vm.heap half with chunks := [], totalAllocated := 0 }).setStore
          vm.store) := by
  have hfree : freeHeap ⟨vm.store, vm.heap half⟩
      = .ok () ⟨vm.store, { vm.heap half with chunks := [], totalAllocated := 0 }⟩ := by
    unfold freeHeap
    rw [get_bind]
    simp only [h]
    rfl
  unfold onHeap zoom
  simp only [hfree]

/-- `end` matches. -/
theorem end_matches (h : Refines vm m) :
    Matches (executeOp .opEnd d vm) (m.execute d .opEnd) := by
  have hend : endWith (vm.reg d.ra) vm
      = .ok () { vm with out := vm.out ++ printed (vm.reg d.ra) } := rfl
  have hfreeA := onHeap_freeHeap
    { vm with out := vm.out ++ printed (vm.reg d.ra), running := false } .A h.emptyA
  generalize hvmA : VM.setStore (VM.setHeap _ .A _) _ = vmA at hfreeA
  have hfreeB := onHeap_freeHeap vmA .B (by rw [← hvmA]; exact h.emptyB)
  show Matches ((endWith (vm.reg d.ra) >>= fun _ =>
    (modify fun vm => { vm with running := false }) >>= fun _ =>
      onHeap .A freeHeap >>= fun _ => onHeap .B freeHeap : Exec Unit) vm) _
  rw [bind_ok hend, bind_ok (modify_apply _), bind_ok hfreeA, hfreeB]
  subst hvmA
  refine Matches.next ⟨?_, h.flag, rfl, rfl⟩
  have hprinted : (m.reg d.ra).printed = printed (vm.reg d.ra) := by
    rw [h.reg, Value.printed_ofWord]
  rw [hprinted, h.typed]
  rfl

/-- **Every instruction in the scope matches its typed counterpart.** -/
theorem executeOp_matches (h : Refines vm m) (opcode : Opcode) (hscope : opcode.InScope vm d) :
    Matches (executeOp opcode d vm) (m.execute d opcode) := by
  obtain ⟨hje, hjne, hjl, hjg⟩ := taken_flagOf m.last
  have hnodiv : ∀ op : Arith, op ≠ .div → ¬ (op = .div ∧ decodeInt (vm.reg d.rc) = 0) :=
    fun op hop hdiv => hop hdiv.1
  cases opcode with
  | opAdd =>
      show Matches (add d.ra (vm.reg d.rb) (vm.reg d.rc) vm) (m.arithmetic .add d)
      exact arithmetic_matches h .add hscope fun _ _ => ⟨hnodiv .add (by decide), rfl⟩
  | opSub =>
      show Matches (sub d.ra (vm.reg d.rb) (vm.reg d.rc) vm) (m.arithmetic .sub d)
      exact arithmetic_matches h .sub hscope fun _ _ => ⟨hnodiv .sub (by decide), rfl⟩
  | opMul =>
      show Matches (mul d.ra (vm.reg d.rb) (vm.reg d.rc) vm) (m.arithmetic .mul d)
      exact arithmetic_matches h .mul hscope fun _ _ => ⟨hnodiv .mul (by decide), rfl⟩
  | opDiv =>
      show Matches (div d.ra (vm.reg d.rb) (vm.reg d.rc) vm) (m.arithmetic .div d)
      refine arithmetic_matches h .div hscope.1 fun hb hc => ?_
      have hzero : ¬ decodeInt (vm.reg d.rc) = 0 := fun hz => hscope.2 ⟨hb, hc, hz⟩
      refine ⟨fun hdiv => hzero hdiv.2, ?_⟩
      simp only [if_neg hzero]
      rfl
  | opLoad64 => exact load_matches h hscope.1 hscope.2
  | opCmp => exact compare_matches h hscope
  | opJe =>
      show Matches (je vm) (m.branch .opJe)
      exact branch_matches h hje fun hjump => hscope (of_decide_eq_true hjump)
  | opJne =>
      show Matches (jne vm) (m.branch .opJne)
      exact branch_matches h hjne fun hjump => hscope (of_decide_eq_true hjump)
  | opJl =>
      show Matches (jl vm) (m.branch .opJl)
      exact branch_matches h hjl fun hjump => hscope (of_decide_eq_true hjump)
  | opJg =>
      show Matches (jg vm) (m.branch .opJg)
      exact branch_matches h hjg fun hjump => hscope (of_decide_eq_true hjump)
  | opPush => exact push_matches h hscope
  | opPop => exact pop_matches h hscope
  | opMov => exact mov_matches h hscope
  | opInsertIntoStack => exact insert_matches h hscope
  | opReadFromStack => exact read_matches h hscope
  | opEnd => exact end_matches h
  | opDebugReturn =>
      have hrun : executeOp .opDebugReturn d vm
          = .ok () { vm with out := vm.out ++ printed (vm.reg d.ra) } := rfl
      have htyped : m.execute d .opDebugReturn
          = .ok { m with out := m.out ++ (m.reg d.ra).printed } := rfl
      rw [hrun, htyped, h.reg]
      exact Matches.next (h.print _)
  | opCall => exact hscope.elim
  | opRet => exact hscope.elim
  | opArrInit => exact hscope.elim
  | opArrInsert => exact hscope.elim
  | opArrRead => exact hscope.elim

/-- **A round of the VM matches a step of the typed machine.** -/
theorem iterate_matches (h : Refines vm m) (hscope : InScope vm d) :
    Matches (iterate vm) m.step := by
  obtain ⟨i, hword, hdecode⟩ := Option.map_eq_some_iff.1 hscope.word
  have hfetch : fetch vm = .ok i vm.fetched := fetch_ok hword
  have hnext : m.wordAt m.ip = .ok i := by rw [h.ip]; exact h.wordAt hword
  unfold iterate
  rw [bind_ok hfetch, hdecode]
  unfold execute
  cases hop : Opcode.ofByte d.opcode with
  | some opcode =>
      rw [TypedVM.step_ok hnext (by rw [hdecode]; exact hop), hdecode, h.ip]
      exact executeOp_matches (h.setIp (vm.ip + 4)) opcode
        (hscope.scope opcode (Option.mem_def.2 hop))
  | none =>
      rw [TypedVM.step_unknown hnext (by rw [hdecode]; exact hop)]
      exact Matches.unknownOpcode

end Instruction

/-! ## §6. Runs. -/

/-- A round of the VM in the scope. -/
structure ScopedRound (vm : VM) (d : DecodedInstr) (vm' : VM) : Prop where
  scope : InScope vm d
  run : iterate vm = .ok () vm'

/-- A step of a running typed machine that executes `d`. -/
structure TypedVM.Takes (m : TypedVM) (d : DecodedInstr) (m' : TypedVM) : Prop where
  running : m.running = true
  word : (readU32 m.code.bytes m.ip.toNat).map decode = some d
  step : m.step = .ok m'

section Run

variable {vm vm' : VM} {m : TypedVM} {d : DecodedInstr}

/-- A step of the VM is one of the typed machine. -/
theorem Matches.of_ok (h : Matches (.ok () vm') m.step) :
    ∃ m', m.step = .ok m' ∧ Refines vm' m' := by
  generalize hstep : m.step = r at h
  cases h with
  | next refines => exact ⟨_, rfl, refines⟩

/-- **The VM throws where the typed machine stops.** -/
theorem Matches.throws_iff {r : EStateM.Result Fault VM Unit} {r' : Except Stop TypedVM}
    (h : Matches r r') :
    (∃ what vm', r = .error (.runtimeError what) vm') ↔
      r' = .error .mismatch ∨ r' = .error .unknownOpcode := by
  cases h with
  | next => simp
  | mismatch => simp
  | unknownOpcode => simp

/-- A round of the VM is a step of the typed machine. -/
theorem Refines.round (h : Refines vm m) (hround : ScopedRound vm d vm') :
    ∃ m', m.Takes d m' ∧ Refines vm' m' := by
  have hmatches := iterate_matches h hround.scope
  rw [hround.run] at hmatches
  obtain ⟨m', hstep, hrefines⟩ := hmatches.of_ok
  refine ⟨m', ⟨h.running.trans hround.scope.running, ?_, hstep⟩, hrefines⟩
  rw [h.typed]
  exact hround.scope.word

/-- The machines start alike. -/
theorem Refines.start {max : Nat} {file : Image} {allocator : Allocator} {fpu : Fpu}
    (hinit : initWith max (VM.zeroed file allocator fpu) = .ok () vm) :
    Refines vm (TypedVM.start file vm.header.codeOffset) := by
  obtain ⟨header, table, _, _, rfl⟩ := initWith_effect hinit
  have hzero : Value.ofWord 0 = .double 0 := by decide
  refine ⟨?_, rfl, rfl, rfl⟩
  unfold VM.typed TypedVM.start
  rw [← hzero]
  rfl

end Run

/-- **The VM refines the typed machine.**  A run from `init` in the scope is a
run of the typed machine, to the same `ip`, `sp`, halting state and output;
and the next round throws exactly where the typed machine meets a type
mismatch or an unknown opcode. -/
theorem run_refines_typed {file : Image} {allocator : Allocator} {fpu : Fpu} {vm0 vm : VM}
    {rounds : List DecodedInstr} (hinit : init (VM.zeroed file allocator fpu) = .ok () vm0)
    (hrun : Steps ScopedRound vm0 rounds vm) :
    ∃ m, Steps TypedVM.Takes (TypedVM.start file vm0.header.codeOffset) rounds m ∧
      Refines vm m ∧
      m.ip = vm.ip ∧ m.sp = vm.sp ∧ m.running = vm.running ∧ m.out = vm.out ∧
      ∀ d, InScope vm d → Matches (iterate vm) m.step ∧
        ((∃ what vm', iterate vm = .error (.runtimeError what) vm') ↔
          m.step = .error .mismatch ∨ m.step = .error .unknownOpcode) := by
  obtain ⟨m, hsteps, hrefines⟩ := hrun.simulate (Refines.start hinit)
    fun _ _ _ _ hrefines hround => hrefines.round hround
  refine ⟨m, hsteps, hrefines, hrefines.ip, hrefines.sp, hrefines.running, hrefines.out, ?_⟩
  intro d hscope
  have hmatches := iterate_matches hrefines hscope
  exact ⟨hmatches, hmatches.throws_iff⟩

/-! ## §7. Programs. -/

/-- A program that compares and branches. -/
def comparing : Image :=
  ⟨fileBytes []
    [0x05010000, 0x7FF10000, 0x00000001,  -- load r1 1
     0x06010100,                          -- cmp r1 r1
     0x0A000000, 0x00000020,              -- jl 32
     0x04010000],                         -- end r1
    by decide⟩

/-- The machine after the first `load` of `comparing`. -/
def afterLoad : VM := finalState (iterate (VM.loaded HEAPSIZE comparing))

/-- And after its comparison. -/
def afterCmp : VM := finalState (iterate afterLoad)

/-- A load and a comparison of `comparing`. -/
theorem run_refines_typed_comparing :
    ∃ m, Steps TypedVM.Takes
        (TypedVM.start comparing (VM.loaded HEAPSIZE comparing).header.codeOffset)
        [⟨5, 1, 0, 0⟩, ⟨6, 1, 1, 0⟩] m ∧
      Refines afterCmp m ∧
      m.ip = afterCmp.ip ∧ m.sp = afterCmp.sp ∧ m.running = afterCmp.running ∧
      m.out = afterCmp.out ∧
      ∀ d, InScope afterCmp d → Matches (iterate afterCmp) m.step ∧
        ((∃ what vm', iterate afterCmp = .error (.runtimeError what) vm') ↔
          m.step = .error .mismatch ∨ m.step = .error .unknownOpcode) := by
  have hload : ScopedRound (VM.loaded HEAPSIZE comparing) ⟨5, 1, 0, 0⟩ afterLoad := by
    refine ⟨⟨by decide +kernel, by decide +kernel, ?_⟩, ok_of_value (by decide +kernel)⟩
    intro opcode hopcode
    have hop : Opcode.ofByte 5 = some .opLoad64 := rfl
    obtain rfl := Option.some.inj (hop.symm.trans hopcode)
    exact ⟨by decide +kernel, by decide +kernel⟩
  have hcmp : ScopedRound afterLoad ⟨6, 1, 1, 0⟩ afterCmp := by
    refine ⟨⟨by decide +kernel, by decide +kernel, ?_⟩, ok_of_value (by decide +kernel)⟩
    intro opcode hopcode
    have hop : Opcode.ofByte 6 = some .opCmp := rfl
    obtain rfl := Option.some.inj (hop.symm.trans hopcode)
    show (isDouble (afterLoad.fetched.reg 1) && isDouble (afterLoad.fetched.reg 1)) = false
    decide +kernel
  exact run_refines_typed (ok_of_value (by decide +kernel)) (((Steps.nil _).snoc hload).snoc hcmp)

/-- A program that branches before it has compared anything. -/
def branching : Image :=
  ⟨fileBytes []
    [0x0B000000, 0x0000002C,  -- jg 44
     0x04000000,              -- end r0
     0x04000000],             -- end r0
    by decide⟩

/-- **`jg` is taken though nothing was compared**: `init` leaves the flag of
`greater`. -/
theorem jg_taken_before_cmp :
    init (VM.zeroed branching Allocator.ascending Fpu.quiet)
      = .ok () (VM.loaded HEAPSIZE branching) ∧
    InScope (VM.loaded HEAPSIZE branching) ⟨11, 0, 0, 0⟩ ∧
    Opcode.ofByte 11 = some .opJg ∧
    (VM.loaded HEAPSIZE branching).ip = 32 ∧
    iterate (VM.loaded HEAPSIZE branching)
      = .ok () (finalState (iterate (VM.loaded HEAPSIZE branching))) ∧
    (finalState (iterate (VM.loaded HEAPSIZE branching))).ip = 44 := by
  refine ⟨ok_of_value (by decide +kernel), ⟨by decide +kernel, by decide +kernel, ?_⟩, rfl,
    by decide +kernel, ok_of_value (by decide +kernel), by decide +kernel⟩
  intro opcode hopcode
  have hop : Opcode.ofByte 11 = some .opJg := rfl
  obtain rfl := Option.some.inj (hop.symm.trans hopcode)
  show (VM.loaded HEAPSIZE branching).fetched.jmpFlag = 2 → _
  intro _
  decide +kernel

end SproutLang
