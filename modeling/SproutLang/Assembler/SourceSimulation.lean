/-
  SproutLang.Assembler.SourceSimulation
  ─────────────────────────────────────
  **THE OBJECT MACHINE EXECUTES THE LINES.**

  `Layout.object` is the state of the object machine that a state of the source
  machine stands for: the addresses of the lines, in place of the lines.  Where
  the image has the lines placed, a step of the one is the step of the other:

    • `Layout.keeps_operate` — a line whose operands are registers,
    • `Layout.keeps_step`    — every line: where the text says what happens, a
                               result or a runtime error, it happens.
-/
import SproutLang.Assembler.Placement

namespace SproutLang.Assembler

open Library

/-! ## §1. States. -/

/-- An image, what the VM has loaded of it, and where its lines are. -/
structure Layout where
  code : Image
  functionTable : Nat → FunctionInfo
  fpu : Fpu
  addr : Nat → Nat

namespace Layout

variable (L : Layout)

/-- The address of a line. -/
def place (n : Nat) : Word := BitVec.ofNat 64 (L.addr n)

/-- What stands for a value. -/
def cell : Value → Cell
  | .word w => .word w
  | .array k => .array k
  | .line n => .word (L.place n)

/-- **What stands for a state.** -/
def object (s : SourceVM) : ObjectVM where
  code := L.code
  functionTable := L.functionTable
  fpu := L.fpu
  ip := .word (L.place s.line)
  sp := BitVec.ofNat 64 s.sp
  fp := L.cell s.fp
  reg r := L.cell (s.reg r)
  stack i := L.cell (s.stack i)
  arrays := s.arrays
  jmpFlag := s.jmpFlag
  running := s.running
  out := s.out

/-- **What a text promises of a step**: its result, or its runtime error. -/
inductive Keeps : Except Fault SourceVM → Except Fault ObjectVM → Prop where
  | next {s : SourceVM} {m : ObjectVM} (result : m = L.object s) : Keeps (.ok s) (.ok m)
  | fault {e : Fault} : Keeps (.error e) (.error e)
  | unspecified {r : Except Fault ObjectVM} : Keeps (.error .undefinedBehaviour) r

variable {L} {s : SourceVM} {d : DecodedInstr} {next : Word}

/-- An assignment to a register commutes with the reading. -/
theorem object_setReg (s : SourceVM) (r : Byte) (v : Value) :
    L.object (s.setReg r v) = (L.object s).setReg r (L.cell v) := by
  show { L.object s with reg := fun r' => L.cell (Function.update s.reg r v r') } = _
  have hreg : (fun r' => L.cell (Function.update s.reg r v r'))
      = Function.update (fun r' => L.cell (s.reg r')) r (L.cell v) := Function.comp_update L.cell s.reg r v
  rw [hreg]
  rfl

/-- So does one to a stack slot. -/
theorem object_setSlot (s : SourceVM) (i : Nat) (v : Value) :
    L.object (s.setSlot i v) = (L.object s).setSlot i (L.cell v) := by
  show { L.object s with stack := fun j => L.cell (Function.update s.stack i v j) } = _
  have hstack : (fun j => L.cell (Function.update s.stack i v j))
      = Function.update (fun j => L.cell (s.stack j)) i (L.cell v) := Function.comp_update L.cell s.stack i v
  rw [hstack]
  rfl

/-- A guard of the source machine implies that of the object machine. -/
theorem Keeps.guarded {c c' : Prop} [Decidable c] [Decidable c'] {m : ObjectVM} (hc : c → c')
    (hm : c → m = L.object s) : L.Keeps (SourceVM.guarded c s) (ObjectVM.guarded c' m) := by
  unfold SourceVM.guarded ObjectVM.guarded
  by_cases h : c
  · rw [if_pos h, if_pos (hc h)]
    exact Keeps.next (hm h)
  · rw [if_neg h]
    exact Keeps.unspecified

/-- Where the guard holds, the object machine has the same result. -/
theorem Keeps.guarded_ok {c : Prop} [Decidable c] {r : Except Fault ObjectVM}
    (hr : c → r = .ok (L.object s)) : L.Keeps (SourceVM.guarded c s) r := by
  unfold SourceVM.guarded
  by_cases h : c
  · rw [if_pos h, hr h]
    exact Keeps.next rfl
  · rw [if_neg h]
    exact Keeps.unspecified

/-- The stack pointer of both machines. -/
theorem toNat_sp (hroom : s.sp ≤ STACK_SIZE) : (L.object s).sp.toNat = s.sp := by
  have hS : STACK_SIZE = 4096 := rfl
  show (BitVec.ofNat 64 s.sp).toNat = s.sp
  rw [BitVec.toNat_ofNat]
  omega

/-! ## §2. Lines of registers. -/

/-- Arithmetic is kept. -/
theorem keeps_arithmetic (op : Arith) :
    L.Keeps (s.arithmetic L.fpu op d.ra d.rb d.rc) ((L.object s).arithmetic op d) := by
  have hb : (L.object s).reg d.rb = L.cell (s.reg d.rb) := rfl
  have hc : (L.object s).reg d.rc = L.cell (s.reg d.rc) := rfl
  unfold SourceVM.arithmetic ObjectVM.arithmetic
  rw [hb, hc]
  cases s.reg d.rb with
  | line n => exact Keeps.unspecified
  | array k =>
      cases s.reg d.rc with
      | line n => exact Keeps.unspecified
      | array k' => exact Keeps.fault
      | word y => exact Keeps.fault
  | word x =>
      cases s.reg d.rc with
      | line n => exact Keeps.unspecified
      | array k => exact Keeps.fault
      | word y =>
          show L.Keeps (ObjectVM.arithWord L.fpu op x y >>= _)
            (ObjectVM.arithWord L.fpu op x y >>= _)
          cases ObjectVM.arithWord L.fpu op x y with
          | ok w => exact Keeps.next (object_setReg s d.ra (.word w)).symm
          | error e => exact Keeps.fault

/-- So are comparisons. -/
theorem keeps_compare :
    L.Keeps (s.compare L.fpu d.ra d.rb) ((L.object s).compare d) := by
  have ha : (L.object s).reg d.ra = L.cell (s.reg d.ra) := rfl
  have hb : (L.object s).reg d.rb = L.cell (s.reg d.rb) := rfl
  unfold SourceVM.compare ObjectVM.compare
  rw [ha, hb]
  cases s.reg d.ra with
  | line n => exact Keeps.unspecified
  | array k =>
      cases s.reg d.rb with
      | line n => exact Keeps.unspecified
      | array k' => exact Keeps.fault
      | word y => exact Keeps.fault
  | word x =>
      cases s.reg d.rb with
      | line n => exact Keeps.unspecified
      | array k => exact Keeps.fault
      | word y =>
          have hfpu : (L.object s).fpu = L.fpu := rfl
          simp only [cell, hfpu]
          cases compareFlag L.fpu x y with
          | some flag => exact Keeps.next rfl
          | none => exact Keeps.fault

/-- A push commutes with the reading. -/
theorem object_pushed (hroom : s.sp ≤ STACK_SIZE) (v : Value) :
    L.object (s.pushed v) = (L.object s).pushed (L.cell v) := by
  unfold ObjectVM.pushed
  rw [toNat_sp hroom, ← object_setSlot]
  show { L.object (s.setSlot s.sp v) with sp := BitVec.ofNat 64 (s.sp + 1) } = _
  have hsp : BitVec.ofNat 64 (s.sp + 1) = (L.object s).sp + 1 := by
    show _ = BitVec.ofNat 64 s.sp + 1
    bv_omega
  rw [hsp]

/-- A return is kept. -/
theorem keeps_returned :
    L.Keeps s.returned ((L.object s).execute next d .opRet) := by
  have hS : STACK_SIZE = 4096 := rfl
  have hfp : (L.object s).fp = L.cell s.fp := rfl
  unfold SourceVM.returned ObjectVM.execute
  rw [hfp]
  cases s.fp with
  | array k => exact Keeps.unspecified
  | line n => exact Keeps.unspecified
  | word fp =>
      simp only [cell]
      by_cases hrange : 2 ≤ fp.toNat ∧ fp.toNat ≤ STACK_SIZE
      · rw [if_pos hrange]
        have hret : (L.object s).stack (fp.toNat - 1) = L.cell (s.stack (fp.toNat - 1)) := rfl
        unfold ObjectVM.guarded ObjectVM.returned
        rw [if_pos hrange, hret]
        cases s.stack (fp.toNat - 1) with
        | word w => exact Keeps.unspecified
        | array k => exact Keeps.unspecified
        | line n =>
            refine Keeps.next ?_
            have hsp : fp - 2 = BitVec.ofNat 64 (fp.toNat - 2) := by bv_omega
            rw [hsp]
            rfl
      · rw [if_neg hrange]
        exact Keeps.unspecified

/-- An element of an array is the same one. -/
theorem object_element {k i : Nat} {words : List Word}
    (h : s.element d.rb d.rc = some (k, i, words)) : (L.object s).element d = some (k, i) := by
  obtain ⟨harray, ⟨w, hindex, hnum⟩, -, -⟩ := SourceVM.element_eq_some h
  have hrb : (L.object s).reg d.rb = L.cell (s.reg d.rb) := rfl
  have hrc : (L.object s).reg d.rc = L.cell (s.reg d.rc) := rfl
  unfold ObjectVM.element
  rw [hrb, hrc, harray, hindex]
  simp only [cell, Cell.number, hnum]

/-- **A line whose operands are registers.** -/
theorem keeps_operate (hroom : s.sp ≤ STACK_SIZE) (op : Opcode) :
    L.Keeps (s.operate L.fpu d.ra d.rb d.rc op) ((L.object s).execute next d op) := by
  have hS : STACK_SIZE = 4096 := rfl
  have hsp := toNat_sp (L := L) hroom
  have hshown : ∀ (f : List Output → SourceVM) (g : List Output → ObjectVM),
      (∀ out, g out = L.object (f out)) →
      L.Keeps (s.shown d.ra >>= fun text => .ok (f text))
        (.ok (g ((L.object s).reg d.ra).printed)) := by
    intro f g hfg
    have ha : (L.object s).reg d.ra = L.cell (s.reg d.ra) := rfl
    unfold SourceVM.shown
    rw [ha]
    cases s.reg d.ra with
    | word w => exact Keeps.next (hfg _)
    | array k => exact Keeps.next (hfg _)
    | line n => exact Keeps.unspecified
  cases op with
  | opAdd => exact keeps_arithmetic .add
  | opSub => exact keeps_arithmetic .sub
  | opMul => exact keeps_arithmetic .mul
  | opDiv => exact keeps_arithmetic .div
  | opCmp => exact keeps_compare
  | opRet => exact keeps_returned
  | opPush =>
      refine Keeps.guarded (fun h => ?_) fun _ => (object_pushed hroom _).symm
      rw [hsp]
      exact h
  | opPop =>
      refine Keeps.guarded (fun h => ?_) fun h => ?_
      · rw [hsp]
        exact ⟨h, hroom⟩
      · rw [object_setReg, hsp]
        have hless : (L.object s).sp - 1 = BitVec.ofNat 64 (s.sp - 1) := by
          show BitVec.ofNat 64 s.sp - 1 = _
          bv_omega
        rw [hless]
        rfl
  | opInsertIntoStack => exact Keeps.guarded id fun _ => (object_setSlot ..).symm
  | opReadFromStack => exact Keeps.guarded id fun _ => (object_setReg ..).symm
  | opArrInit =>
      have hb : (L.object s).reg d.rb = L.cell (s.reg d.rb) := rfl
      unfold SourceVM.operate ObjectVM.execute
      rw [hb]
      cases s.reg d.rb with
      | array k => exact Keeps.unspecified
      | line n => exact Keeps.unspecified
      | word w =>
          simp only [cell, Cell.number, Value.number]
          cases decodeInt w with
          | negSucc n => exact Keeps.unspecified
          | ofNat n =>
              exact Keeps.next (object_setReg { s with arrays := s.arrays ++ [List.replicate n 0] } d.ra
                (.array s.arrays.length)).symm
  | opArrInsert =>
      have ha : (L.object s).reg d.ra = L.cell (s.reg d.ra) := rfl
      unfold SourceVM.operate ObjectVM.execute
      rw [ha]
      cases helem : s.element d.rb d.rc with
      | none => exact Keeps.unspecified
      | some e =>
          obtain ⟨k, i, words⟩ := e
          obtain ⟨-, -, hwords, -⟩ := SourceVM.element_eq_some helem
          rw [object_element helem]
          cases s.reg d.ra with
          | array k => exact Keeps.unspecified
          | line n => exact Keeps.unspecified
          | word w =>
              refine Keeps.next ?_
              unfold ObjectVM.insert
              have harrays : (L.object s).arrays.modify k (fun words => words.set i w)
                  = s.arrays.set k (words.set i w) := by
                show s.arrays.modify k _ = _
                rw [List.modify_eq_set, hwords]
                rfl
              rw [harrays]
              rfl
  | opArrRead =>
      unfold SourceVM.operate ObjectVM.execute
      cases helem : s.element d.rb d.rc with
      | none => exact Keeps.unspecified
      | some e =>
          obtain ⟨k, i, words⟩ := e
          obtain ⟨-, -, hwords, hi⟩ := SourceVM.element_eq_some helem
          have hobject := object_element (L := L) helem
          have hlookup : (L.object s).lookup k i = some (words.getD i 0) := by
            have harrays : (L.object s).arrays[k]? = some words := hwords
            unfold ObjectVM.lookup
            rw [harrays, List.getD_eq_getElem?_getD, List.getElem?_eq_getElem hi]
            exact List.getElem?_eq_getElem hi
          simp only [hobject, hlookup]
          exact Keeps.next (object_setReg s d.ra (.word (words.getD i 0))).symm
  | opEnd =>
      exact hshown (fun text => { s with running := false, out := s.out ++ text })
        (fun text => { L.object s with running := false, out := (L.object s).out ++ text })
        fun _ => rfl
  | opDebugReturn =>
      exact hshown (fun text => { s with out := s.out ++ text })
        (fun text => { L.object s with out := (L.object s).out ++ text }) fun _ => rfl
  | opLoad64 => exact Keeps.unspecified
  | opJe => exact Keeps.unspecified
  | opJne => exact Keeps.unspecified
  | opJl => exact Keeps.unspecified
  | opJg => exact Keeps.unspecified
  | opCall => exact Keeps.unspecified
  | opMov => exact Keeps.unspecified

/-! ## §3. Lines. -/

section Lines

variable {p : Program} {l : SourceLine}

/-- An address in the image is a word. -/
theorem toNat_place (hp : Placed p L.code.bytes L.functionTable L.addr) (k : Nat) :
    (L.place k).toNat = L.addr k := by
  have hbound := hp.bound k
  have himage := L.code.addressable
  unfold place
  rw [BitVec.toNat_ofNat]
  omega

/-- The address behind a line. -/
theorem place_next (hp : Placed p L.code.bytes L.functionTable L.addr) {k : Nat}
    (hl : p.lines[k]? = some l) : L.place (k + 1) = L.place k + BitVec.ofNat 64 l.said.width := by
  unfold place
  rw [hp.next k l hl, BitVec.ofNat_add]

/-- The word of the image at an address. -/
theorem wordAt_object {a : Word} {w : BitVec 32} (h : readU32 L.code.bytes a.toNat = some w) :
    (L.object s).wordAt a = .ok w := by
  have hcode : (L.object s).code.bytes = L.code.bytes := rfl
  unfold ObjectVM.wordAt
  rw [hcode, h]

/-- **A step at a line** executes the instruction the line says. -/
theorem step_at {i : Nat} {instr : Instr} (hi : (L.place s.line).toNat = i)
    (hinstr : instrAt L.code.bytes i = some instr) :
    (L.object s).step = ((L.object s).fetched (L.place s.line + 4)).execute (L.place s.line + 4)
      ⟨instr.opcode.toByte, instr.ra, instr.rb, instr.rc⟩ instr.opcode := by
  obtain ⟨w, hw, hdecode, -⟩ := instrAt_eq_some hinstr
  subst hi
  have hop : Opcode.ofByte (decode w).opcode = some instr.opcode := by
    rw [hdecode]
    exact Opcode.ofByte_toByte _
  have hword := wordAt_object (s := s) hw
  have hip : (L.object s).ip = .word (L.place s.line) := rfl
  unfold ObjectVM.step
  simp only [hip, hword, bind, Except.bind, hop]
  rw [hdecode]

/-- A load puts what follows its word into the register. -/
theorem load_object {v : Word} (hbehind : (L.place s.line + 4).toNat = L.addr s.line + 4)
    (hnext : L.place (s.line + 1) = L.place s.line + 12)
    (hoperand : operandAt L.code.bytes (L.addr s.line + 4) .opLoad64 = some (.immediate v)) :
    ((L.object s).fetched (L.place s.line + 4)).execute (L.place s.line + 4) d .opLoad64
      = .ok (L.object (s.next.setReg d.ra (.word v))) := by
  have himage := L.code.addressable
  unfold operandAt at hoperand
  rw [if_pos rfl] at hoperand
  obtain ⟨hi, hhi, hoperand⟩ := Option.bind_eq_some_iff.1 hoperand
  obtain ⟨lo, hlo, hoperand⟩ := Option.bind_eq_some_iff.1 hoperand
  injection hoperand with hoperand
  injection hoperand with hoperand
  have hbound := readU32_bound hhi
  have hbehind' : (L.place s.line + 4 + 4).toNat = L.addr s.line + 4 + 4 := by bv_omega
  rw [← hbehind] at hhi
  rw [← hbehind'] at hlo
  have hfirst : ((L.object s).fetched (L.place s.line + 4)).wordAt (L.place s.line + 4) = .ok hi :=
    wordAt_object (s := s) hhi
  have hsecond : ((L.object s).fetched (L.place s.line + 4)).wordAt (L.place s.line + 4 + 4)
      = .ok lo := wordAt_object (s := s) hlo
  have hplace : L.place s.line + 4 + 4 + 4 = L.place (s.line + 1) := by
    rw [hnext]
    bv_omega
  unfold ObjectVM.execute
  simp only [hfirst, hsecond, bind, Except.bind, pure, Except.pure]
  rw [hoperand, hplace, object_setReg]
  rfl

/-- A branch goes to its target or steps over it. -/
theorem keeps_branch {op : Opcode} {label : Str → Option Nat} {name : Str} {target : Nat}
    {taken : Int → Bool} (htaken : ∀ flag, SourceVM.taken op flag = taken flag)
    (hbehind : (L.place s.line + 4).toNat = L.addr s.line + 4)
    (hnext : L.place (s.line + 1) = L.place s.line + 8) (hbranch : op.isBranch = true)
    (hoperand : operandAt L.code.bytes (L.addr s.line + 4) op
      = some (.target (BitVec.ofNat 32 target)))
    (htarget : ∀ n, label name = some n → target = L.addr n ∧ L.addr n < 2 ^ 32) :
    L.Keeps
      (if SourceVM.taken op s.jmpFlag then
        match label name with
        | some n => .ok { s with line := n }
        | none => .error .undefinedBehaviour
      else .ok s.next)
      (((L.object s).fetched (L.place s.line + 4)).branch (L.place s.line + 4) taken) := by
  have hflag : ((L.object s).fetched (L.place s.line + 4)).jmpFlag = s.jmpFlag := rfl
  unfold ObjectVM.branch
  rw [htaken, hflag]
  cases taken s.jmpFlag with
  | false =>
      refine Keeps.next ?_
      have hplace : L.place s.line + 4 + 4 = L.place (s.line + 1) := by
        rw [hnext]
        bv_omega
      rw [hplace]
      rfl
  | true =>
      unfold operandAt at hoperand
      rw [if_neg (by rintro rfl; cases hbranch), if_pos hbranch] at hoperand
      obtain ⟨t, ht, hoperand⟩ := Option.bind_eq_some_iff.1 hoperand
      injection hoperand with hoperand
      injection hoperand with hoperand
      rw [← hbehind] at ht
      have hword : ((L.object s).fetched (L.place s.line + 4)).wordAt (L.place s.line + 4)
          = .ok t := wordAt_object (s := s) ht
      cases hlabel : label name with
      | none => exact Keeps.unspecified
      | some n =>
          obtain ⟨haddr, hlt⟩ := htarget n hlabel
          refine (?_ : L.Keeps (.ok { s with line := n }) _)
          simp only [hword, bind, Except.bind, if_pos, pure, Except.pure]
          refine Keeps.next ?_
          -- the target has 32 bits, as the addresses of lines have that are branched to
          have hplace : t.setWidth 64 = L.place n := by
            unfold place
            apply BitVec.eq_of_toNat_eq
            rw [hoperand, haddr, BitVec.toNat_setWidth, BitVec.toNat_ofNat, BitVec.toNat_ofNat]
            omega
          rw [hplace]
          rfl

/-- A call enters its function. -/
theorem keeps_call {i : Int} (hp : Placed p L.code.bytes L.functionTable L.addr)
    (hroom : s.sp ≤ STACK_SIZE) (hindex : callIndex d.ra d.rb d.rc = i.toNat)
    (hfetched : (L.object s).fetched (L.place s.line + 4) = L.object s.next) :
    L.Keeps
      (match p.function i.toNat with
        | some (entry, size) =>
            SourceVM.guarded (s.sp + 2 + size ≤ STACK_SIZE) (s.next.called entry size)
        | none => .error .undefinedBehaviour)
      (((L.object s).fetched (L.place s.line + 4)).execute (L.place s.line + 4) d .opCall) := by
  have hS : STACK_SIZE = 4096 := rfl
  rw [hfetched]
  cases hfunction : p.function i.toNat with
  | none => exact Keeps.unspecified
  | some f =>
      obtain ⟨entry, size⟩ := f
      obtain ⟨hlt, hentry, hsize⟩ := hp.function _ entry size hfunction
      have hsp : (L.object s.next).sp.toNat = s.sp := toNat_sp (s := s.next) hroom
      refine Keeps.guarded (fun h => ?_) fun h => ?_
      · rw [hindex, hsp]
        exact ⟨hlt, by omega⟩
      · have hroom1 : (s.next.pushed s.fp).sp ≤ STACK_SIZE := by
          show s.sp + 1 ≤ STACK_SIZE
          omega
        have htable : (L.object s.next).functionTable = L.functionTable := rfl
        have hpushed : ((L.object s.next).pushed (L.object s.next).fp).pushed (L.object s.next).ip
            = L.object ((s.next.pushed s.fp).pushed (.line s.next.line)) := by
          rw [object_pushed hroom1, object_pushed (s := s.next) hroom]
          rfl
        have hfp : (L.object s.next).sp + 2 = BitVec.ofNat 64 (s.sp + 2) := by
          show BitVec.ofNat 64 s.sp + 2 = _
          bv_omega
        have hframe : BitVec.ofNat 64 (s.sp + 2)
            + (L.functionTable i.toNat).frameSize.setWidth 64 = BitVec.ofNat 64 (s.sp + 2 + size) := by
          bv_omega
        have hip : (L.functionTable i.toNat).entryIP.setWidth 64 = L.place entry := by
          unfold place
          have hentryLt := (L.functionTable i.toNat).entryIP.isLt
          apply BitVec.eq_of_toNat_eq
          rw [BitVec.toNat_setWidth, BitVec.toNat_ofNat, hentry]
        unfold ObjectVM.called
        rw [htable, hindex, hpushed, hfp, hframe, hip]
        rfl

/-- **Every line**: what the text promises of it, the object machine does. -/
theorem keeps_execute (hp : Placed p L.code.bytes L.functionTable L.addr)
    (hroom : s.sp ≤ STACK_SIZE) (hl : p.lines[s.line]? = some l) :
    L.Keeps (s.execute p L.fpu l) (L.object s).step := by
  obtain ⟨address, hinstr, htargets⟩ := hp.line _ l hl
  have hchecked := hp.checked _ l hl
  have hplace := toNat_place hp s.line
  have hnext := place_next hp hl
  have himage := L.code.addressable
  rw [step_at hplace hinstr]
  obtain ⟨w, hw, -, hoperand⟩ := instrAt_eq_some hinstr
  have hbound := readU32_bound hw
  have hbehind : (L.place s.line + 4).toNat = L.addr s.line + 4 := by bv_omega
  -- the machine behind the word of a line of four bytes
  have hfetched : l.said.width = 4 →
      (L.object s).fetched (L.place s.line + 4) = L.object s.next := by
    intro hwidth
    rw [hwidth] at hnext
    show { L.object s with ip := .word (L.place s.line + 4) } = _
    rw [show L.place s.line + 4 = L.place (s.line + 1) from hnext.symm]
    rfl
  obtain ⟨said, label⟩ := l
  unfold SourceVM.execute
  cases said with
  | regs op rs =>
      rw [hfetched rfl]
      exact keeps_operate (s := s.next) (d := ⟨_, SourceVM.register (rs.getD 0 0),
        SourceVM.register (rs.getD 1 0), SourceVM.register (rs.getD 2 0)⟩) hroom op
  | load dst literal =>
      refine Keeps.guarded_ok (fun _ => ?_)
      exact load_object (d := ⟨_, SourceVM.register dst, 0, 0⟩) hbehind hnext hoperand
  | branch op name =>
      have hbranch : op.isBranch = true := hchecked
      have htarget := fun n hn => htargets op name n rfl hn
      rcases Opcode.isBranch_iff.1 hbranch with rfl | rfl | rfl | rfl
      · exact keeps_branch (fun _ => rfl) hbehind hnext hbranch hoperand htarget
      · exact keeps_branch (fun _ => rfl) hbehind hnext hbranch hoperand htarget
      · exact keeps_branch (fun _ => rfl) hbehind hnext hbranch hoperand htarget
      · exact keeps_branch (fun _ => rfl) hbehind hnext hbranch hoperand htarget
  | call i =>
      obtain ⟨hlow, hhigh⟩ := hchecked
      exact keeps_call hp hroom (SourceInstr.callIndex_bytes (by omega)) (hfetched rfl)
  | mov dst src flag =>
      rw [hfetched rfl]
      refine Keeps.guarded (fun hflag => ?_) fun _ => (object_setReg ..).symm
      show BitVec.ofNat 8 flag.toNat = 0
      rw [hflag]
      rfl

/-- **A step of the source machine is a step of the object machine.** -/
theorem keeps_step (hp : Placed p L.code.bytes L.functionTable L.addr) (hroom : s.sp ≤ STACK_SIZE) :
    L.Keeps (s.step p L.fpu) (L.object s).step := by
  unfold SourceVM.step
  cases hl : p.lines[s.line]? with
  | none => exact Keeps.unspecified
  | some l => exact keeps_execute hp hroom hl

end Lines

end Layout

end SproutLang.Assembler
