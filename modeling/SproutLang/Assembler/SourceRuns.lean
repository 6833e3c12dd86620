/-
  SproutLang.Assembler.SourceRuns
  ───────────────────────────────
  **THE ASSEMBLER PRESERVES MEANING.**

  The object machine has the lines of the text for code, and the VM implements
  the object machine.  So the VM follows every run of the source machine, on
  the image the assembler makes of the text, line by line:

    • `Realizes.step`            — one line is one round of the VM,
    • `assembled_refines_source` — and so for runs, unless memory runs out or
                                   the VM gets where its collector is not safe.
-/
import SproutLang.Assembler.SourceSimulation
import SproutLang.VM.Faults

namespace SproutLang.Assembler

open Library

/-! ## §1. Stopping. -/

/-- The next instruction, if there is one, is safe. -/
def SafeNext (c : RootTrace) : Prop :=
  ∀ i opcode, readU32 c.vm.bytecode.bytes c.vm.ip.toNat = some i →
    Opcode.ofByte (decode i).opcode = some opcode → Safe c (opcode, decode i)

/-- **Where the VM need not follow**: `malloc` fails, or the next instruction is
not safe. -/
def MayStop (c : RootTrace) : Prop :=
  (∃ vm', iterate c.vm = .error .badAlloc vm') ∨ ¬ SafeNext c

/-! ## §2. One line. -/

/-- The line that an instruction of the VM executes. -/
def ExecutedAs (l : SourceLine) (i : Opcode × DecodedInstr) : Prop :=
  ∃ operand, l.said.Agrees ⟨i.1, i.2.ra, i.2.rb, i.2.rc, operand⟩

/-- **The VM is where the source machine is**, by way of the object machine. -/
structure Realizes (L : Layout) (c : RootTrace) (s : SourceVM) : Prop where
  follows : Follows c (L.object s)
  room : s.sp ≤ STACK_SIZE

section Line

variable {L : Layout} {p : Program} {c : RootTrace} {s s' : SourceVM} {l : SourceLine}

/-- The operand of a load is what it fetches. -/
theorem fetch64_of_operand {vm : VM} {v : Word} (hip : vm.ip.toNat + 4 < 2 ^ 48)
    (h : operandAt vm.bytecode.bytes (vm.ip.toNat + 4) .opLoad64 = some (.immediate v)) :
    value (fetch64 vm.fetched) = some v := by
  unfold operandAt at h
  rw [if_pos rfl] at h
  obtain ⟨hi, hhi, h⟩ := Option.bind_eq_some_iff.1 h
  obtain ⟨lo, hlo, h⟩ := Option.bind_eq_some_iff.1 h
  injection h with h
  injection h with h
  have hfirst : (vm.fetched.ip).toNat = vm.ip.toNat + 4 := by
    show (vm.ip + 4).toNat = _
    bv_omega
  have hsecond : (vm.fetched.ip + 4).toNat = vm.ip.toNat + 4 + 4 := by
    show (vm.ip + 4 + 4).toNat = _
    bv_omega
  rw [← hfirst] at hhi
  rw [← hsecond] at hlo
  unfold fetch64
  rw [bind_ok (fetch_ok hhi), bind_ok (fetch_ok hlo), h]
  rfl

/-- **A line the text gives a meaning looks at no address.** -/
theorem addressFree {rows : List HeapRow} {number : Nat → Nat} {address : Str → Nat}
    {d : DecodedInstr} {opcode : Opcode} (hm : Mirrors c rows number (L.object s))
    (hinstr : instrAt c.vm.bytecode.bytes c.vm.ip.toNat = some (l.said.instr address))
    (hop : opcode = (l.said.instr address).opcode)
    (hd : d = ⟨opcode.toByte, (l.said.instr address).ra, (l.said.instr address).rb,
      (l.said.instr address).rc⟩)
    (hchecked : l.said.Checked) (hmeaning : s.execute p L.fpu l ≠ .error .undefinedBehaviour)
    (hsafe : Safe c (opcode, d)) : AddressFree c.vm d opcode := by
  have hplain : ∀ {r : Byte} {w : Word}, s.reg r = .word w →
      c.vm.reg r = w ∧ isPointer (c.vm.reg r) = false := by
    intro r w hr
    have hcell : (L.object s).reg r = .word w := by
      show L.cell (s.reg r) = _
      rw [hr]
      rfl
    obtain ⟨hw, hnot⟩ := hm.reg_word hcell
    exact ⟨hw, by rw [hw]; exact hnot⟩
  -- an access of the text is in range, and the VM's is where it is safe
  have hrange : ∀ {k i : Nat} {words : List Word}, s.element d.rb d.rc = some (k, i, words) →
      decodeInt (c.vm.reg d.rc) + 2 < blockLength c.vm d.rb →
      InRange c.vm d ∧ isPointer (c.vm.reg d.rc) = false := by
    intro k i words helem hlt
    obtain ⟨harray, ⟨w, hindex, hnum⟩, -, -⟩ := SourceVM.element_eq_some helem
    obtain ⟨hw, hnot⟩ := hplain hindex
    have hptr : SameKind (c.vm.reg d.rb) (L.cell (s.reg d.rb)) := hm.cells.regs d.rb
    rw [harray] at hptr
    have hnonneg : 0 ≤ decodeInt (c.vm.reg d.rc) := by
      rw [hw, hnum]
      exact Int.natCast_nonneg i
    exact ⟨⟨hptr, hnonneg, by omega⟩, hnot⟩
  obtain ⟨said, label⟩ := l
  cases said with
  | load dst literal =>
      have hplainLiteral : isPointer (BitVec.ofNat 64 literal) = false := by
        by_contra hptr
        exact hmeaning (if_neg hptr)
      obtain ⟨w, hw, -, hoperand⟩ := instrAt_eq_some hinstr
      have hbound := readU32_bound hw
      have himage := c.vm.bytecode.addressable
      have hfetch := fetch64_of_operand (by omega) hoperand
      subst hop
      show (value (fetch64 c.vm.fetched)).all _ = true
      rw [hfetch]
      show (!isPointer (BitVec.ofNat 64 literal)) = true
      rw [hplainLiteral]
      rfl
  | branch op name =>
      have hbranch : op.isBranch = true := hchecked
      have hop : opcode = op := hop
      subst hop
      rcases Opcode.isBranch_iff.1 hbranch with rfl | rfl | rfl | rfl <;> trivial
  | call i =>
      subst hop
      trivial
  | mov dst src flag =>
      have hflag : flag = 0 := by
        by_contra hne
        exact hmeaning (if_neg hne)
      subst hop hd
      show BitVec.ofNat 8 flag.toNat = 0
      rw [hflag]
      rfl
  | regs op rs =>
      have hop : opcode = op := hop
      subst hop
      have hmeaning : s.next.operate L.fpu d.ra d.rb d.rc opcode ≠ .error .undefinedBehaviour := by
        rw [hd]
        exact hmeaning
      cases opcode with
      | opArrInit =>
          show isPointer (c.vm.reg d.rb) = false
          cases hb : s.reg d.rb with
          | word w => exact (hplain hb).2
          | array | line =>
              refine absurd ?_ hmeaning
              unfold SourceVM.operate
              rw [show s.next.reg d.rb = s.reg d.rb from rfl, hb]
              rfl
      | opArrInsert =>
          cases helem : s.element d.rb d.rc with
          | none =>
              refine absurd ?_ hmeaning
              unfold SourceVM.operate
              rw [show s.next.element d.rb d.rc = s.element d.rb d.rc from rfl, helem]
          | some e =>
              obtain ⟨k, i, words⟩ := e
              obtain ⟨hin, hindex⟩ := hrange helem hsafe
              refine ⟨hin, hindex, ?_⟩
              cases ha : s.reg d.ra with
              | word w => exact (hplain ha).2
              | array | line =>
                  refine absurd ?_ hmeaning
                  unfold SourceVM.operate
                  rw [show s.next.element d.rb d.rc = s.element d.rb d.rc from rfl, helem,
                    show s.next.reg d.ra = s.reg d.ra from rfl, ha]
      | opArrRead =>
          cases helem : s.element d.rb d.rc with
          | none =>
              refine absurd ?_ hmeaning
              unfold SourceVM.operate
              rw [show s.next.element d.rb d.rc = s.element d.rb d.rc from rfl, helem]
          | some e => exact hrange helem hsafe
      | opMov => exact absurd rfl hmeaning
      | opLoad64 => exact absurd rfl hmeaning
      | _ => trivial

/-- The VM is at the instruction of the line. -/
theorem Realizes.instruction (h : Realizes L c s)
    (hp : Placed p L.code.bytes L.functionTable L.addr) (hl : p.lines[s.line]? = some l) :
    ∃ w address, instrAt c.vm.bytecode.bytes c.vm.ip.toNat = some (l.said.instr address) ∧
      readU32 c.vm.bytecode.bytes c.vm.ip.toNat = some w ∧
      Opcode.ofByte (decode w).opcode = some (l.said.instr address).opcode ∧
      decode w = ⟨(l.said.instr address).opcode.toByte, (l.said.instr address).ra,
        (l.said.instr address).rb, (l.said.instr address).rc⟩ := by
  obtain ⟨address, hinstr, -⟩ := hp.line _ l hl
  have hcode : L.code = c.vm.bytecode := h.follows.control.code
  have hip : SameKind c.vm.ip (.word (L.place s.line)) := h.follows.control.ip
  rw [← Layout.toNat_place hp, hip.1, hcode] at hinstr
  obtain ⟨w, hw, hdecode, -⟩ := instrAt_eq_some hinstr
  refine ⟨w, address, hinstr, hw, ?_, hdecode⟩
  rw [hdecode]
  exact Opcode.ofByte_toByte _

/-- The stack pointer has the room that a line with a meaning asks for. -/
theorem Realizes.limit (h : Realizes L c s) (hp : Placed p L.code.bytes L.functionTable L.addr)
    (hl : p.lines[s.line]? = some l)
    (hmeaning : s.execute p L.fpu l ≠ .error .undefinedBehaviour) {vm' : VM}
    (hrun : iterate c.vm = .ok () vm') : vm'.sp.toNat ≤ STACK_SIZE := by
  have hchecked := hp.checked _ l hl
  obtain ⟨w, address, -, hw, hop, hdecode⟩ := h.instruction hp hl
  obtain ⟨w', opcode', hw', hop', heffect⟩ := iterate_effect hrun
  obtain rfl : w = w' := Option.some.inj (hw.symm.trans hw')
  obtain rfl : (l.said.instr address).opcode = opcode' := Option.some.inj (hop.symm.trans hop')
  have hsp : c.vm.sp.toNat = s.sp := by
    rw [← h.follows.control.sp]
    exact Layout.toNat_sp h.room
  refine heffect.limit (le_of_eq_of_le hsp h.room) fun hcall => ?_
  obtain ⟨said, label⟩ := l
  cases said with
  | call i =>
      obtain ⟨hlow, hhigh⟩ := hchecked
      have hindex : callIndex (decode w).ra (decode w).rb (decode w).rc = i.toNat := by
        rw [hdecode]
        exact SourceInstr.callIndex_bytes (by omega)
      cases hfunction : p.function i.toNat with
      | none =>
          refine absurd ?_ hmeaning
          unfold SourceVM.execute
          simp only [hfunction]
      | some f =>
          obtain ⟨entry, size⟩ := f
          have hsize := (hp.function _ entry size hfunction).2.2
          have htable : L.functionTable = c.vm.functionTable := h.follows.control.functionTable
          have hfits : s.sp + 2 + size ≤ STACK_SIZE := by
            by_contra hbig
            refine hmeaning ?_
            unfold SourceVM.execute
            simp only [hfunction]
            exact if_neg hbig
          show c.vm.sp.toNat + 2 + (c.vm.functionTable _).frameSize.toNat ≤ STACK_SIZE
          rw [hindex, ← htable, hsize, hsp]
          exact hfits
  | regs op rs =>
      have hop : op = .opCall := hcall
      subst hop
      exact absurd rfl hmeaning
  | branch op name =>
      have hbranch : op.isBranch = true := hchecked
      have hop : op = .opCall := hcall
      subst hop
      cases hbranch
  | load dst literal => exact Opcode.noConfusion hcall
  | mov dst src flag => exact Opcode.noConfusion hcall

/-- **The round that executes a line** agrees with the step of the object
machine. -/
theorem Realizes.agrees (h : Realizes L c s) (hp : Placed p L.code.bytes L.functionTable L.addr)
    (hrunning : s.running = true) (hl : p.lines[s.line]? = some l)
    (hmeaning : s.execute p L.fpu l ≠ .error .undefinedBehaviour) (hsafe : SafeNext c) :
    ∃ w address, readU32 c.vm.bytecode.bytes c.vm.ip.toNat = some w ∧
      Opcode.ofByte (decode w).opcode = some (l.said.instr address).opcode ∧
      decode w = ⟨(l.said.instr address).opcode.toByte, (l.said.instr address).ra,
        (l.said.instr address).rb, (l.said.instr address).rc⟩ ∧
      Tame c ((l.said.instr address).opcode, decode w) ∧
      Agrees (fun slot => staleAfter c (decode w) slot (l.said.instr address).opcode)
        (staleFpAfter c (l.said.instr address).opcode) (iterate c.vm) (L.object s).step := by
  obtain ⟨rows, number, hm⟩ := h.follows.mirrored (h.follows.control.running.symm.trans hrunning)
  obtain ⟨w, address, hinstr, hw, hop, hdecode⟩ := h.instruction hp hl
  have hs := hsafe w _ hw hop
  have hfree : AddressFree c.vm (decode w) (l.said.instr address).opcode :=
    addressFree hm hinstr rfl hdecode (hp.checked _ l hl) hmeaning hs
  exact ⟨w, address, hw, hop, hdecode, ⟨hfree, hs⟩,
    hm.agrees_iterate hw hop ⟨hfree, hs⟩ fun vm' hrun => h.limit hp hl hmeaning hrun⟩

/-- **One line is one round.** -/
theorem Realizes.step (h : Realizes L c s) (hp : Placed p L.code.bytes L.functionTable L.addr)
    (hstep : SourceVM.Step p L.fpu s l s') :
    MayStop c ∨ ∃ i c', Guarded TraceStep Safe c i c' ∧ ExecutedAs l i ∧ Realizes L c' s' := by
  obtain ⟨hrunning, hl, hrun⟩ := hstep
  by_cases hsafe : SafeNext c
  · obtain ⟨w, address, hw, hop, hdecode, ⟨-, hs⟩, hagrees⟩ := h.agrees hp hrunning hl
      (by rw [hrun]; simp) hsafe
    have hkeeps := Layout.keeps_execute hp h.room hl
    rw [hrun] at hkeeps
    have hroom := (SourceVM.execute_kept hrun h.room).1
    have hcontrol := h.follows.control
    have hvm : c.vm.running = true := hcontrol.running.symm.trans hrunning
    -- the flag of a `mov` that has a meaning is zero
    have hflag : l.said.FlagFits := by
      obtain ⟨said, label⟩ := l
      cases said with
      | mov dst src flag =>
          obtain ⟨hzero, -⟩ := SourceVM.guarded_eq_ok hrun
          show flag ≤ 255
          omega
      | regs | load | branch | call => trivial
    have hexecuted : ExecutedAs l ((l.said.instr address).opcode, decode w) := by
      refine ⟨(l.said.instr address).operand, ?_⟩
      rw [hdecode]
      exact SourceInstr.agrees_instr address (hp.checked _ l hl) hflag
    generalize hm' : (L.object s).step = r at hkeeps hagrees
    cases hkeeps with
    | next result =>
        subst result
        generalize hiterate : iterate c.vm = e at hagrees
        cases hagrees with
        | @next vm' _ mirrored =>
            obtain ⟨rows', number', hmirrors⟩ := mirrored
            have hsp : vm'.sp.toNat = s'.sp := by
              rw [← hmirrors.control.sp]
              exact Layout.toNat_sp hroom
            exact Or.inr ⟨(_, decode w), ⟨vm', _, _⟩,
              ⟨⟨⟨hvm, ⟨w, hw, rfl⟩, hop, hiterate, by rw [hsp]; exact hroom⟩, rfl, rfl⟩, hs⟩,
              hexecuted, ⟨hmirrors.control, fun _ => ⟨rows', number', hmirrors⟩⟩, hroom⟩
        | @halted vm' _ stopped control =>
            have hsp : vm'.sp.toNat = s'.sp := by
              rw [← control.sp]
              exact Layout.toNat_sp hroom
            refine Or.inr ⟨(_, decode w), ⟨vm', _, _⟩,
              ⟨⟨⟨hvm, ⟨w, hw, rfl⟩, hop, hiterate, by rw [hsp]; exact hroom⟩, rfl, rfl⟩, hs⟩,
              hexecuted, ⟨control, fun hgoes => ?_⟩, hroom⟩
            have hgoes : vm'.running = true := hgoes
            rw [stopped] at hgoes
            exact absurd hgoes Bool.false_ne_true
        | exhausted => exact Or.inl (Or.inl ⟨_, hiterate⟩)
  · exact Or.inl (Or.inr hsafe)

/-- **A runtime error of a line** is one of the round. -/
theorem Realizes.fault (h : Realizes L c s) (hp : Placed p L.code.bytes L.functionTable L.addr)
    (hrunning : s.running = true) {e : String} (hfault : s.step p L.fpu = .error (.runtimeError e)) :
    MayStop c ∨ ∃ vm', iterate c.vm = .error (.runtimeError e) vm' := by
  by_cases hsafe : SafeNext c
  · have hkeeps := Layout.keeps_step hp h.room
    rw [hfault] at hkeeps
    unfold SourceVM.step at hfault
    cases hl : p.lines[s.line]? with
    | none =>
        rw [hl] at hfault
        cases hfault
    | some l =>
        rw [hl] at hfault
        simp only at hfault
        obtain ⟨w, address, -, -, -, -, hagrees⟩ := h.agrees hp hrunning hl
          (by rw [hfault]; simp) hsafe
        generalize hm' : (L.object s).step = r at hkeeps hagrees
        cases hkeeps with
        | fault =>
            generalize hiterate : iterate c.vm = e' at hagrees
            cases hagrees with
            | fault => exact Or.inr ⟨_, rfl⟩
            | exhausted => exact Or.inl (Or.inl ⟨_, hiterate⟩)
  · exact Or.inl (Or.inr hsafe)

end Line

/-! ## §3. Runs. -/

/-- **What the VM shows of the source machine**: its control and output, and
while it runs the words of its registers and slots, the addresses of the lines
its calls return to, and the arrays its registers hold, but for the last two
elements of each. -/
structure Shows (addr : Nat → Nat) (s : SourceVM) (vm : VM) : Prop where
  running : vm.running = s.running
  out : vm.out = s.out
  jmpFlag : vm.jmpFlag = s.jmpFlag
  sp : vm.sp.toNat = s.sp
  line : s.running = true → vm.ip.toNat = addr s.line
  reg : s.running = true → ∀ r w, s.reg r = .word w → vm.reg r = w
  slot : s.running = true → ∀ i w, s.stack i = .word w → vm.stack i = w
  returns : s.running = true → ∀ i n, s.stack i = .line n → (vm.stack i).toNat = addr n
  array : s.running = true → ∀ r k words, s.reg r = .array k → s.arrays[k]? = some words →
    ∀ i, i + 2 < words.length →
      words[i]? = some (vm.store.word (decodePointer (vm.reg r) + (24 + 8 * i)))

section Runs

variable {L : Layout} {p : Program} {c : RootTrace} {s : SourceVM}

/-- **A realized state is shown by the machine.** -/
theorem Realizes.shows (h : Realizes L c s) (hp : Placed p L.code.bytes L.functionTable L.addr) :
    Shows L.addr s c.vm := by
  have hcontrol := h.follows.control
  have hmirrored : s.running = true → Mirrored c (L.object s) := fun hrunning =>
    h.follows.mirrored (hcontrol.running.symm.trans hrunning)
  refine ⟨hcontrol.running.symm, hcontrol.out.symm, hcontrol.jmpFlag.symm, ?_, fun _ => ?_,
    fun hrunning r w hr => ?_, fun hrunning i w hi => ?_, fun hrunning i n hi => ?_,
    fun hrunning r k words hr hwords i hi => ?_⟩
  · rw [← hcontrol.sp]
    exact Layout.toNat_sp h.room
  · have hip : SameKind c.vm.ip (.word (L.place s.line)) := hcontrol.ip
    rw [← Layout.toNat_place hp, hip.1]
  · obtain ⟨rows, number, hm⟩ := hmirrored hrunning
    have hsame : SameKind (c.vm.reg r) (L.cell (s.reg r)) := hm.cells.regs r
    rw [hr] at hsame
    exact hsame.1.symm
  · obtain ⟨rows, number, hm⟩ := hmirrored hrunning
    have hsame : SameKind (c.vm.stack i) (L.cell (s.stack i)) := hm.cells.slots i
    rw [hi] at hsame
    exact hsame.1.symm
  · obtain ⟨rows, number, hm⟩ := hmirrored hrunning
    have hsame : SameKind (c.vm.stack i) (L.cell (s.stack i)) := hm.cells.slots i
    rw [hi] at hsame
    rw [← Layout.toNat_place hp]
    exact congrArg BitVec.toNat hsame.1.symm
  · -- the block that the register points to has the number of the array
    obtain ⟨rows, number, hm⟩ := hmirrored hrunning
    have hptr : SameKind (c.vm.reg r) (L.cell (s.reg r)) := hm.cells.regs r
    rw [hr] at hptr
    obtain ⟨b, hb, hdecode⟩ := hm.rooted.regs r hptr
    have hnumber : L.cell (s.reg r) = .array (number b.1) :=
      hm.cells.regsNumbered r hptr b hb hdecode
    rw [hr] at hnumber
    have hk : k = number b.1 := Cell.array.inj hnumber
    obtain ⟨words', hwords', hholds⟩ := hm.array hb
    have hwords' : s.arrays[number b.1]? = some words' := hwords'
    rw [← hk, hwords] at hwords'
    injection hwords' with hwords'
    subst hwords'
    rw [hdecode, show b.1 + 16 + (24 + 8 * i) = b.1 + (40 + 8 * i) by omega]
    exact hholds.elements i hi

end Runs

/-- **Both machines start at the first line.** -/
theorem Realizes.start {py : Python} {text : Str} {image : Image} {max : Nat}
    {allocator : Allocator} {fpu : Fpu} {vm : VM} (h : assemble py text = .ok image.bytes)
    (hinit : initWith max (VM.zeroed image allocator fpu) = .ok () vm)
    (hfits : TableFits py text) (hfound : FoundAsMeant py (scopesOf py (readlines text)))
    (hflags : ∀ toks ∈ instrLines py text, LineFlagFits py toks) :
    ∃ addr, Placed (programOf py text) image.bytes vm.functionTable addr ∧
      Realizes ⟨image, vm.functionTable, fpu, addr⟩ (RootTrace.start vm) SourceVM.start := by
  obtain ⟨addr, hplaced, hstart⟩ := assemble_placed (VM.zeroed image allocator fpu) h
    (fun _ => rfl) hinit hfits hfound hflags
  refine ⟨addr, hplaced, ?_, Nat.zero_le _⟩
  let L : Layout := ⟨image, vm.functionTable, fpu, addr⟩
  have hplace : L.place 0 = vm.ip := by
    show BitVec.ofNat 64 (addr 0) = vm.ip
    rw [hstart]
    exact BitVec.ofNat_toNat .. |>.trans (BitVec.setWidth_eq _)
  have hobject : ObjectVM.start vm = L.object SourceVM.start := by
    show _ = { L.object SourceVM.start with ip := .word (L.place 0) }
    rw [hplace]
    obtain ⟨header, table, -, -, rfl⟩ := initWith_effect hinit
    rfl
  have hfollows := Follows.start hinit
  rw [hobject] at hfollows
  exact hfollows

section Arrayless

variable {L : Layout} {p : Program} {c c' : RootTrace} {s : SourceVM} {l : SourceLine}

/-- An instruction keeps its opcode in the image. -/
theorem opcode_instr (address : Str → Nat) (said : SourceInstr) :
    (said.instr address).opcode = said.opcode := by
  cases said <;> rfl

/-- **Without arrays the VM does not stop.** -/
theorem Realizes.goesOn (h : Realizes L c s) (hp : Placed p L.code.bytes L.functionTable L.addr)
    (hrunning : s.running = true) (hl : p.lines[s.line]? = some l)
    (hmeaning : s.execute p L.fpu l ≠ .error .undefinedBehaviour) (hfresh : Fresh c)
    (hnone : s.arrays = []) (hno : l.said.opcode ≠ .opArrInit) : ¬ MayStop c := by
  have hsafe : SafeNext c := by
    intro i opcode hi hop
    obtain ⟨w, address, -, hw, hop', -⟩ := h.instruction hp hl
    obtain rfl : w = i := Option.some.inj (hw.symm.trans hi)
    rw [hop, opcode_instr, Option.some.injEq] at hop'
    -- an access to an array has no meaning here
    have haccess : ∀ op, l.said.opcode = op → op = .opArrInsert ∨ op = .opArrRead → False := by
      intro op hsaid hop
      obtain ⟨said, label⟩ := l
      cases said with
      | regs op' rs =>
          have hsame : op' = op := hsaid
          subst hsame
          refine hmeaning ?_
          show s.next.operate L.fpu _ _ _ op' = _
          have helem : ∀ a b, s.next.element a b = none := fun a b =>
            SourceVM.element_of_none hnone
          rcases hop with rfl | rfl <;> simp only [SourceVM.operate, helem]
      | branch op' name =>
          have hbranch : op'.isBranch = true := hp.checked _ _ hl
          have hsame : op' = op := hsaid
          subst hsame
          rcases hop with rfl | rfl <;> cases hbranch
      | load | call | mov =>
          subst hsaid
          rcases hop with hop | hop <;> cases hop
    cases opcode with
    | opArrInit => exact absurd hop'.symm hno
    | opArrInsert => exact (haccess _ hop'.symm (Or.inl rfl)).elim
    | opArrRead => exact (haccess _ hop'.symm (Or.inr rfl)).elim
    | opCall => exact ⟨hfresh.fp, fun slot _ _ => hfresh.slots slot⟩
    | opRet => exact fun slot _ _ => hfresh.slots slot
    | opReadFromStack => exact hfresh.slots _
    | _ => trivial
  intro hstop
  rcases hstop with ⟨vm', hbad⟩ | hnot
  · obtain ⟨w, address, hw, hop, -, htame, -⟩ := h.agrees hp hrunning hl hmeaning hsafe
    obtain ⟨rows, number, hm⟩ := h.follows.mirrored (h.follows.control.running.symm.trans hrunning)
    rw [iterate_of_word hw hop] at hbad
    rcases hm.executeOp_fails _ (hm.fetched_word hw).2.2 htame with hfails | ⟨harr, -⟩
    · cases hfault : faultOf c.vm.fetched (decode w) (l.said.instr address).opcode with
      | none =>
          rw [hfault] at hfails
          obtain ⟨_, hok⟩ := hfails
          rw [hok] at hbad
          cases hbad
      | some e =>
          rw [hfault] at hfails
          obtain ⟨_, herror⟩ := hfails
          rw [herror] at hbad
          injection hbad with he
          rw [he] at hfault
          exact faultOf_ne_badAlloc _ _ _ hfault
    · rw [opcode_instr] at harr
      exact hno harr
  · exact hnot hsafe

end Arrayless

/-- **A program without arrays runs as its source says.**  Under the conditions
of `assembled_refines_source`, and if no line is an `arr`, every run of the
source machine is followed to its end, by as many rounds of the VM, and each
runtime error of the source is one of the VM. -/
theorem arrayless_runs_source {py : Python} {text : Str} {image : Image} (max : Nat)
    (allocator : Allocator) (fpu : Fpu) {vm : VM} (h : assemble py text = .ok image.bytes)
    (hinit : initWith max (VM.zeroed image allocator fpu) = .ok () vm)
    (hfits : TableFits py text) (hfound : FoundAsMeant py (scopesOf py (readlines text)))
    (hflags : ∀ toks ∈ instrLines py text, LineFlagFits py toks)
    (hno : ∀ toks ∈ instrLines py text, mnemonicOf py toks ≠ some .opArrInit)
    {ls : List SourceLine} {s : SourceVM}
    (hrun : Steps (SourceVM.Step (programOf py text) fpu) SourceVM.start ls s) :
    ∃ addr is c, Placed (programOf py text) image.bytes vm.functionTable addr ∧
      Steps (Guarded TraceStep Safe) (RootTrace.start vm) is c ∧ List.Forall₂ ExecutedAs ls is ∧
      Shows addr s c.vm ∧
      ∀ e, s.running = true → s.step (programOf py text) fpu = .error (.runtimeError e) →
        ∃ vm', iterate c.vm = .error (.runtimeError e) vm' := by
  obtain ⟨addr, hplaced, h0⟩ := Realizes.start h hinit hfits hfound hflags
  have hline : ∀ (k : Nat) l, (programOf py text).lines[k]? = some l →
      l.said.opcode ≠ .opArrInit := by
    intro k l hl harr
    have hmem : l.said ∈ (codesOf py (scopesOf py (readlines text))).flatten := by
      rw [← said_linesFrom _ 0]
      exact List.mem_map_of_mem (List.mem_of_getElem? hl)
    obtain ⟨toks, htoks, hread⟩ := mem_codesOf hmem
    obtain ⟨op, hop, hsaid⟩ := readLine_eq_some hread
    rw [← (readInstr_effect hsaid).1, harr] at hop
    exact hno toks htoks hop
  have hfresh : Fresh (RootTrace.start vm) := ⟨fun _ => id, id⟩
  -- a round keeps the relation, for it cannot stop
  have hround : ∀ s l s' c,
      (Realizes ⟨image, vm.functionTable, fpu, addr⟩ c s ∧ Fresh c ∧ s.arrays = []) →
      SourceVM.Step (programOf py text) fpu s l s' →
      False ∨ ∃ i c', Guarded TraceStep Safe c i c' ∧ ExecutedAs l i ∧
        Realizes ⟨image, vm.functionTable, fpu, addr⟩ c' s' ∧ Fresh c' ∧ s'.arrays = [] := by
    intro s l s' c hbefore hstep
    obtain ⟨hrealizes, hfresh, hnone⟩ := hbefore
    refine Or.inr ?_
    have hgoes := hrealizes.goesOn hplaced hstep.running hstep.line (by rw [hstep.run]; simp) hfresh
      hnone (hline _ l hstep.line)
    rcases hrealizes.step hplaced hstep with hstop | ⟨i, c', hround, hexecuted, hrealizes'⟩
    · exact absurd hstop hgoes
    · obtain ⟨operand, hagrees⟩ := hexecuted
      have hop : i.1 ≠ .opArrInit := by
        rw [show i.1 = l.said.opcode from hagrees.opcode_eq]
        exact hline _ l hstep.line
      have hfresh' : Fresh c' :=
        hfresh.after hround.1.stale hround.1.staleFp fun harr => absurd harr hop
      exact ⟨i, c', hround, ⟨operand, hagrees⟩, hrealizes', hfresh',
        (SourceVM.execute_kept hstep.run hrealizes.room).2 (hline _ l hstep.line) hnone⟩
  rcases hrun.simulate_until
      (fun s c => Realizes ⟨image, vm.functionTable, fpu, addr⟩ c s ∧ Fresh c ∧ s.arrays = [])
      (fun _ => False) ⟨h0, hfresh, rfl⟩ hround with
    ⟨is, c, hsteps, hexecuted, hrealizes, hfresh, hnone⟩ | ⟨_, _, _, _, _, _, _, _, hnever⟩
  · refine ⟨addr, is, c, hplaced, hsteps, hexecuted, hrealizes.shows hplaced,
      fun e hrunning hfault => ?_⟩
    rcases hrealizes.fault hplaced hrunning hfault with hstop | hfails
    · -- the line with the runtime error is one that has a meaning
      unfold SourceVM.step at hfault
      cases hl : (programOf py text).lines[s.line]? with
      | none =>
          rw [hl] at hfault
          cases hfault
      | some l =>
          rw [hl] at hfault
          simp only at hfault
          exact absurd hstop (hrealizes.goesOn hplaced hrunning hl (by rw [hfault]; simp) hfresh
            hnone (hline _ l hl))
    · exact hfails
  · exact hnever.elim

/-- A program that counts down from three in a function of its own. -/
def countDownText : Str :=
  (".func main\nload r1 3\nload r2 1\nload r3 0\nloop:\ncall 1\ncmp r1 r3\njne @loop\nend r1\n"
    ++ ".endfunc\n.func dec\nsub r1 r1 r2\nret\n.endfunc\n").toList

/-- Its run. -/
def countDownRun : List SourceLine × SourceVM :=
  SourceVM.follow (programOf Python.ascii countDownText) Fpu.quiet 40 SourceVM.start

/-- The VM runs all its 19 lines and prints zero. -/
theorem arrayless_runs_source_countDown :
    ∃ (image : Image) (vm : VM) (is : List (Opcode × DecodedInstr)) (c : RootTrace),
      image.bytes = imageOf countDownText ∧ countDownRun.1.length = 19 ∧
      Steps (Guarded TraceStep Safe) (RootTrace.start vm) is c ∧
      List.Forall₂ ExecutedAs countDownRun.1 is ∧ c.vm.running = false ∧ c.vm.out = [.int 0] := by
  have hfacts : (TableFits Python.ascii countDownText ∧
      FoundAsMeant Python.ascii (scopesOf Python.ascii (readlines countDownText)) ∧
      (∀ toks ∈ instrLines Python.ascii countDownText, LineFlagFits Python.ascii toks) ∧
      ∀ toks ∈ instrLines Python.ascii countDownText,
        mnemonicOf Python.ascii toks ≠ some .opArrInit) ∧
      assemble Python.ascii countDownText = .ok (imageOf countDownText) ∧
      (imageOf countDownText).length < 2 ^ 48 := by
    unfold countDownText
    rewrite [String.toList_append, String.toList_ofList, String.toList_ofList]
    decide +kernel
  obtain ⟨⟨hfits, hfound, hflags, hno⟩, hassemble, hlen⟩ := hfacts
  have hinit : ∀ h, value (initWith HEAPSIZE (machineOf countDownText h)) = some () := by
    unfold countDownText
    rewrite [String.toList_append, String.toList_ofList, String.toList_ofList]
    decide +kernel
  have hrun : countDownRun.1.length = 19 ∧ countDownRun.2.running = false ∧
      countDownRun.2.out = [.int 0] := by
    unfold countDownRun countDownText
    rewrite [String.toList_append, String.toList_ofList, String.toList_ofList]
    decide +kernel
  obtain ⟨hlength, hended, hout⟩ := hrun
  have himage : assemble Python.ascii countDownText =
      .ok (Image.mk (imageOf countDownText) hlen).bytes := by
    rw [hassemble]
  have hsteps : Steps (SourceVM.Step (programOf Python.ascii countDownText) Fpu.quiet)
      SourceVM.start countDownRun.1 countDownRun.2 := SourceVM.steps_follow ..
  obtain ⟨addr, is, c, -, hc, hexecuted, hshows, -⟩ := arrayless_runs_source HEAPSIZE
    Allocator.ascending Fpu.quiet himage (ok_of_value (hinit hlen)) hfits hfound hflags hno hsteps
  exact ⟨⟨imageOf countDownText, hlen⟩, _, is, c, by dsimp only, hlength, hc, hexecuted,
    hshows.running.trans hended, hshows.out.trans hout⟩

end SproutLang.Assembler
