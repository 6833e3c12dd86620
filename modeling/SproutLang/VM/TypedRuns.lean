/-
  SproutLang.VM.TypedRuns
  ───────────────────────
  **RUNS OF THE TYPED MACHINE ARE RUNS OF THE VM.**

  A step the typed machine takes is in its scope, so the VM takes it too
  (`Refines.follows`).  What is shown of a program on typed values up to its
  `end` is then shown of the VM: `run_of_typed`.
-/
import SproutLang.VM.TypedRefinement
import SproutLang.VM.InstructionStream
import SproutLang.Library.Leads

namespace SproutLang

open Library

/-! ## §1. Steps that are taken are in the scope. -/

section Scope

variable {vm : VM} {m m' : TypedVM} {d : DecodedInstr} {w v : Word}

/-- Arithmetic with a result is not on two doubles, and divides by no zero. -/
theorem Value.arith_scope {op : Arith} {x : Value} (h : (ofWord w).arith op (ofWord v) = .ok x) :
    (isDouble w && isDouble v) = false ∧
      (op = .div → ¬ (isInt w ∧ isInt v ∧ decodeInt v = 0)) := by
  constructor
  · rw [Bool.eq_false_iff]
    intro hdouble
    rw [Bool.and_eq_true] at hdouble
    rw [ofWord_of_isDouble hdouble.1, ofWord_of_isDouble hdouble.2] at h
    cases h
  · intro hop hzero
    rw [ofWord_of_isInt hzero.1, ofWord_of_isInt hzero.2.1] at h
    have hleft : (Value.int (Int48.ofWord w)).arith op (.int (Int48.ofWord v)) = .error .outside :=
      if_pos ⟨hop, hzero.2.2⟩
    rw [hleft] at h
    cases h

/-- What the typed machine compares are not two doubles. -/
theorem Value.compare_scope {relation : Relation}
    (h : (ofWord w).compare (ofWord v) = .ok relation) : (isDouble w && isDouble v) = false := by
  rw [Bool.eq_false_iff]
  intro hdouble
  rw [Bool.and_eq_true] at hdouble
  rw [ofWord_of_isDouble hdouble.1, ofWord_of_isDouble hdouble.2] at h
  cases h

/-- Where its arithmetic has a result, the VM's is in scope. -/
theorem Refines.arithmetic_scope (h : Refines vm m) (op : Arith)
    (hrun : m.arithmetic op d = .ok m') :
    (isDouble (vm.reg d.rb) && isDouble (vm.reg d.rc)) = false ∧
      (op = .div → ¬ (isInt (vm.reg d.rb) ∧ isInt (vm.reg d.rc) ∧ decodeInt (vm.reg d.rc) = 0)) := by
  obtain ⟨x, hx, -⟩ := except_bind_eq_ok hrun
  rw [h.reg, h.reg] at hx
  exact Value.arith_scope hx

/-- A word that is read is there. -/
theorem Refines.readU32_of_wordAt (h : Refines vm m) {a : Word} {i : BitVec 32}
    (hword : m.wordAt a = .ok i) : readU32 vm.bytecode.bytes a.toNat = some i := by
  have hcode : m.code = vm.bytecode := by
    rw [h.typed]
    rfl
  unfold TypedVM.wordAt at hword
  rw [hcode] at hword
  cases hread : readU32 vm.bytecode.bytes a.toNat with
  | none =>
      rw [hread] at hword
      cases hword
  | some w =>
      rw [hread] at hword
      injection hword with hword
      rw [hword]

/-- Where its branch is taken, the VM has the word. -/
theorem Refines.hasWord_of_branch (h : Refines vm m) {opcode : Opcode} (jumps : Int → Bool)
    (htaken : taken m.last opcode = jumps (flagOf m.last)) (hrun : m.branch opcode = .ok m')
    (hjump : jumps vm.jmpFlag = true) : vm.HasWord vm.ip := by
  unfold TypedVM.branch at hrun
  rw [htaken, ← h.flag, hjump, if_pos rfl] at hrun
  obtain ⟨target, htarget, -⟩ := except_bind_eq_ok hrun
  rw [h.ip] at htarget
  unfold VM.HasWord
  rw [h.readU32_of_wordAt htarget]
  rfl

theorem TypedVM.of_guarded {c : Prop} [Decidable c] {next : TypedVM}
    (h : guarded c next = .ok m') : c := by
  unfold guarded at h
  by_contra hc
  rw [if_neg hc] at h
  cases h

/-- **An instruction the typed machine executes is in the scope.** -/
theorem Opcode.inScope_of_execute (h : Refines vm m) (opcode : Opcode)
    (hrun : m.execute d opcode = .ok m') : opcode.InScope vm d := by
  obtain ⟨hje, hjne, hjl, hjg⟩ := taken_flagOf m.last
  cases opcode with
  | opAdd => exact (h.arithmetic_scope .add hrun).1
  | opSub => exact (h.arithmetic_scope .sub hrun).1
  | opMul => exact (h.arithmetic_scope .mul hrun).1
  | opDiv =>
      obtain ⟨hdouble, hzero⟩ := h.arithmetic_scope .div hrun
      exact ⟨hdouble, hzero rfl⟩
  | opLoad64 =>
      obtain ⟨hi, hhi, hrun⟩ := except_bind_eq_ok hrun
      obtain ⟨lo, hlo, -⟩ := except_bind_eq_ok hrun
      rw [h.ip] at hhi hlo
      unfold Opcode.InScope VM.HasWord
      rw [h.readU32_of_wordAt hhi, h.readU32_of_wordAt hlo]
      exact ⟨rfl, rfl⟩
  | opCmp =>
      obtain ⟨relation, hrelation, -⟩ := except_bind_eq_ok hrun
      rw [h.reg, h.reg] at hrelation
      exact Value.compare_scope hrelation
  | opJe =>
      intro hflag
      exact h.hasWord_of_branch (fun flag => flag = 1) hje hrun (decide_eq_true hflag)
  | opJne =>
      intro hflag
      exact h.hasWord_of_branch (fun flag => flag ≠ 1) hjne hrun (decide_eq_true hflag)
  | opJl =>
      intro hflag
      exact h.hasWord_of_branch (fun flag => flag = -1) hjl hrun (decide_eq_true hflag)
  | opJg =>
      intro hflag
      exact h.hasWord_of_branch (fun flag => flag = 2) hjg hrun (decide_eq_true hflag)
  | opPush =>
      have hroom := TypedVM.of_guarded hrun
      rw [h.sp] at hroom
      exact hroom
  | opPop =>
      have hroom := TypedVM.of_guarded hrun
      rw [h.sp] at hroom
      exact hroom
  | opMov =>
      have hplain := TypedVM.of_guarded hrun
      exact hplain
  | opInsertIntoStack =>
      have hslot := TypedVM.of_guarded hrun
      exact hslot
  | opReadFromStack =>
      have hslot := TypedVM.of_guarded hrun
      exact hslot
  | opEnd => trivial
  | opDebugReturn => trivial
  -- what the typed machine leaves out
  | opCall | opRet | opArrInit | opArrInsert | opArrRead => cases hrun

end Scope

/-! ## §2. Runs. -/

/-- A running machine takes a step. -/
structure TypedVM.Goes (m m' : TypedVM) : Prop where
  running : m.running = true
  step : m.step = .ok m'

section Runs

variable {vm : VM} {m m' : TypedVM}

/-- A step that is taken executes an instruction in the scope. -/
theorem TypedVM.Goes.inScope (hgoes : m.Goes m') (h : Refines vm m) : ∃ d, InScope vm d := by
  obtain ⟨i, hword, hrest⟩ := except_bind_eq_ok hgoes.step
  rw [h.ip] at hword
  refine ⟨decode i, ?_, ?_, ?_⟩
  · rw [← h.running]
    exact hgoes.running
  · rw [h.readU32_of_wordAt hword]
    rfl
  · intro opcode hop
    rw [Option.mem_def] at hop
    rw [hop, h.ip] at hrest
    exact Opcode.inScope_of_execute (h.setIp (vm.ip + 4)) opcode hrest

/-- **The VM follows.** -/
theorem Refines.follows (h : Refines vm m) (hgoes : m.Goes m') :
    ∃ vm', iterate vm = .ok () vm' ∧ Refines vm' m' := by
  obtain ⟨d, hscope⟩ := hgoes.inScope h
  have hmatches := iterate_matches h hscope
  rw [hgoes.step] at hmatches
  generalize hrun : iterate vm = r at hmatches
  cases hmatches with
  | next refines => exact ⟨_, rfl, refines⟩

/-- A machine that has stopped stays as it is. -/
theorem run_stopped (h : vm.running = false) : run 0 vm = .ok true vm := by
  unfold run
  rw [get_bind, h]
  rfl

/-- A round, and then the rest of the run. -/
theorem run_succ {vm' : VM} (hrunning : vm.running = true) (hstep : iterate vm = .ok () vm')
    (rounds : Nat) : run (rounds + 1) vm = run rounds vm' := by
  show (get >>= fun s => if s.running = true then iterate >>= fun _ => run rounds else pure true :
    Exec Bool) vm = _
  rw [get_bind, if_pos hrunning, bind_ok hstep]

/-- **A run of the typed machine up to its end is a run of the VM.** -/
theorem run_of_typed (h : Refines vm m) (hruns : Relation.ReflTransGen TypedVM.Goes m m')
    (hstop : m'.running = false) :
    ∃ rounds vm', run rounds vm = .ok true vm' ∧ Refines vm' m' := by
  induction hruns using Relation.ReflTransGen.head_induction_on generalizing vm with
  | refl =>
      refine ⟨0, vm, run_stopped ?_, h⟩
      rw [← h.running]
      exact hstop
  | head hgoes _ ih =>
      obtain ⟨vm₁, hstep, hnext⟩ := h.follows hgoes
      obtain ⟨rounds, vm', hrun, hrefines⟩ := ih hnext
      refine ⟨rounds + 1, vm', ?_, hrefines⟩
      have hrunning : vm.running = true := h.running ▸ hgoes.running
      rw [run_succ hrunning hstep]
      exact hrun

end Runs

/-! ## §3. Steps at an instruction. -/

section Instruction

variable {m : TypedVM} {instr : Instr}

/-- Behind the word of an instruction. -/
theorem TypedVM.toNat_next (h : instrAt m.code.bytes m.ip.toNat = some instr) :
    (m.ip + 4).toNat = m.ip.toNat + 4 := by
  have himage := m.code.addressable
  obtain ⟨w, hw, -⟩ := instrAt_eq_some h
  have hbound := readU32_bound hw
  bv_omega

/-- **A step executes the instruction at `ip`.** -/
theorem TypedVM.step_of_instrAt (h : instrAt m.code.bytes m.ip.toNat = some instr) :
    m.step = execute { m with ip := m.ip + 4 }
      ⟨instr.opcode.toByte, instr.ra, instr.rb, instr.rc⟩ instr.opcode := by
  obtain ⟨w, hw, hdecode, -⟩ := instrAt_eq_some h
  have hop : Opcode.ofByte (decode w).opcode = some instr.opcode := by
    rw [hdecode]
    exact Opcode.ofByte_toByte instr.opcode
  rw [TypedVM.step_ok (TypedVM.wordAt_ok hw) hop, hdecode]

/-- The target behind a branch. -/
theorem TypedVM.wordAt_target (h : instrAt m.code.bytes m.ip.toNat = some instr)
    (hbranch : instr.opcode.isBranch = true) {t : BitVec 32} (ht : instr.operand = .target t) :
    m.wordAt (m.ip + 4) = .ok t ∧ (m.ip + 4 + 4).toNat = m.ip.toNat + 8 := by
  have hnext := TypedVM.toNat_next h
  have himage := m.code.addressable
  obtain ⟨w, -, -, hread⟩ := instrAt_eq_some h
  have hload : instr.opcode ≠ .opLoad64 := by
    intro hop
    rw [hop] at hbranch
    cases hbranch
  unfold operandAt at hread
  rw [if_neg hload, if_pos hbranch, ht] at hread
  obtain ⟨t', ht', hread⟩ := Option.bind_eq_some_iff.1 hread
  injection hread with hread
  injection hread with hread
  subst hread
  have hbound := readU32_bound ht'
  rw [← hnext] at ht'
  refine ⟨TypedVM.wordAt_ok ht', ?_⟩
  bv_omega

/-- The two words of the immediate behind a load. -/
theorem TypedVM.wordAt_immediate (h : instrAt m.code.bytes m.ip.toNat = some instr)
    (hop : instr.opcode = .opLoad64) {v : Word} (hv : instr.operand = .immediate v) :
    ∃ hi lo, m.wordAt (m.ip + 4) = .ok hi ∧ m.wordAt (m.ip + 4 + 4) = .ok lo ∧
      (hi.setWidth 64 <<< 32) ||| lo.setWidth 64 = v ∧
      (m.ip + 4 + 4 + 4).toNat = m.ip.toNat + 12 := by
  have hnext := TypedVM.toNat_next h
  have himage := m.code.addressable
  obtain ⟨w, -, -, hread⟩ := instrAt_eq_some h
  unfold operandAt at hread
  rw [if_pos hop, hv] at hread
  obtain ⟨hi, hhi, hread⟩ := Option.bind_eq_some_iff.1 hread
  obtain ⟨lo, hlo, hread⟩ := Option.bind_eq_some_iff.1 hread
  injection hread with hread
  injection hread with hread
  have hbound := readU32_bound hlo
  have hsecond : (m.ip + 4 + 4).toNat = m.ip.toNat + 4 + 4 := by bv_omega
  rw [← hnext] at hhi
  rw [← hsecond] at hlo
  refine ⟨hi, lo, TypedVM.wordAt_ok hhi, TypedVM.wordAt_ok hlo, hread, ?_⟩
  bv_omega

end Instruction

end SproutLang
