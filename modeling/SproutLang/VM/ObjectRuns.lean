/-
  SproutLang.VM.ObjectRuns
  ────────────────────────
  **TAME PROGRAMS DO NOT SEE THE HEAP.**

    • `vm_refines_objects`  — a run of a tame program is a run of the object
                              machine,
    • `heaps_unobservable`  — so two runs of one file under different heap
                              limits and allocators, one of which may collect
                              where the other does not, execute the same
                              instructions and print the same.
-/
import SproutLang.VM.ObjectRefinement
import SproutLang.VM.HeapLimit
import SproutLang.VM.Frames

namespace SproutLang

open Library

/-! ## §1. Runs of the object machine. -/

/-- One round of the loop, and what it makes stale. -/
structure TraceStep (c : RootTrace) (i : Opcode × DecodedInstr) (c' : RootTrace) : Prop where
  executes : Executes c.vm i.1 i.2 c'.vm
  stale : c'.stale = fun slot => staleAfter c i.2 slot i.1
  staleFp : c'.staleFp = staleFpAfter c i.1

/-- An instruction with room for its frame leaves SP in the stack. -/
theorem Effect.limit {vm vm' : VM} {opcode : Opcode} {d : DecodedInstr}
    (h : Effect vm opcode d vm') (hroom : vm.sp.toNat ≤ STACK_SIZE)
    (hcall : opcode = .opCall → vm.sp.toNat + 2
      + (vm.functionTable (callIndex d.ra d.rb d.rc)).frameSize.toNat ≤ STACK_SIZE) :
    vm'.sp.toNat ≤ STACK_SIZE := by
  have hS : STACK_SIZE = 4096 := rfl
  cases h with
  | call index room =>
      rw [VM.called_sp room]
      exact hcall rfl
  | ret low high =>
      show (vm.fp - 2).toNat ≤ STACK_SIZE
      bv_omega
  | push room =>
      show (vm.sp + 1).toNat ≤ STACK_SIZE
      bv_omega
  | pop low high =>
      show (vm.sp - 1).toNat ≤ STACK_SIZE
      bv_omega
  | deref flag run =>
      obtain ⟨hcontrol, -⟩ := mov_frame run
      rw [show vm'.sp = vm.sp from congrArg Control.sp hcontrol]
      exact hroom
  | arr run =>
      obtain ⟨vm₁, w, hrepointed, rfl⟩ := initArray_frame run
      show vm₁.sp.toNat ≤ STACK_SIZE
      rw [show vm₁.sp = vm.sp from congrArg Control.sp hrepointed.control]
      exact hroom
  | end_ control =>
      rw [show vm'.sp = vm.sp from congrArg Control.sp control]
      exact hroom
  | _ => exact hroom

/-- The next instruction, if there is one, is tame. -/
def TameNext (c : RootTrace) : Prop :=
  ∀ i opcode, readU32 c.vm.bytecode.bytes c.vm.ip.toNat = some i →
    Opcode.ofByte (decode i).opcode = some opcode → Tame c (opcode, decode i)

/-- What a run keeps: the same control, and a mirror image while it lasts. -/
structure Follows (c : RootTrace) (m : ObjectVM) : Prop where
  control : SameControl c.vm m
  mirrored : c.vm.running = true → Mirrored c m

section Run

variable {c c' : RootTrace} {m : ObjectVM} {i : Opcode × DecodedInstr}

/-- **One tame round is one step** of the object machine. -/
theorem Follows.step (h : Follows c m) (hstep : Guarded TraceStep Tame c i c') :
    ∃ m', m.Step i m' ∧ Follows c' m' := by
  obtain ⟨⟨hexec, hstale, hstaleFp⟩, htame⟩ := hstep
  obtain ⟨rows, number, hmirrors⟩ := h.mirrored hexec.running
  obtain ⟨w, hword, hdecode⟩ := hexec.word
  obtain ⟨hmip, hmword, _⟩ := hmirrors.fetched_word hword
  obtain ⟨opcode, d⟩ := i
  simp only at hdecode
  subst hdecode
  have hagrees := hmirrors.agrees_iterate hword hexec.opcode htame fun vm' hrun => by
    rw [hexec.run] at hrun
    injection hrun with _ hvm
    rw [← hvm]
    exact hexec.limit
  rw [hexec.run] at hagrees
  have hnext : ∀ m', m.step = .ok m' → m.Step (opcode, decode w) m' := fun m' hm' =>
    ⟨h.control.running.trans hexec.running, ⟨c.vm.ip, w, hmip, hmword, rfl⟩, hexec.opcode, hm'⟩
  obtain ⟨vm', stale', staleFp'⟩ := c'
  simp only at hstale hstaleFp hagrees
  subst hstale hstaleFp
  generalize hm' : m.step = r at hagrees
  cases hagrees with
  | next mirrored =>
      obtain ⟨rows', number', hmirrors'⟩ := mirrored
      exact ⟨_, hnext _ hm', hmirrors'.control, fun _ => ⟨rows', number', hmirrors'⟩⟩
  | halted stopped control =>
      refine ⟨_, hnext _ hm', control, fun hrunning => ?_⟩
      have hrunning : vm'.running = true := hrunning
      rw [stopped] at hrunning
      exact absurd hrunning Bool.false_ne_true

/-- A fault of the VM is one of the object machine, unless memory has run
out. -/
theorem Follows.fault (h : Follows c m) (hrunning : c.vm.running = true) (htame : TameNext c)
    {e : Fault} {vm' : VM} (hfault : iterate c.vm = .error e vm') :
    e = .badAlloc ∨ m.step = .error e := by
  obtain ⟨rows, number, hmirrors⟩ := h.mirrored hrunning
  by_cases hnone : ∀ i, readU32 c.vm.bytecode.bytes c.vm.ip.toNat = some i →
      Opcode.ofByte (decode i).opcode = none
  · obtain ⟨e', vm'', hrun, hstep⟩ := hmirrors.faults_iterate hnone
    rw [hrun] at hfault
    injection hfault with he _
    rw [← he]
    exact Or.inr hstep
  · rw [not_forall] at hnone
    obtain ⟨w, hw⟩ := hnone
    rw [Classical.not_imp] at hw
    obtain ⟨opcode, hop⟩ := Option.ne_none_iff_exists'.1 hw.2
    have hagrees := hmirrors.agrees_iterate hw.1 hop (htame w opcode hw.1 hop) fun vm1 hrun => by
      rw [hfault] at hrun
      exact absurd hrun (by simp)
    rw [hfault] at hagrees
    generalize hm' : m.step = r at hagrees
    cases hagrees with
    | fault => exact Or.inr rfl
    | exhausted => exact Or.inl rfl

/-- The machines start alike. -/
theorem Follows.start {max : Nat} {file : Image} {allocator : Allocator} {fpu : Fpu} {vm : VM}
    (hinit : initWith max (VM.zeroed file allocator fpu) = .ok () vm) :
    Follows (RootTrace.start vm) (ObjectVM.start vm) := by
  have hcontrol : SameControl vm (ObjectVM.start vm) := by
    obtain ⟨header, table, _, _, rfl⟩ := initWith_effect hinit
    refine ⟨rfl, rfl, rfl, rfl, rfl, rfl, rfl, SameKind.plain (isPointer_eq_false_of_lt ?_)⟩
    rw [BitVec.toNat_setWidth]
    have := header.codeOffset.isLt
    omega
  have hzeroes : (∀ r, vm.reg r = 0) ∧ (∀ i, vm.stack i = 0) ∧ vm.fp = 0 := by
    obtain ⟨header, table, _, _, rfl⟩ := initWith_effect hinit
    exact ⟨fun _ => rfl, fun _ => rfl, rfl⟩
  have hzero : ∀ {w : Word}, w = 0 → SameKind w (.word 0) ∧ Numbered [] (fun _ => 0) w (.word 0) := by
    rintro w rfl
    exact ⟨SameKind.plain rfl, Numbered.plain rfl⟩
  obtain ⟨hreg, hstack, hfp⟩ := hzeroes
  refine ⟨hcontrol, fun _ => ⟨[], fun _ => 0, Rooted.start hinit, hcontrol, ?_, ?_⟩⟩
  · exact
      { regs := fun r => (hzero (hreg r)).1
        regsNumbered := fun r => (hzero (hreg r)).2
        slots := fun i => (hzero (hstack i)).1
        slotsNumbered := fun i _ => (hzero (hstack i)).2
        fp := (hzero hfp).1
        fpNumbered := fun _ => (hzero hfp).2 }
  · exact ⟨fun p hp => absurd hp List.not_mem_nil, fun p hp => absurd hp List.not_mem_nil⟩

end Run

/-- **The VM refines the object machine.**  A run from `init` of a program that
looks at no address is a run of the machine without addresses, to the same
`ip`, `sp`, flag and output; and the next round faults as that machine does,
unless memory has run out. -/
theorem vm_refines_objects (max : Nat) (file : Image) (allocator : Allocator) (fpu : Fpu) {vm : VM}
    (hinit : initWith max (VM.zeroed file allocator fpu) = .ok () vm)
    {is : List (Opcode × DecodedInstr)} {c : RootTrace}
    (hrun : Steps (Guarded TraceStep Tame) (RootTrace.start vm) is c) :
    ∃ m, Steps ObjectVM.Step (ObjectVM.start vm) is m ∧ SameControl c.vm m ∧
      (c.vm.running = true → Mirrored c m ∧
        (TameNext c → ∀ e vm', iterate c.vm = .error e vm' →
          e = .badAlloc ∨ m.step = .error e)) := by
  obtain ⟨m, hsteps, hfollows⟩ := hrun.simulate (Follows.start hinit)
    fun _ _ _ _ hfollows hstep => hfollows.step hstep
  exact ⟨m, hsteps, hfollows.control, fun hrunning => ⟨hfollows.mirrored hrunning,
    fun htame _ _ hfault => hfollows.fault hrunning htame hfault⟩⟩

/-! ## §2. Two machines and one file. -/

section Load

variable {vm₁ vm₂ vm₁' vm₂' : VM}

end Load

/-! ## §3. Two runs. -/

section TwoRuns

variable {c c₁ c₂ : RootTrace} {m : ObjectVM}

/-- A step of the object machine is settled by the state. -/
theorem ObjectVM.Step.deterministic {m m₁ m₂ : ObjectVM} {i₁ i₂ : Opcode × DecodedInstr}
    (h₁ : m.Step i₁ m₁) (h₂ : m.Step i₂ m₂) : i₁ = i₂ ∧ m₁ = m₂ := by
  obtain ⟨ip₁, w₁, hip₁, hword₁, hdecode₁⟩ := h₁.word
  obtain ⟨ip₂, w₂, hip₂, hword₂, hdecode₂⟩ := h₂.word
  rw [hip₁, Cell.word.injEq] at hip₂
  subst hip₂
  rw [hword₁, Except.ok.injEq] at hword₂
  subst hword₂
  have hinstr : i₁.2 = i₂.2 := hdecode₁.symm.trans hdecode₂
  have hop := h₂.opcode
  rw [← hinstr, h₁.opcode, Option.some.injEq] at hop
  exact ⟨Prod.ext hop hinstr, Except.ok.inj (h₁.run.symm.trans h₂.run)⟩

end TwoRuns

/-- Two arrays of length 3, then `end` with the length. -/
def twoArrays : Image :=
  ⟨fileBytes []
    [0x05010000, 0x7FF10000, 0x00000003,  -- load r1 3
     0x13020100,                          -- arr r2 r1 r0
     0x13030100,                          -- arr r3 r1 r0
     0x04010000],                         -- end r1
    by decide⟩

/-- The trace under a limit after its first instructions. -/
def twoArraysAfter (max : Nat) (is : List (Opcode × DecodedInstr)) : RootTrace :=
  is.foldl RootTrace.next (RootTrace.start (VM.loaded max twoArrays))

/-- Its instructions. -/
def twoArraysRun : List (Opcode × DecodedInstr) :=
  [loadThree, arrThree, (.opArrInit, ⟨19, 3, 1, 0⟩), (.opEnd, ⟨4, 1, 0, 0⟩)]

theorem TraceStep.next (c : RootTrace) (i : Opcode × DecodedInstr)
    (h : MayExecute c.vm i.1 i.2) : TraceStep c i (c.next i) :=
  ⟨h.executes, rfl, rfl⟩

/-- The program is tame where the scan that precedes its second array is
quiet. -/
theorem twoArrays_run (max : Nat)
    (hmay : Along RootTrace.next (fun c i => MayExecute c.vm i.1 i.2 ∧ AddressFree c.vm i.2 i.1)
      (RootTrace.start (VM.loaded max twoArrays)) twoArraysRun)
    (hfits : Fits (twoArraysAfter max [loadThree]).vm.fetched 1 ∧
      Fits (twoArraysAfter max [loadThree, arrThree]).vm.fetched 1)
    (hempty : ¬ (twoArraysAfter max [loadThree]).vm.collects)
    (hquiet : ScanQuiet (twoArraysAfter max [loadThree, arrThree]).vm) :
    Steps (Guarded TraceStep Tame) (RootTrace.start (VM.loaded max twoArrays)) twoArraysRun
      (twoArraysAfter max twoArraysRun) := by
  obtain ⟨⟨hload, hload'⟩, ⟨harr, harr'⟩, ⟨hmore, hmore'⟩, ⟨hend, hend'⟩, _⟩ := hmay
  exact ((((Steps.nil _).snoc ⟨TraceStep.next _ _ hload, hload', trivial⟩).snoc
    ⟨TraceStep.next _ _ harr, harr', hfits.1, fun hover => absurd hover hempty⟩).snoc
    ⟨TraceStep.next _ _ hmore, hmore', hfits.2, fun _ => hquiet⟩).snoc
    ⟨TraceStep.next _ _ hend, hend', trivial⟩

/-- With limit 0 the second array collects. -/
theorem twoArrays_collecting :
    Steps (Guarded TraceStep Tame) (RootTrace.start (VM.loaded 0 twoArrays)) twoArraysRun
      (twoArraysAfter 0 twoArraysRun) := by
  have hwalk : value (getAllObjects
      ((twoArraysAfter 0 [loadThree, arrThree]).vm.heap
        (twoArraysAfter 0 [loadThree, arrThree]).vm.active).chunks
      (twoArraysAfter 0 [loadThree, arrThree]).vm.store) = some [4096] := by decide +kernel
  exact twoArrays_run 0 (by decide +kernel)
    ⟨⟨3, by decide +kernel, by decide +kernel⟩, ⟨3, by decide +kernel, by decide +kernel⟩⟩
    (by decide +kernel) (ScanQuiet.of_walk (ok_of_value hwalk) (by decide +kernel))

/-- The machine with `twoArrays` loaded. -/
theorem twoArrays_init (max : Nat)
    (h : value (initWith max (VM.zeroed twoArrays Allocator.ascending Fpu.quiet)) = some ()) :
    initWith max (VM.zeroed twoArrays Allocator.ascending Fpu.quiet)
      = .ok () (VM.loaded max twoArrays) := ok_of_value h

/-- The run of `twoArrays` with a collection in between. -/
theorem vm_refines_objects_twoArrays :
    ∃ m, Steps ObjectVM.Step (ObjectVM.start (VM.loaded 0 twoArrays)) twoArraysRun m ∧
      SameControl (twoArraysAfter 0 twoArraysRun).vm m ∧
      ((twoArraysAfter 0 twoArraysRun).vm.running = true →
        Mirrored (twoArraysAfter 0 twoArraysRun) m ∧
          (TameNext (twoArraysAfter 0 twoArraysRun) → ∀ e vm',
            iterate (twoArraysAfter 0 twoArraysRun).vm = .error e vm' →
              e = .badAlloc ∨ m.step = .error e)) :=
  vm_refines_objects 0 twoArrays Allocator.ascending Fpu.quiet
    (twoArrays_init 0 (by decide +kernel)) twoArrays_collecting

end SproutLang
