/-
  SproutLang.VM.SpaceSafety
  ─────────────────────────
  **HOW MUCH MEMORY A TAME PROGRAM NEEDS.**

  The object machine says which arrays a program can still name; a collection
  keeps those and nothing else, and one comes as soon as more than 70% of the
  limit is taken.  So the memory of the VM is bounded by what the program
  keeps alive, however much it allocates:

    • `footprint_bounded` — the bytes and the chunks in use, in every state of
                            a run,
    • `memory_suffices`   — so many chunks are enough: no `arr` runs out of
                            memory.
-/
import SproutLang.VM.Faults
import SproutLang.VM.Heap.Footprint

namespace SproutLang

open Library

/-! ## §1. The trigger. -/

section Trigger

/-- A double holds integers of 53 bits exactly. -/
theorem roundSignificand_of_lt {n : Nat} (h : n < 2 ^ 53) : roundSignificand n = n := by
  have hlog : Nat.log2 n - 52 = 0 := by
    by_cases hzero : n = 0
    · subst hzero
      rfl
    · have := (Nat.log2_lt hzero).2 h
      omega
  unfold roundSignificand
  simp [hlog, Nat.mod_one]

/-- Rounding adds less than one part in `2^53`. -/
theorem roundSignificand_le (n : Nat) : 2 ^ 53 * roundSignificand n ≤ (2 ^ 53 + 1) * n := by
  unfold roundSignificand
  simp only
  generalize hdrop : Nat.log2 n - 52 = drop
  have hdivmod := Nat.div_add_mod n (2 ^ drop)
  by_cases hup : 2 * (n % 2 ^ drop) > 2 ^ drop ∨
      (2 * (n % 2 ^ drop) = 2 ^ drop ∧ n / 2 ^ drop % 2 = 1 ∧ drop ≠ 0)
  · rw [if_pos hup]
    -- rounded up by half a unit of the last place at most
    have hhalf : 2 ^ drop ≤ 2 * (n % 2 ^ drop) := by
      rcases hup with hup | hup
      · exact Nat.le_of_lt hup
      · exact Nat.le_of_eq hup.1.symm
    have hn : n ≠ 0 := by
      rintro rfl
      have hpos : 0 < 2 ^ drop := Nat.two_pow_pos drop
      simp at hhalf
    have hlarge : 2 ^ 52 * 2 ^ drop ≤ n := by
      rw [← Nat.pow_add]
      have hlog : 52 + drop ≤ Nat.log2 n := by
        by_contra hsmall
        have hzero : drop = 0 := by omega
        subst hzero
        simp [Nat.mod_one] at hhalf
      exact (Nat.le_log2 hn).1 hlog
    rw [Nat.add_mul, Nat.one_mul, Nat.mul_comm (n / 2 ^ drop)]
    omega
  · rw [if_neg hup, Nat.mul_comm (n / 2 ^ drop)]
    have hle := Nat.mul_div_le n (2 ^ drop)
    omega

/-- **Without a collection no more than 70% are taken.** -/
theorem le_of_overTrigger_eq_false {total max : Nat} (htotal : total < 2 ^ 53) (hmax : max ≤ 2 ^ 51)
    (h : overTrigger total max = false) : 10 * total ≤ 7 * max := by
  have hexact : roundSignificand max = max := roundSignificand_of_lt (by omega)
  have hround := roundSignificand_le (max * 6305039478318694)
  unfold overTrigger at h
  rw [decide_eq_false_iff_not, Nat.not_lt, hexact, roundSignificand_of_lt htotal] at h
  omega

end Trigger

/-! ## §2. What a program keeps alive. -/

namespace ObjectVM

/-- The cells a program can name: the registers, and the stack below `sp`. -/
def roots (m : ObjectVM) : List Cell :=
  (List.range 256).map (fun r => m.reg (BitVec.ofNat 8 r)) ++ (List.range m.sp.toNat).map m.stack

/-- The arrays among them. -/
def liveArrays (m : ObjectVM) : List Nat :=
  (List.range m.arrays.length).filter fun k => Cell.array k ∈ m.roots

/-- What the block of an array takes. -/
def arraySize (m : ObjectVM) (k : Nat) : Nat := 24 + 8 * (m.arrays.getD k []).length

/-- Bytes of the arrays that are still named. -/
def liveBytes (m : ObjectVM) : Nat := (m.liveArrays.map m.arraySize).sum

/-- What the block of a new array takes. -/
def newBytes (m : ObjectVM) (d : DecodedInstr) : Nat :=
  24 + 8 * ((m.reg d.rb).number.getD 0).toNat

/-- **The program stays within its means**: when it makes an array, those it
keeps take at most `live` bytes and the new one at most `block`. -/
def Within (live block : Nat) (m : ObjectVM) (i : Opcode × DecodedInstr) : Prop :=
  i.1 = .opArrInit → m.liveBytes ≤ live ∧ m.newBytes i.2 ≤ block

instance (live block : Nat) (m : ObjectVM) (i : Opcode × DecodedInstr) :
    Decidable (Within live block m i) := inferInstanceAs (Decidable (_ → _))

end ObjectVM

section Live

variable {c : RootTrace} {rows rows' : List HeapRow} {number : Nat → Nat} {m : ObjectVM} {vm' : VM}

/-- A block that a root names is an array the program can name. -/
theorem Mirrors.live (h : Mirrors c rows number m) {p : Nat × Obj} (hp : p ∈ heapObjects rows)
    (href : Referred c.vm p) : number p.1 ∈ m.liveArrays := by
  obtain ⟨words, hwords, _⟩ := h.array hp
  have hlt := (List.getElem?_eq_some_iff.1 hwords).1
  refine List.mem_filter.2 ⟨List.mem_range.2 hlt, decide_eq_true ?_⟩
  obtain ⟨slot, hslot, hptr, hdecode⟩ := href
  cases slot with
  | reg r =>
      refine List.mem_append_left _ (List.mem_map.2 ⟨r.toNat, List.mem_range.2 r.isLt, ?_⟩)
      rw [BitVec.ofNat_toNat, BitVec.setWidth_eq]
      exact h.cells.regsNumbered r hptr p hp hdecode
  | stack i =>
      have hi := mem_rootSlots_stack.1 hslot
      refine List.mem_append_right _ (List.mem_map.2 ⟨i, ?_, ?_⟩)
      · rw [h.control.sp]
        exact List.mem_range.2 hi
      · exact h.cells.slotsNumbered i (h.rooted.seen i hi) hptr p hp hdecode
  | heap a => exact absurd hslot heap_not_root

/-- **What the roots name is what the program keeps alive.** -/
theorem Mirrors.referred_le (h : Mirrors c rows number m) :
    (((heapObjects rows).filter (Referred c.vm)).map (fun b => b.2.size)).sum ≤ m.liveBytes := by
  have hg := h.rooted.represents.geometry
  have hmem : ∀ p ∈ (heapObjects rows).filter (Referred c.vm),
      p ∈ heapObjects rows ∧ Referred c.vm p := by
    intro p hp
    obtain ⟨hobject, href⟩ := List.mem_filter.1 hp
    exact ⟨hobject, of_decide_eq_true href⟩
  have hsizes : ((heapObjects rows).filter (Referred c.vm)).map (fun b => b.2.size)
      = (((heapObjects rows).filter (Referred c.vm)).map (fun b => number b.1)).map
        m.arraySize := by
    rw [List.map_map]
    refine List.map_congr_left fun p hp => ?_
    obtain ⟨words, hwords, hholds⟩ := h.array (hmem p hp).1
    show p.2.size = m.arraySize (number p.1)
    unfold ObjectVM.arraySize
    rw [List.getD_eq_getElem?_getD, hwords]
    exact hholds.size
  -- no two blocks are one array, so the numbers are among the live ones, each once
  have hnodup : (((heapObjects rows).filter (Referred c.vm)).map (fun b => number b.1)).Nodup := by
    refine List.Nodup.map_on (fun p hp q hq heq => ?_) (hg.objects_nodup.filter _)
    exact h.arrays.distinct p (hmem p hp).1 q (hmem q hq).1 heq
  have hsub := List.subperm_of_subset hnodup fun k hk => by
    obtain ⟨p, hp, rfl⟩ := List.mem_map.1 hk
    exact h.live (hmem p hp).1 (hmem p hp).2
  obtain ⟨ks, hperm, hsublist⟩ := hsub
  rw [hsizes, ← (hperm.map m.arraySize).sum_eq]
  exact (hsublist.map _).sum_le_sum fun _ _ => Nat.zero_le _

/-- The interior scan of a heap of arrays is quiet where none reads as an array
of pointers. -/
theorem Rooted.interiorQuiet (h : Rooted c rows) (hquiet : ScanQuiet c.vm) :
    InteriorQuiet c.vm rows := by
  intro p hp _
  have hsize := (h.arrays p hp).fields
  have hal := h.represents.geometry.object_aligned hp
  exact ⟨h.represents.geometry.mapped hp (by omega) (by omega) (by omega),
    hquiet rows h.represents p hp⟩

/-- **A collection leaves no more than the program keeps alive.** -/
theorem Mirrors.collected_total (h : Mirrors c rows number m) (hquiet : ScanQuiet c.vm)
    (hc : Collected c.vm vm' rows rows') :
    (vm'.heap vm'.active).totalAllocated ≤ m.liveBytes := by
  have hkept := (h.rooted.interiorQuiet hquiet).kept_eq h.rooted.rootsValid
  have hcopies : (kept c.vm rows).map (fun b => b.2.size)
      = (heapObjects rows').map (fun b => b.2.size) := by
    rw [← List.forall₂_eq_eq_eq, List.forall₂_map_left_iff, List.forall₂_map_right_iff]
    exact hc.copies.imp fun _ _ hcopy => by rw [hcopy.obj]
  rw [hc.represents.counts.total, used_sum, ← hcopies, hkept]
  exact h.referred_le

end Live

/-! ## §3. A compact heap. -/

/-- **The heap has taken no more than `bound` bytes, and no more chunks than
they ask for.** -/
structure Compact (al : Allocator) (max bound : Nat) (vm : VM) : Prop where
  owns : vm.OwnsChunks al
  packed : (vm.heap vm.active).Packed
  counted : (vm.heap vm.active).used = (vm.heap vm.active).totalAllocated
  total : (vm.heap vm.active).totalAllocated ≤ bound
  spare : (vm.heap vm.active.other).Empty
  limit : ∀ half, (vm.heap half).max = max

/-- What an allocation finds taken: 70% of the limit without a collection, and
what is alive after one. -/
def takenBytes (max live : Nat) : Nat := Nat.max (7 * max / 10) live

/-- **The most there can be in a heap** that is limited by `max`. -/
def peakBytes (max live block : Nat) : Nat := takenBytes max live + block

/-- All there is lies below `2^48`. -/
theorem Represents.total_lt {s : Store} {h : Heap} {rows : List HeapRow}
    (hrep : Represents s h rows) : h.totalAllocated < 2 ^ 53 := by
  have hlen := hrep.geometry.arena.length_mul_le
    (fun r hr => Nat.le_of_lt (hrep.geometry.bounded r hr))
  have hsum := hrep.geometry.arena.used_sum_le
  rw [hrep.counts.total]
  omega

section Compact

variable {al : Allocator} {max bound live block : Nat} {vm vm' : VM} {c c' : RootTrace}
  {rows : List HeapRow} {number : Nat → Nat} {m : ObjectVM} {d : DecodedInstr}

/-- A compact machine has few chunks. -/
theorem Compact.chunks_le (h : Compact al max bound vm) :
    vm.heapA.chunks.length + vm.heapB.chunks.length ≤ chunksFor bound := by
  have hactive := h.packed.chunks_le (n := bound) (by rw [h.counted]; exact h.total)
  rw [VM.chunks_length vm vm.active, h.spare.1]
  exact hactive

/-- So many regions are live. -/
theorem Compact.live_le (h : Compact al max bound vm) :
    vm.store.live.length ≤ chunksFor bound := by
  rw [h.owns.live_length]
  exact h.chunks_le

/-- A compact machine is compact for a larger bound. -/
theorem Compact.mono {bound' : Nat} (h : Compact al max bound vm) (hle : bound ≤ bound') :
    Compact al max bound' vm := { h with total := h.total.trans hle }

/-- What leaves both heaps alone. -/
theorem Compact.of_heaps (h : Compact al max bound vm) (howns : vm'.OwnsChunks al)
    (hactive : vm'.active = vm.active) (hheap : ∀ half, vm'.heap half = vm.heap half) :
    Compact al max bound vm' := by
  refine ⟨howns, ?_, ?_, ?_, ?_, fun half => (hheap half ▸ h.limit half)⟩
  · rw [hactive, hheap]
    exact h.packed
  · rw [hactive, hheap]
    exact h.counted
  · rw [hactive, hheap]
    exact h.total
  · rw [hactive, hheap]
    exact h.spare

theorem Compact.fetched (h : Compact al max bound vm) : Compact al max bound vm.fetched :=
  h.of_heaps h.owns rfl fun half => by cases half <;> rfl

/-- **What an `arr` finds**: no more than the limit lets pass or the program
keeps alive; or the collection before it ran out of memory. -/
theorem Compact.allocating (h : Compact al max bound c.vm) (hmirrors : Mirrors c rows number m)
    (hquiet : c.vm.collects → ScanQuiet c.vm) (hmax : max ≤ 2 ^ 51)
    (hlive : m.liveBytes ≤ live) :
    (c.vm.collects ∧ ∃ vm1, compactingGarbageCollect c.vm = .error .badAlloc vm1 ∧
      HalfCollected c.vm vm1 rows) ∨
    Compact al max (takenBytes max live) (allocationState c.vm) ∧ ∀ size type,
      gcCollectedHeapAlloc size type c.vm = onHeap (allocationState c.vm).active
        (heapAlloc size type) (allocationState c.vm) := by
  have hroot := hmirrors.rooted
  by_cases hover : c.vm.collects
  · have hscan := hroot.scannable (hquiet hover)
    obtain ⟨hstops, hpacks⟩ := collect_grows hroot.represents hroot.inactive hscan
    rcases collect_spec hroot.represents hroot.inactive hscan with
      ⟨vm1, hfail⟩ | ⟨vm1, rows1, hrun, hc⟩
    · exact Or.inl ⟨hover, vm1, hfail, hstops vm1 hfail⟩
    · right
      rw [allocationState_of_collects hover hrun]
      refine ⟨?_, fun _ _ => gcCollectedHeapAlloc_of_over hover hrun⟩
      refine
        { owns := ownsChunks_kept.compactingGarbageCollect.ok h.owns hrun
          packed := ?_
          counted := hc.represents.counts.used
          total := ?_
          spare := hc.inactive
          limit := fun half => (hc.max half).trans (h.limit half) }
      · rw [hc.active]
        exact hpacks vm1 hrun
      · exact (hmirrors.collected_total (hquiet hover) hc).trans
          (hlive.trans (Nat.le_max_right _ _))
  · right
    have hstate : allocationState c.vm = c.vm := if_neg hover
    have htrigger := Bool.eq_false_iff.2 hover
    rw [hstate]
    refine ⟨{ h with total := ?_ }, fun _ _ => gcCollectedHeapAlloc_of_not_over htrigger⟩
    rw [h.limit] at htrigger
    have hle := le_of_overTrigger_eq_false hroot.represents.total_lt hmax htrigger
    refine le_trans ?_ (Nat.le_max_left _ _)
    omega

/-- A new array behind what there is. -/
theorem Compact.placed (h : Compact al max bound vm) {sp : Space} {s' : Store} {w : Word}
    {rows' : List HeapRow} {x : Obj} {p : Nat} (dst : Byte) (hbound : x.size ≤ block)
    (hcounts : Counts (vm.heap vm.active) rows)
    (hall : Allocated ⟨vm.store, vm.heap vm.active⟩ sp rows rows' x p)
    (hvm : vm' = (((vm.setHeap vm.active sp.heap).setStore sp.store).setStore s').setReg dst w)
    (howns : vm'.OwnsChunks al) : Compact al max (bound + block) vm' := by
  have hactive : vm'.active = vm.active := by
    rw [hvm]
    simp
  have hheap : vm'.heap vm.active = sp.heap := by
    rw [hvm]
    simp
  have hother : vm'.heap vm.active.other = vm.heap vm.active.other := by
    rw [hvm]
    simp
  refine ⟨howns, ?_, ?_, ?_, ?_, fun half => ?_⟩
  · rw [hactive, hheap]
    exact hall.packed hcounts h.packed
  · rw [hactive, hheap]
    exact hall.represents.counts.used
  · rw [hactive, hheap, hall.total hcounts]
    exact Nat.add_le_add h.total hbound
  · rw [hactive, hother]
    exact h.spare
  · rcases half.eq_or_other vm.active with rfl | rfl
    · rw [hheap, hall.max]
      exact h.limit _
    · rw [hother]
      exact h.limit _

/-- **An `arr` that returns keeps a heap compact.** -/
theorem Compact.arr (h : Compact al max (peakBytes max live block) c.vm)
    (hmirrors : Mirrors c rows number m) (hmax : max ≤ 2 ^ 51)
    (hplain : isPointer (c.vm.reg d.rb) = false) (hfits : Fits c.vm d.rb)
    (hquiet : c.vm.collects → ScanQuiet c.vm) (hlive : m.liveBytes ≤ live)
    (hblock : m.newBytes d ≤ block) (hrun : initArray d.ra d.rb d.rc c.vm = .ok () vm') :
    Compact al max (peakBytes max live block) vm' := by
  obtain ⟨n, hlen, hfit⟩ := hfits
  have howns := (ownsChunks_kept.initArray _ _ _).ok h.owns hrun
  have hsize : m.newBytes d = 24 + 8 * n := by
    unfold ObjectVM.newBytes
    rw [(hmirrors.cells.regs d.rb).eq_word hplain, Cell.number, hlen]
    rfl
  rcases h.allocating hmirrors hquiet hmax hlive with ⟨hover, vm1, hfail, _⟩ | ⟨hcompact, _⟩
  · -- a collection that fails ends the `arr`
    rw [initArray_refused d.ra d.rc hlen (gcCollectedHeapAlloc_refused hover hfail)] at hrun
    exact absurd hrun (by simp)
  · rcases hmirrors.allocating d hquiet (8 * n + 8) with ⟨vm1, hfail⟩ | ⟨rows1, number1, h1, halloc⟩
    · rw [initArray_refused d.ra d.rc hlen hfail] at hrun
      exact absurd hrun (by simp)
    · rcases initArray_placed d.ra d.rc hlen halloc h1.rooted.represents hfit with
        ⟨vm1, hfail⟩ | ⟨sp, s', rows', p, t, hinit, _, hall, _, _⟩
      · rw [hfail] at hrun
        exact absurd hrun (by simp)
      · rw [hinit] at hrun
        injection hrun with _ hvm
        rw [hsize] at hblock
        unfold peakBytes
        exact hcompact.placed d.ra hblock h1.rooted.represents.counts hall hvm.symm howns

/-- **`end` leaves nothing.** -/
theorem Compact.ended (h : Compact al max bound vm) (hrun : executeOp .opEnd d vm = .ok () vm') :
    Compact al max bound vm' := by
  obtain ⟨howns, _, hempty⟩ := end_owns h.owns hrun
  refine ⟨howns, (hempty _).1.packed, ?_, ?_, (hempty _).1, fun half => ?_⟩
  · rw [(hempty _).1.2]
    unfold Heap.used
    rw [(hempty _).1.1]
    rfl
  · rw [(hempty _).1.2]
    exact Nat.zero_le _
  · exact (hempty half).2.trans (h.limit half)

/-- Only `arr`, `end` and a dereferencing `mov` can reach the heaps. -/
theorem Effect.heaps {opcode : Opcode} (h : Effect vm opcode d vm') (harr : opcode ≠ .opArrInit)
    (hend : opcode ≠ .opEnd) (hmov : opcode = .opMov → d.rc = 0) :
    vm'.active = vm.active ∧ ∀ half, vm'.heap half = vm.heap half := by
  cases h with
  | deref flag run =>
      have hzero := hmov rfl
      rw [hzero] at flag
      exact absurd flag (by decide)
  | arr run => exact absurd rfl harr
  | end_ => exact absurd rfl hend
  | _ => exact ⟨rfl, fun half => by cases half <;> rfl⟩

/-- **A tame round keeps a heap compact.** -/
theorem Compact.step {i : Opcode × DecodedInstr}
    (h : Compact al max (peakBytes max live block) c.vm)
    (hmirrors : Mirrors c rows number m) (hmax : max ≤ 2 ^ 51)
    (hstep : Guarded TraceStep Tame c i c') (hwithin : m.Within live block i) :
    Compact al max (peakBytes max live block) c'.vm := by
  obtain ⟨⟨hexec, -, -⟩, hfree, hsafe⟩ := hstep
  obtain ⟨opcode, d⟩ := i
  obtain ⟨w, hword, hdecode⟩ := hexec.word
  simp only at hdecode
  subst hdecode
  have hrun := hexec.run
  rw [iterate_of_word hword hexec.opcode] at hrun
  have hfetched := h.fetched
  by_cases harr : opcode = .opArrInit
  · subst harr
    obtain ⟨_, _, hip⟩ := hmirrors.fetched_word hword
    obtain ⟨hlive, hblock⟩ := hwithin rfl
    unfold executeOp at hrun
    rw [get_bind] at hrun
    have hrun : initArray (decode w).ra (decode w).rb (decode w).rc c.vm.fetched
        = .ok () c'.vm := hrun
    exact Compact.arr hfetched (hmirrors.fetched hip) hmax hfree hsafe.1 hsafe.2 hlive hblock hrun
  · by_cases hend : opcode = .opEnd
    · subst hend
      exact hfetched.ended hrun
    · have heffect := hexec.effect
      obtain ⟨hactive, hheap⟩ := heffect.heaps harr hend fun hmov => by
        subst hmov
        exact hfree
      exact hfetched.of_heaps ((ownsChunks_kept.executeOp _ _).ok hfetched.owns hrun) hactive hheap

end Compact

/-! ## §4. Runs. -/

section Run

variable {live block : Nat} {c : RootTrace} {m : ObjectVM} {is : List (Opcode × DecodedInstr)}

/-- The machine is compact at the start. -/
theorem Compact.start {max : Nat} {file : Image} {allocator : Allocator} {fpu : Fpu} {vm : VM}
    (hinit : initWith max (VM.zeroed file allocator fpu) = .ok () vm) (bound : Nat) :
    Compact allocator max bound vm := by
  obtain ⟨howns, _⟩ := initWith_owns hinit
  obtain ⟨header, table, _, _, rfl⟩ := initWith_effect hinit
  exact ⟨howns, List.IsChain.nil, rfl, Nat.zero_le _, ⟨rfl, rfl⟩,
    fun half => by cases half <;> rfl⟩

/-- The VM beside the object machine, which says what the program needs. -/
theorem compact_beside {max : Nat} {file : Image} {allocator : Allocator} {fpu : Fpu} {vm : VM}
    (hinit : initWith max (VM.zeroed file allocator fpu) = .ok () vm) (hmax : max ≤ 2 ^ 51)
    (hrun : Steps (Guarded TraceStep Tame) (RootTrace.start vm) is c)
    (hneeds : Steps (Guarded ObjectVM.Step (ObjectVM.Within live block)) (ObjectVM.start vm) is
      m) :
    Follows c m ∧ Compact allocator max (peakBytes max live block) c.vm := by
  refine hrun.lockstep
    (R := fun c m => Follows c m ∧ Compact allocator max (peakBytes max live block) c.vm) hneeds
    ⟨Follows.start hinit, Compact.start hinit _⟩ fun c i c' m m' hR hstep hstep' => ?_
  obtain ⟨hfollows, hcompact⟩ := hR
  obtain ⟨m'', hnext, hfollows'⟩ := hfollows.step hstep
  obtain ⟨_, rfl⟩ := hnext.deterministic hstep'.1
  obtain ⟨rows, number, hmirrors⟩ := hfollows.mirrored hstep.1.executes.running
  exact ⟨hfollows', hcompact.step hmirrors hmax hstep hstep'.2⟩

end Run

/-! ## §5. A program and its needs. -/

namespace ObjectVM

/-- The instruction a state is in front of. -/
def instruction (m : ObjectVM) : Option DecodedInstr :=
  match m.ip with
  | .word ip => (readU32 m.code.bytes ip.toNat).map decode
  | .array _ => none

/-- The state behind it, if it can be executed. -/
def next (m : ObjectVM) (_ : Opcode × DecodedInstr) : ObjectVM :=
  match m.step with
  | .ok m' => m'
  | .error _ => m

/-- The instruction is the next one of the object machine, and has a result. -/
def MayStep (m : ObjectVM) (i : Opcode × DecodedInstr) : Prop :=
  m.running = true ∧ m.instruction = some i.2 ∧ Opcode.ofByte i.2.opcode = some i.1 ∧
    m.step.isOk = true

instance (m : ObjectVM) (i : Opcode × DecodedInstr) : Decidable (m.MayStep i) :=
  inferInstanceAs (Decidable (_ ∧ _ ∧ _ ∧ _))

/-- An instruction that may step is a step. -/
theorem Step.next {m : ObjectVM} {i : Opcode × DecodedInstr} (h : m.MayStep i) :
    m.Step i (m.next i) := by
  obtain ⟨hrunning, hinstr, hop, hok⟩ := h
  refine ⟨hrunning, ?_, hop, ?_⟩
  · unfold instruction at hinstr
    cases hip : m.ip with
    | array k =>
        rw [hip] at hinstr
        exact absurd hinstr (by simp)
    | word ip =>
        rw [hip] at hinstr
        obtain ⟨w, hw, hdecode⟩ := Option.map_eq_some_iff.1 hinstr
        refine ⟨ip, w, rfl, ?_, hdecode⟩
        unfold wordAt
        rw [hw]
  · unfold ObjectVM.next
    cases hstep : m.step with
    | ok m' => rfl
    | error e =>
        rw [hstep] at hok
        exact absurd hok Bool.false_ne_true

end ObjectVM

/-- Each array of `twoArrays` takes 48 bytes, and the second is made while the
first is alive. -/
theorem twoArrays_needs (vm : VM) (is : List (Opcode × DecodedInstr))
    (h : Along ObjectVM.next (fun m i => m.MayStep i ∧ m.Within 48 48 i) (ObjectVM.start vm) is) :
    Steps (Guarded ObjectVM.Step (ObjectVM.Within 48 48)) (ObjectVM.start vm) is
      (is.foldl ObjectVM.next (ObjectVM.start vm)) :=
  Steps.of_along (fun _ _ hmay => ⟨ObjectVM.Step.next hmay.1, hmay.2⟩) h

/-- **The footprint of a tame program is bounded by what it keeps alive.**
Whenever it makes an array, let those it can still name take at most `live`
bytes and the new one at most `block`; then the heap never holds more than
`peakBytes`, and no more chunks are in use than these bytes ask for. -/
theorem footprint_bounded (max live block : Nat) (hmax : max ≤ 2 ^ 51) (file : Image)
    (allocator : Allocator) (fpu : Fpu) {vm : VM}
    (hinit : initWith max (VM.zeroed file allocator fpu) = .ok () vm)
    {is : List (Opcode × DecodedInstr)} {c : RootTrace} {m : ObjectVM}
    (hrun : Steps (Guarded TraceStep Tame) (RootTrace.start vm) is c)
    (hneeds : Steps (Guarded ObjectVM.Step (ObjectVM.Within live block)) (ObjectVM.start vm) is
      m) :
    (c.vm.heap c.vm.active).totalAllocated ≤ peakBytes max live block ∧
    c.vm.store.live.length ≤ chunksFor (peakBytes max live block) := by
  obtain ⟨_, hcompact⟩ := compact_beside hinit hmax hrun hneeds
  exact ⟨hcompact.total, hcompact.live_le⟩

/-- With limit 0 every array after the first collects, and one chunk is
enough. -/
theorem footprint_bounded_twoArrays :
    ((twoArraysAfter 0 twoArraysRun).vm.heap
      (twoArraysAfter 0 twoArraysRun).vm.active).totalAllocated ≤ peakBytes 0 48 48 ∧
    (twoArraysAfter 0 twoArraysRun).vm.store.live.length ≤ chunksFor (peakBytes 0 48 48) :=
  footprint_bounded 0 48 48 (Nat.zero_le _) twoArrays Allocator.ascending Fpu.quiet
    (twoArrays_init 0 (by decide +kernel)) twoArrays_collecting
    (twoArrays_needs _ twoArraysRun (by decide +kernel))

end SproutLang
