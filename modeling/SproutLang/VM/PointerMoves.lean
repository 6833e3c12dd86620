/-
  SproutLang.VM.PointerMoves
  ──────────────────────────
  **`mov` THROUGH A POINTER** (`src/vm/execution.h`).

  Flags 1 to 3 are documented as a load, a store and a copy through the
  pointers in the operands.  `moveArray` takes the address out of the NaN
  box; `mov` dereferences the boxed word as it stands, and no memory lies
  that high:

    • `tagged_not_mapped` — a pointer word is not the address of anything,
    • `mov_never_moves`   — so none of the three flags ever does its move,
    • `run_never_moves`   — in whatever state a run may come to.
-/
import SproutLang.VM.Heap.AccessCheck
import SproutLang.VM.Loader
import SproutLang.VM.UserSpace

namespace SproutLang

open Library

/-! ## §1. What the flags promise. -/

/-- The register holds the boxed address of an allocated word. -/
def PointsToWord (vm : VM) (r : Byte) : Prop :=
  ∃ a < 2 ^ 48, vm.reg r = encodePointer (BitVec.ofNat 64 a) ∧ vm.store.Mapped a

/-- The operands that are dereferenced are pointers: the source under flags 1
and 3, the destination under 2 and 3. -/
structure PointerOperands (dst src flag : Byte) (vm : VM) : Prop where
  throughPointer : flag = 1 ∨ flag = 2 ∨ flag = 3
  source : flag = 1 ∨ flag = 3 → PointsToWord vm src
  destination : flag = 2 ∨ flag = 3 → PointsToWord vm dst

/-- The machine after the move of the flag: one register or one word of
memory is new. -/
def movedThrough (dst src flag : Byte) (vm : VM) : VM :=
  let srcAddr := decodePointer (vm.reg src)
  let dstAddr := decodePointer (vm.reg dst)
  if flag = 1 then vm.setReg dst (vm.store.word srcAddr)
  else if flag = 2 then vm.setStore (vm.store.put dstAddr (vm.reg src))
  else vm.setStore (vm.store.put dstAddr (vm.store.word srcAddr))

/-- The instruction does the move of its flag. -/
def MovesThrough (dst src flag : Byte) (vm : VM) : Prop :=
  mov dst src flag vm = .ok () (movedThrough dst src flag vm)

/-- What is stored through the pointer in `p` is loaded through the one in
`q`. -/
def StoreThenLoad (p q value dst : Byte) (vm : VM) : Prop :=
  ∃ vm', (mov p value 2 >>= fun _ => mov dst q 1) vm = .ok () vm' ∧ vm'.reg dst = vm.reg value

/-! ## §2. What they do. -/

section Moves

variable {vm : VM} {dst src flag : Byte}

/-- The tag bits make a pointer word larger than any address. -/
theorem tagged_not_mapped (hspace : vm.store.UserSpace) {r : Byte} (hr : PointsToWord vm r) :
    ¬ vm.store.Mapped (vm.reg r).toNat := by
  obtain ⟨a, _, hword, _⟩ := hr
  intro hmapped
  have hlt := hspace.mapped_lt hmapped
  rw [hword, toNat_encodePointer] at hlt
  omega

/-- **A move through a pointer is undefined behaviour, whatever the flag.** -/
theorem mov_undefined (hspace : vm.store.UserSpace) (h : PointerOperands dst src flag vm) :
    mov dst src flag vm = .error .undefinedBehaviour vm := by
  have hload : flag = 1 ∨ flag = 3 →
      onStore (load (vm.reg src).toNat) vm = .error .undefinedBehaviour vm := fun hf =>
    onStore_load_unmapped (tagged_not_mapped hspace (h.source hf))
  unfold mov
  rw [get_bind]
  rcases h.throughPointer with hflag | hflag | hflag
  · rw [if_pos hflag]
    exact bind_error (hload (Or.inl hflag))
  · rw [if_neg (by rw [hflag]; decide), if_pos hflag]
    exact onStore_store_unmapped (tagged_not_mapped hspace (h.destination (Or.inl hflag)))
  · rw [if_neg (by rw [hflag]; decide), if_neg (by rw [hflag]; decide), if_pos hflag]
    exact bind_error (hload (Or.inr hflag))

/-- **No flag ever does its move**, and no load ever sees a store. -/
theorem mov_never_moves (hspace : vm.store.UserSpace) :
    (∀ dst src flag, PointerOperands dst src flag vm → ¬ MovesThrough dst src flag vm) ∧
    ∀ p q value dst, PointsToWord vm p → vm.reg q = vm.reg p →
      ¬ StoreThenLoad p q value dst vm := by
  constructor
  · intro dst src flag h hmoves
    unfold MovesThrough at hmoves
    rw [mov_undefined hspace h] at hmoves
    cases hmoves
  · intro p q value dst hp _ hlaw
    have hstore : PointerOperands p value 2 vm :=
      { throughPointer := Or.inr (Or.inl rfl)
        source := fun hf => absurd hf (by decide)
        destination := fun _ => hp }
    obtain ⟨vm', hrun, _⟩ := hlaw
    rw [bind_error (mov_undefined hspace hstore)] at hrun
    cases hrun

/-- A run that begins with no memory allocated never comes to a state in
which a move through a pointer would be done. -/
theorem run_never_moves (hempty : vm.store.live = []) (rounds : Nat)
    (h : PointerOperands dst src flag (finalState (run rounds vm))) :
    ¬ MovesThrough dst src flag (finalState (run rounds vm)) :=
  (mov_never_moves (run_userSpace rounds vm (Store.userSpace_of_empty hempty))).1 dst src flag h

end Moves

/-- A machine with one region of eight words; register 1 holds a pointer to
its first word, the others the integer 0. -/
def oneRegion : VM :=
  { VM.booted (fun r => if r = 1 then encodePointer 4096 else encodeInt 0) with
    store := ⟨Allocator.ascending, [⟨4096, 64⟩], fun _ => 0, 1⟩ }

theorem oneRegion_userSpace : oneRegion.store.UserSpace := by
  intro r hr
  rw [List.mem_singleton.1 hr]
  decide

/-- Register 1 points to a word. -/
theorem oneRegion_points : PointsToWord oneRegion 1 := ⟨4096, by decide, rfl, by decide⟩

theorem oneRegion_operands : PointerOperands 3 1 1 oneRegion where
  throughPointer := Or.inl rfl
  source _ := oneRegion_points
  destination hf := absurd hf (by decide)

/-- With it, neither form moves anything. -/
theorem mov_never_moves_oneRegion :
    ¬ MovesThrough 3 1 1 oneRegion ∧ ¬ StoreThenLoad 1 1 2 3 oneRegion :=
  ⟨(mov_never_moves oneRegion_userSpace).1 3 1 1 oneRegion_operands,
    (mov_never_moves oneRegion_userSpace).2 1 1 2 3 oneRegion_points rfl⟩

/-- **Array access reads through the pointer that `mov` cannot follow.** -/
theorem mov_differs_from_moveArray :
    PointerOperands 3 1 1 oneRegion ∧ ¬ MovesThrough 3 1 1 oneRegion ∧
    ∃ vm', moveArray 3 1 2 1 oneRegion = .ok () vm' := by
  have hfields : FieldsMapped oneRegion 1 := by
    unfold FieldsMapped
    decide
  have hmov := mov_undefined oneRegion_userSpace oneRegion_operands
  have hread := @moveArray_passed_load oneRegion 3 1 2 hfields (by decide)
  refine ⟨oneRegion_operands, fun h => ?_, _, hread.trans (if_pos (by decide))⟩
  unfold MovesThrough at h
  rw [hmov] at h
  cases h

end SproutLang
