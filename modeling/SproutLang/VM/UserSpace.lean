/-
  SproutLang.VM.UserSpace
  ───────────────────────
  **MEMORY STAYS BELOW `2^48`.**

  A pointer word has room for 48 bits of address, which is what `malloc`
  hands out.  Only `allocNewChunk` calls it, and everything else reads and
  writes words of regions that are there already:

    • `run_userSpace` — in every state a run stops in, every live region lies
      below `2^48`.
-/
import SproutLang.VM.MemoryInvariants

namespace SproutLang

open Library

/-! ## §1. Memory. -/

section OnMemory

/-- Every step of a loop over memory keeps to user space. -/
abbrev KeepsUserSpace {α : Type} (x : EStateM Fault Store α) : Prop := Preserves Store.UserSpace x

theorem copyWords_userSpace (dst src : Nat) : ∀ n, KeepsUserSpace (copyWords dst src n) := by
  intro n
  induction n with
  | zero => exact Preserves.pure _
  | succ n ih => exact ih.bind fun _ => (load_userSpace _).bind fun _ => store_userSpace _ _

theorem fillWords_userSpace (dst : Nat) (w : Word) : ∀ n, KeepsUserSpace (fillWords dst w n) := by
  intro n
  induction n with
  | zero => exact Preserves.pure _
  | succ n ih => exact ih.bind fun _ => store_userSpace _ _

theorem memcpy_userSpace (dst src bytes : Nat) : KeepsUserSpace (memcpy dst src bytes) := by
  refine (copyWords_userSpace dst src _).bind fun _ => ?_
  split
  · exact (load_userSpace _).bind fun _ => (load_userSpace _).bind fun _ => store_userSpace _ _
  · exact Preserves.pure _

theorem freeChunks_userSpace (chunks : List Chunk) : KeepsUserSpace (freeChunks chunks) := by
  induction chunks with
  | nil => exact Preserves.pure _
  | cons c cs ih => exact (free_userSpace _).bind fun _ => ih

theorem markObject_userSpace (r : Word) : KeepsUserSpace (markObject r) := by
  unfold markObject
  split
  · exact (load_userSpace _).bind fun _ => (store_userSpace _ _).bind fun _ => Preserves.pure _
  · exact Preserves.pure _

theorem walkChunk_userSpace (c : Chunk) (rounds : Nat) : ∀ i,
    KeepsUserSpace (walkChunk c rounds i) := by
  induction rounds with
  | zero =>
      intro i
      unfold walkChunk
      split
      · exact Preserves.throw _
      · exact Preserves.pure _
  | succ rounds ih =>
      intro i
      unfold walkChunk
      split
      · exact (load_userSpace _).bind fun _ => (ih _).bind fun _ => Preserves.pure _
      · exact Preserves.pure _

theorem getAllObjects_userSpace (chunks : List Chunk) :
    KeepsUserSpace (getAllObjects chunks) := by
  induction chunks with
  | nil => exact Preserves.pure _
  | cons c cs ih =>
      exact (walkChunk_userSpace c _ _).bind fun _ => ih.bind fun _ => Preserves.pure _

theorem interiorSlots_userSpace (object : Nat) : KeepsUserSpace (interiorSlots object) := by
  refine (load_userSpace _).bind fun w => ?_
  split
  · refine (load_userSpace _).bind fun array => ?_
    split
    · exact Preserves.pure _
    · exact Preserves.pure _
  · exact Preserves.pure _

end OnMemory

/-! ## §2. Memory and a heap. -/

section OnSpace

/-- The same of memory and a heap. -/
abbrev KeepsUserSpaceIn {α : Type} (x : EStateM Fault Space α) : Prop :=
  Preserves (fun sp => sp.store.UserSpace) x

/-- What memory keeps, the half keeps. -/
theorem inStore_userSpace {α : Type} {x : EStateM Fault Store α} (h : KeepsUserSpace x) :
    KeepsUserSpaceIn (inStore x) :=
  h.zoom (fun _ hs => hs) (fun _ _ _ ht => ht)

theorem allocNewChunk_userSpace : KeepsUserSpaceIn allocNewChunk := by
  refine (inStore_userSpace (malloc_userSpace _)).bind fun place => ?_
  cases place with
  | none => exact Preserves.throw _
  | some mem => exact Preserves.modify fun _ hs => hs

theorem placeInLast_userSpace (total type : Nat) : KeepsUserSpaceIn (placeInLast total type) := by
  refine Preserves.get.bind fun sp => ?_
  simp only
  split
  · exact Preserves.throw _
  · refine (inStore_userSpace (store_userSpace _ _)).bind fun _ => ?_
    refine (inStore_userSpace (store_userSpace _ _)).bind fun _ => ?_
    exact Preserves.bind (Preserves.modify fun _ hs => hs) fun _ => Preserves.pure _

theorem heapAlloc_userSpace (size type : Nat) : KeepsUserSpaceIn (heapAlloc size type) := by
  refine Preserves.get.bind fun sp => ?_
  simp only
  split
  · exact allocNewChunk_userSpace.bind fun _ => placeInLast_userSpace _ _
  · exact (Preserves.pure _).bind fun _ => placeInLast_userSpace _ _

theorem freeHeap_userSpace : KeepsUserSpaceIn freeHeap :=
  Preserves.get.bind fun _ => (inStore_userSpace (freeChunks_userSpace _)).bind fun _ =>
    Preserves.modify fun _ hs => hs

theorem evacuate_userSpace (obj : Nat) (w : Word) : KeepsUserSpaceIn (evacuate obj w) :=
  (heapAlloc_userSpace _ _).bind fun _ =>
    (inStore_userSpace (memcpy_userSpace _ _ _)).bind fun _ =>
      inStore_userSpace (store_userSpace _ _)

theorem moveChunk_userSpace (c : Chunk) (rounds : Nat) : ∀ i,
    KeepsUserSpaceIn (moveChunk c rounds i) := by
  induction rounds with
  | zero =>
      intro i
      unfold moveChunk
      split
      · exact Preserves.throw _
      · exact Preserves.pure _
  | succ rounds ih =>
      intro i
      unfold moveChunk
      have hload : ∀ a, KeepsUserSpaceIn (inStore (load a)) := fun a =>
        inStore_userSpace (load_userSpace a)
      split
      · refine (hload _).bind fun w => ?_
        simp only
        split
        · exact (evacuate_userSpace _ _).bind fun _ => (hload _).bind fun _ => ih _
        · exact (hload _).bind fun _ => ih _
      · exact Preserves.pure _

/-- Moving keeps to addresses of 48 bits. -/
theorem moveObjects_userSpace (chunks : List Chunk) : KeepsUserSpaceIn (moveObjects chunks) := by
  induction chunks with
  | nil => exact Preserves.pure _
  | cons c cs ih => exact (moveChunk_userSpace c _ _).bind fun _ => ih

end OnSpace

/-! ## §3. The machine. -/

section OnMachine

/-- The same of the machine. -/
abbrev MachineKeepsUserSpace {α : Type} (x : Exec α) : Prop :=
  Preserves (fun vm : VM => vm.store.UserSpace) x

/-- What memory keeps, the machine keeps. -/
theorem onStore_userSpace {α : Type} {x : EStateM Fault Store α} (h : KeepsUserSpace x) :
    MachineKeepsUserSpace (onStore x) :=
  h.zoom (fun _ hs => hs) (fun _ _ _ ht => ht)

/-- What a half keeps, the machine keeps. -/
theorem onHeap_userSpace {α : Type} {half : Half} {x : EStateM Fault Space α}
    (h : KeepsUserSpaceIn x) : MachineKeepsUserSpace (onHeap half x) :=
  h.zoom (fun _ hs => hs) (fun _ _ _ ht => ht)

/-- **It is an invariant of memory.** -/
theorem userSpace_kept : KeptInMemory (fun vm : VM => vm.store.UserSpace) where
  frame hstore _ _ hs := by
    rw [hstore]
    exact hs
  load a := onStore_userSpace (load_userSpace a)
  store a w := onStore_userSpace (store_userSpace a w)
  fillWords dst w n := onStore_userSpace (fillWords_userSpace dst w n)
  markObject r := onStore_userSpace (markObject_userSpace r)
  getAllObjects chunks := onStore_userSpace (getAllObjects_userSpace chunks)
  interiorSlots object := onStore_userSpace (interiorSlots_userSpace object)
  heapAlloc _ size type := onHeap_userSpace (heapAlloc_userSpace size type)
  moveObjects _ chunks := onHeap_userSpace (moveObjects_userSpace chunks)
  freeHeap _ := onHeap_userSpace freeHeap_userSpace

/-- **A run keeps memory in user space**, up to the instruction that stops it. -/
theorem run_userSpace (rounds : Nat) : MachineKeepsUserSpace (run rounds) :=
  userSpace_kept.run rounds

end OnMachine

end SproutLang
