/-
  SproutLang.VM.Heap.CollectorFrame
  ─────────────────────────────────
  **WHAT A COLLECTION CANNOT TOUCH.**

  Whatever the heap looks like, a collection that returns has changed no
  register and no stack slot but those that held a pointer, and of the stack
  only slots below `sp`: marking keeps a slot only when it reads a pointer in
  it, patching writes only the slots kept.

    • `markSlots_found`   — marking keeps slots that hold a pointer,
    • `patchSlots_frame`  — patching writes the slots it is given,
    • `initArray_frame`   — so an `arr` changes `dst` and pointers only.
-/
import SproutLang.VM.Heap.Collection
import SproutLang.VM.Effects

namespace SproutLang

open Library

/-! ## §1. Marking. -/

section Marking

variable {vm vm' : VM} {s : Slot} {slots found : List Slot} {r : Word}

/-- `vm'` is `vm` with another memory. -/
def SameButStore (vm vm' : VM) : Prop := ∃ s, vm' = vm.setStore s

theorem SameButStore.refl (vm : VM) : SameButStore vm vm := ⟨vm.store, rfl⟩

theorem SameButStore.trans {vm'' : VM} (h : SameButStore vm vm') (h' : SameButStore vm' vm'') :
    SameButStore vm vm'' := by
  obtain ⟨s, rfl⟩ := h
  obtain ⟨s', rfl⟩ := h'
  exact ⟨s', rfl⟩

/-- A computation on memory changes memory only. -/
theorem onStore_same {α : Type} {x : EStateM Fault Store α} {a : α}
    (h : onStore x vm = .ok a vm') : SameButStore vm vm' := by
  obtain ⟨s, _, rfl⟩ := zoom_eq_ok.1 h
  exact ⟨s, rfl⟩

/-- A slot outside memory reads the same whatever the memory is. -/
def Slot.OutsideMemory : Slot → Prop
  | .heap _ => False
  | _ => True

theorem SameButStore.value_eq (h : SameButStore vm vm') (hs : s.OutsideMemory) :
    s.value vm' = s.value vm := by
  obtain ⟨st, rfl⟩ := h
  cases s with
  | reg r => rfl
  | stack i => rfl
  | heap a => exact hs.elim

/-- A read returns what the slot holds. -/
theorem slot_read_eq (h : s.read vm = .ok r vm') : r = s.value vm ∧ vm' = vm := by
  cases s with
  | reg r =>
      injection h with hr hvm
      exact ⟨hr.symm, hvm.symm⟩
  | stack i =>
      have h : loadSlot i vm = .ok r vm' := h
      unfold loadSlot at h
      split at h
      · injection h with hr hvm
        exact ⟨hr.symm, hvm.symm⟩
      · exact absurd h (by simp)
  | heap a =>
      obtain ⟨_, hr, hvm⟩ := onStore_load_effect h
      exact ⟨hr, hvm⟩

/-- Only pointers are marked. -/
theorem markObject_true {st st' : Store} (h : markObject r st = .ok true st') :
    isPointer r = true := by
  unfold markObject at h
  by_cases hptr : isPointer r = true
  · exact hptr
  · rw [if_neg hptr] at h
    injection h with hb _
    exact absurd hb Bool.false_ne_true

/-- **Marking keeps slots that hold a pointer** and changes nothing but
memory. -/
theorem markSlots_found (slots : List Slot) : ∀ {vm vm' : VM} {found : List Slot},
    markSlots slots vm = .ok found vm' → SameButStore vm vm' ∧
      ∀ s ∈ found, s ∈ slots ∧ (s.OutsideMemory → s.holdsPointer vm = true) := by
  -- on the slots; only the memory changes, so a slot outside it keeps its value
  induction slots with
  | nil =>
      intro vm vm' found h
      injection h with hfound hvm
      subst hfound hvm
      exact ⟨SameButStore.refl vm, fun s hs => absurd hs List.not_mem_nil⟩
  | cons s slots ih =>
      intro vm vm' found h
      unfold markSlots at h
      obtain ⟨r, vm1, hread, hrest⟩ := bind_eq_ok.1 h
      obtain ⟨rfl, rfl⟩ := slot_read_eq hread
      obtain ⟨isPtr, vm2, hmark, hmore⟩ := bind_eq_ok.1 hrest
      have hsame := onStore_same hmark
      obtain ⟨rest, vm3, hslots, hreturn⟩ := bind_eq_ok.1 hmore
      obtain ⟨hsame', hfound⟩ := ih hslots
      have hkept : ∀ t ∈ rest, t ∈ s :: slots ∧
          (t.OutsideMemory → t.holdsPointer vm1 = true) := by
        intro t ht
        obtain ⟨hmem, hptr⟩ := hfound t ht
        refine ⟨List.mem_cons_of_mem _ hmem, fun hout => ?_⟩
        have hheld := hptr hout
        unfold Slot.holdsPointer at hheld ⊢
        rw [hsame.value_eq hout] at hheld
        exact hheld
      injection hreturn with hlist hvm
      subst hvm
      refine ⟨hsame.trans hsame', ?_⟩
      -- what `markObject` answered decides whether `s` is found
      cases isPtr with
      | true =>
          rw [if_pos rfl] at hlist
          subst hlist
          obtain ⟨st, hst, _⟩ := zoom_eq_ok.1 hmark
          intro t ht
          rcases List.mem_cons.1 ht with rfl | ht
          · exact ⟨List.mem_cons_self, fun _ => markObject_true hst⟩
          · exact hkept t ht
      | false =>
          rw [if_neg Bool.false_ne_true] at hlist
          subst hlist
          exact hkept

/-- The interior scan of an object visits memory. -/
theorem interiorSlots_heap {object : Nat} {st st' : Store}
    (h : interiorSlots object st = .ok slots st') : ∀ s ∈ slots, ¬ s.OutsideMemory := by
  unfold interiorSlots at h
  obtain ⟨w, st1, _, hrest⟩ := bind_eq_ok.1 h
  have hnone : ∀ {st1 st2 : Store}, (pure [] : EStateM Fault Store (List Slot)) st1
      = .ok slots st2 → ∀ s ∈ slots, ¬ s.OutsideMemory := by
    intro st1 st2 hpure
    injection hpure with hlist _
    subst hlist
    exact fun s hs => absurd hs List.not_mem_nil
  split at hrest
  · obtain ⟨array, st2, _, hmore⟩ := bind_eq_ok.1 hrest
    split at hmore
    · injection hmore with hlist _
      subst hlist
      intro s hs
      obtain ⟨i, _, rfl⟩ := List.mem_map.1 hs
      exact fun hout => hout
    · exact hnone hmore
  · exact hnone hrest

/-- The interior scan finds slots in memory. -/
theorem markInterior_found (objects : List Nat) : ∀ {vm vm' : VM} {found : List Slot},
    markInterior objects vm = .ok found vm' →
      SameButStore vm vm' ∧ ∀ s ∈ found, ¬ s.OutsideMemory := by
  induction objects with
  | nil =>
      intro vm vm' found h
      injection h with hfound hvm
      subst hfound hvm
      exact ⟨SameButStore.refl vm, fun s hs => absurd hs List.not_mem_nil⟩
  | cons object objects ih =>
      intro vm vm' found h
      unfold markInterior at h
      obtain ⟨slots, vm1, hslots, hrest⟩ := bind_eq_ok.1 h
      obtain ⟨first, vm2, hfirst, hmore⟩ := bind_eq_ok.1 hrest
      obtain ⟨rest, vm3, hobjects, hreturn⟩ := bind_eq_ok.1 hmore
      obtain ⟨hsame, hfound⟩ := markSlots_found slots hfirst
      obtain ⟨hsame', hinner⟩ := ih hobjects
      injection hreturn with hlist hvm
      subst hlist hvm
      refine ⟨(onStore_same hslots).trans (hsame.trans hsame'), fun s hs => ?_⟩
      rcases List.mem_append.1 hs with hs | hs
      · obtain ⟨st, hst, _⟩ := zoom_eq_ok.1 hslots
        exact interiorSlots_heap hst s (hfound s hs).1
      · exact hinner s hs

/-- **The mark phase finds roots that hold a pointer**, and slots in memory. -/
theorem markObjects_found (h : markObjects vm = .ok found vm') :
    SameButStore vm vm' ∧ ∀ s ∈ found, s.OutsideMemory →
      s ∈ rootSlots vm ∧ s.holdsPointer vm = true := by
  unfold markObjects at h
  rw [get_bind] at h
  obtain ⟨objects, vm1, hobjects, hrest⟩ := bind_eq_ok.1 h
  obtain ⟨roots, vm2, hroots, hmore⟩ := bind_eq_ok.1 hrest
  obtain ⟨interior, vm3, hinterior, hreturn⟩ := bind_eq_ok.1 hmore
  have hsame1 := onStore_same hobjects
  obtain ⟨hsame2, hfound⟩ := markSlots_found _ hroots
  obtain ⟨hsame3, hinner⟩ := markInterior_found _ hinterior
  injection hreturn with hlist hvm
  subst hlist hvm
  refine ⟨hsame1.trans (hsame2.trans hsame3), fun s hs hout => ?_⟩
  rcases List.mem_append.1 hs with hs | hs
  · obtain ⟨hroot, hptr⟩ := hfound s hs
    refine ⟨hroot, ?_⟩
    have hheld := hptr hout
    unfold Slot.holdsPointer at hheld ⊢
    rw [hsame1.value_eq hout] at hheld
    exact hheld
  · exact absurd hout (hinner s hs)

end Marking

/-! ## §2. Patching. -/

/-- **Only the listed slots differ**, apart from memory and heaps. -/
structure SlotFrame (vm vm' : VM) (slots : List Slot) : Prop where
  control : vm'.control = vm.control
  value : ∀ s, s.OutsideMemory → s ∉ slots → s.value vm' = s.value vm

section Patching

variable {vm vm' : VM} {s : Slot} {slots : List Slot}

theorem SlotFrame.of_same (h : SameButStore vm vm') (slots : List Slot) :
    SlotFrame vm vm' slots := by
  refine ⟨?_, fun s hout _ => h.value_eq hout⟩
  obtain ⟨st, rfl⟩ := h
  rfl

theorem SlotFrame.trans {vm'' : VM} (h : SlotFrame vm vm' slots)
    (h' : SlotFrame vm' vm'' slots) : SlotFrame vm vm'' slots :=
  ⟨h'.control.trans h.control,
    fun s hout hs => (h'.value s hout hs).trans (h.value s hout hs)⟩

/-- A write changes its slot only. -/
theorem slot_write_frame {w : Word} (h : s.write w vm = .ok () vm') :
    SlotFrame vm vm' [s] := by
  -- one case for each kind of slot, and in it for each kind of the other
  cases s with
  | reg r =>
      injection h with _ hvm
      subst hvm
      refine ⟨rfl, fun t hout ht => ?_⟩
      cases t with
      | reg r' =>
          exact VM.setReg_of_ne (fun heq => ht (by rw [heq]; exact List.mem_singleton_self _))
      | stack i => rfl
      | heap a => exact hout.elim
  | stack i =>
      have h : storeSlot i w vm = .ok () vm' := h
      unfold storeSlot at h
      split at h
      · injection h with _ hvm
        subst hvm
        refine ⟨rfl, fun t hout ht => ?_⟩
        cases t with
        | reg r => rfl
        | stack j =>
            exact VM.setSlot_of_ne (fun heq => ht (by rw [heq]; exact List.mem_singleton_self _))
        | heap a => exact hout.elim
      · exact absurd h (by simp)
  | heap a => exact SlotFrame.of_same (onStore_same h) _

/-- **Patching writes the slots it is given.** -/
theorem patchSlots_frame (slots : List Slot) : ∀ {vm vm' : VM},
    patchSlots slots vm = .ok () vm' → SlotFrame vm vm' slots := by
  induction slots with
  | nil =>
      intro vm vm' h
      injection h with _ hvm
      subst hvm
      exact SlotFrame.of_same (SameButStore.refl vm) _
  | cons s slots ih =>
      intro vm vm' h
      unfold patchSlots patchSlot at h
      obtain ⟨_, vm3, hpatch, hrest⟩ := bind_eq_ok.1 h
      obtain ⟨raw, vm1, hread, hmore⟩ := bind_eq_ok.1 hpatch
      obtain ⟨_, rfl⟩ := slot_read_eq hread
      obtain ⟨fwd, vm2, hload, hwrite⟩ := bind_eq_ok.1 hmore
      obtain ⟨_, _, rfl⟩ := onStore_load_effect hload
      have hfirst := slot_write_frame hwrite
      have hothers := ih hrest
      refine ⟨hothers.control.trans hfirst.control, fun t hout ht => ?_⟩
      rw [List.mem_cons, not_or] at ht
      rw [hothers.value t hout ht.2]
      exact hfirst.value t hout (by rw [List.mem_singleton]; exact ht.1)

/-- A computation on a half changes no slot outside memory. -/
theorem onHeap_frame {α : Type} {half : Half} {x : EStateM Fault Space α} {a : α}
    (h : onHeap half x vm = .ok a vm') (slots : List Slot) : SlotFrame vm vm' slots := by
  obtain ⟨hcontrol, hreg, hstack, _⟩ := onHeap_effect h
  refine ⟨hcontrol, fun s hout _ => ?_⟩
  cases s with
  | reg r => exact congrFun hreg r
  | stack i => exact congrFun hstack i
  | heap a => exact hout.elim

end Patching

/-! ## §3. Collections and allocations. -/

/-- **Only pointers changed**, and of the stack only slots below `sp`; nothing
did unless there was a collection. -/
structure Repointed (collection : Prop) (vm vm' : VM) : Prop where
  control : vm'.control = vm.control
  regs : ∀ r, ¬ (collection ∧ isPointer (vm.reg r) = true) → vm'.reg r = vm.reg r
  stack : ∀ i, ¬ (collection ∧ i < vm.sp.toNat ∧ isPointer (vm.stack i) = true) →
    vm'.stack i = vm.stack i

section Allocation

variable {vm vm' : VM}

/-- What changes only roots with pointers repoints. -/
theorem Repointed.of_frame {slots : List Slot} (h : SlotFrame vm vm' slots)
    (hslots : ∀ s ∈ slots, s.OutsideMemory → s ∈ rootSlots vm ∧ s.holdsPointer vm = true) :
    Repointed True vm vm' where
  control := h.control
  regs r hr := by
    refine h.value (.reg r) trivial (fun hmem => hr ⟨trivial, ?_⟩)
    exact (hslots _ hmem trivial).2
  stack i hi := by
    refine h.value (.stack i) trivial (fun hmem => hi ⟨trivial, ?_⟩)
    obtain ⟨hroot, hptr⟩ := hslots _ hmem trivial
    exact ⟨mem_rootSlots_stack.1 hroot, hptr⟩

/-- **A collection repoints.** -/
theorem collect_repointed (h : compactingGarbageCollect vm = .ok () vm') :
    Repointed True vm vm' := by
  unfold compactingGarbageCollect at h
  obtain ⟨found, vm1, hmark, hrest⟩ := bind_eq_ok.1 h
  rw [get_bind] at hrest
  obtain ⟨_, vm2, hmove, hmore⟩ := bind_eq_ok.1 hrest
  obtain ⟨_, vm3, hupdate, hflip⟩ := bind_eq_ok.1 hmore
  unfold updatePtrHolder at hupdate
  obtain ⟨_, vm4, hpatch, hfree⟩ := bind_eq_ok.1 hupdate
  injection hflip with _ hvm
  subst hvm
  obtain ⟨hsame, hfound⟩ := markObjects_found hmark
  have hframe : SlotFrame vm vm3 found :=
    (SlotFrame.of_same hsame found).trans ((onHeap_frame hmove found).trans
      ((patchSlots_frame found hpatch).trans (onHeap_frame hfree found)))
  have hflipped : SlotFrame vm { vm3 with heapAUsed := !vm3.heapAUsed } found := by
    refine ⟨hframe.control, fun s hout hs => ?_⟩
    rw [← hframe.value s hout hs]
    cases s <;> rfl
  exact Repointed.of_frame hflipped hfound

/-- So does an allocation, if it collects. -/
theorem gcCollectedHeapAlloc_repointed {size type p : Nat}
    (h : gcCollectedHeapAlloc size type vm = .ok p vm') : Repointed vm.collects vm vm' := by
  unfold gcCollectedHeapAlloc at h
  rw [get_bind] at h
  simp only at h
  split at h
  · rename_i hover
    obtain ⟨_, vm1, hcollect, hrest⟩ := bind_eq_ok.1 h
    rw [get_bind] at hrest
    have hfirst := collect_repointed hcollect
    have hframe := onHeap_frame hrest []
    refine ⟨hframe.control.trans hfirst.control, fun r hr => ?_, fun i hi => ?_⟩
    · rw [← hfirst.regs r (fun hc => hr ⟨hover, hc.2⟩)]
      exact hframe.value (.reg r) trivial List.not_mem_nil
    · rw [← hfirst.stack i (fun hc => hi ⟨hover, hc.2⟩)]
      exact hframe.value (.stack i) trivial List.not_mem_nil
  · rw [get_bind] at h
    have hframe := onHeap_frame h []
    exact ⟨hframe.control, fun r _ => hframe.value (.reg r) trivial List.not_mem_nil,
      fun i _ => hframe.value (.stack i) trivial List.not_mem_nil⟩

/-- **An `arr` changes its destination register and pointers only.** -/
theorem initArray_frame {dst len type : Byte} (h : initArray dst len type vm = .ok () vm') :
    ∃ vm1 w, Repointed vm.collects vm vm1 ∧ vm' = vm1.setReg dst w := by
  unfold initArray at h
  rw [get_bind] at h
  simp only at h
  obtain ⟨ptr, vm1, halloc, h1⟩ := bind_eq_ok.1 h
  obtain ⟨_, vm2, hload, h2⟩ := bind_eq_ok.1 h1
  obtain ⟨_, vm3, hstore, h3⟩ := bind_eq_ok.1 h2
  rw [get_bind] at h3
  obtain ⟨_, vm4, hload', h4⟩ := bind_eq_ok.1 h3
  obtain ⟨_, vm5, hstore', h5⟩ := bind_eq_ok.1 h4
  obtain ⟨_, vm6, hfill, h6⟩ := bind_eq_ok.1 h5
  injection h6 with _ hvm
  have hsame : SameButStore vm1 vm6 :=
    (onStore_same hload).trans ((onStore_same hstore).trans ((onStore_same hload').trans
      ((onStore_same hstore').trans (onStore_same hfill))))
  have halloced := gcCollectedHeapAlloc_repointed halloc
  refine ⟨vm6, _, ?_, hvm.symm⟩
  obtain ⟨st, rfl⟩ := hsame
  exact ⟨halloced.control, halloced.regs, halloced.stack⟩

end Allocation

end SproutLang
