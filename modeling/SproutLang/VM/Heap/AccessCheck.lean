/-
  SproutLang.VM.Heap.AccessCheck
  ──────────────────────────────
  **WHAT AN ARRAY ACCESS CHECKS.**

  `moveArray` compares the index with the length and looks at nothing else:
  neither at the tags of its operands nor at the sign of the index, and an
  index equal to the length passes.

    • `moveArray_refused`, `moveArray_passed` — what the comparison decides,
    • `access_checked_iff`                    — when that is enough.
-/
import SproutLang.VM.Heap.ArrayStore

namespace SproutLang

open Library

/-! ## §1. The comparison. -/

/-- The length of the array a register points to. -/
def lengthAt (vm : VM) (address : Byte) : Nat :=
  arrayLength (vm.store.word (decodePointer (vm.reg address) + SIZEOF_OBJ_HEADER))

/-- The fields of the array are memory. -/
def FieldsMapped (vm : VM) (address : Byte) : Prop :=
  vm.store.Mapped (decodePointer (vm.reg address) + SIZEOF_OBJ_HEADER)

section Access

variable {vm : VM} {target address index : Byte} {flag : Nat}

/-- A load outside memory is undefined. -/
theorem onStore_load_unmapped {a : Nat} (h : ¬ vm.store.Mapped a) :
    onStore (load a) vm = .error .undefinedBehaviour vm := by
  refine onStore_error ?_
  unfold load
  exact if_neg h

/-- So is a store. -/
theorem onStore_store_unmapped {a : Nat} {w : Word} (h : ¬ vm.store.Mapped a) :
    onStore (store a w) vm = .error .undefinedBehaviour vm := by
  refine onStore_error ?_
  unfold store
  exact if_neg h

/-- The length is read whatever the register holds. -/
theorem moveArray_unmapped (h : ¬ FieldsMapped vm address) :
    moveArray target address index flag vm = .error .undefinedBehaviour vm := by
  unfold moveArray
  rw [get_bind]
  exact bind_error (onStore_load_unmapped h)

/-- An index above the length is refused. -/
theorem moveArray_refused (h : FieldsMapped vm address)
    (hlt : (lengthAt vm address : Int) < decodeInt (vm.reg index)) :
    ∃ what, moveArray target address index flag vm = .error (.runtimeError what) vm := by
  unfold lengthAt at hlt
  unfold moveArray
  rw [get_bind]
  simp only
  rw [bind_ok (onStore_load h), if_pos hlt]
  exact ⟨_, bind_error throw_apply⟩

/-- Any other index is used, as it is. -/
theorem moveArray_passed (h : FieldsMapped vm address)
    (hle : decodeInt (vm.reg index) ≤ lengthAt vm address) :
    moveArray target address index flag vm =
      (do
        if flag = 0 then
          onStore (store (elementAddr (decodePointer (vm.reg address)) (decodeInt (vm.reg index)))
            (vm.reg target))
        if flag = 1 then
          let w ← onStore
            (load (elementAddr (decodePointer (vm.reg address)) (decodeInt (vm.reg index))))
          setReg target w : Exec Unit) vm := by
  unfold lengthAt at hle
  unfold moveArray
  rw [get_bind]
  simp only
  rw [bind_ok (onStore_load h), if_neg (by omega)]

/-- Behind the guard, `arrins` stores. -/
theorem moveArray_passed_store (h : FieldsMapped vm address)
    (hle : decodeInt (vm.reg index) ≤ lengthAt vm address) :
    let element := elementAddr (decodePointer (vm.reg address)) (decodeInt (vm.reg index))
    moveArray target address index 0 vm =
      if vm.store.Mapped element then .ok () (vm.setStore (vm.store.put element (vm.reg target)))
      else .error .undefinedBehaviour vm := by
  intro element
  rw [moveArray_passed h hle, if_pos rfl]
  by_cases hmapped : vm.store.Mapped element
  · rw [if_pos hmapped, bind_ok (onStore_store hmapped)]
    rfl
  · rw [if_neg hmapped, bind_error (onStore_store_unmapped hmapped)]

/-- Behind the guard, `arrread` loads. -/
theorem moveArray_passed_load (h : FieldsMapped vm address)
    (hle : decodeInt (vm.reg index) ≤ lengthAt vm address) :
    let element := elementAddr (decodePointer (vm.reg address)) (decodeInt (vm.reg index))
    moveArray target address index 1 vm =
      if vm.store.Mapped element then .ok () (vm.setReg target (vm.store.word element))
      else .error .undefinedBehaviour vm := by
  intro element
  rw [moveArray_passed h hle, if_neg (by decide), if_pos rfl]
  show (onStore (load element) >>= fun w => setReg target w : Exec Unit) vm = _
  by_cases hmapped : vm.store.Mapped element
  · rw [if_pos hmapped, bind_ok (onStore_load hmapped)]
    rfl
  · rw [if_neg hmapped, bind_error (onStore_load_unmapped hmapped)]

end Access

/-! ## §2. The check and its condition. -/

/-- An access that throws and changes nothing. -/
def Refused (vm : VM) (result : EStateM.Result Fault VM Unit) : Prop :=
  ∃ what, result = .error (.runtimeError what) vm

/-- **A checked access.**  It accesses an element of the array, `accessed` at
the element's address, or is refused; and it is refused if the index is out of
range or an operand has the wrong tag. -/
structure Checked (vm : VM) (address index : Byte) (result : EStateM.Result Fault VM Unit)
    (accessed : Nat → VM) : Prop where
  outcome : (∃ i : Nat, decodeInt (vm.reg index) = i ∧ i < lengthAt vm address ∧
      result = .ok () (accessed (decodePointer (vm.reg address) + SIZEOF_ARRAY_OBJ + 8 * i))) ∨
    Refused vm result
  refused : decodeInt (vm.reg index) < 0 ∨ (lengthAt vm address : Int) ≤ decodeInt (vm.reg index) ∨
    isPointer (vm.reg address) = false ∨ isInt (vm.reg index) = false → Refused vm result

/-- **Where comparing is enough**: the fields are memory, and the index is
above the length, or it is that of an element and the tags are right. -/
def ComparingSuffices (vm : VM) (address index : Byte) : Prop :=
  FieldsMapped vm address ∧
    ((lengthAt vm address : Int) < decodeInt (vm.reg index) ∨
      isPointer (vm.reg address) = true ∧ isInt (vm.reg index) = true ∧
        0 ≤ decodeInt (vm.reg index) ∧ decodeInt (vm.reg index) < lengthAt vm address ∧
        vm.store.Mapped (elementAddr (decodePointer (vm.reg address)) (decodeInt (vm.reg index))))

section Check

variable {vm : VM} {target address index : Byte}

/-- Undefined behaviour is no refusal. -/
theorem not_refused_of_ub : ¬ Refused vm (.error .undefinedBehaviour vm) := by
  intro ⟨what, h⟩
  injection h with h _
  exact Fault.noConfusion h

/-- The argument for both instructions: all that matters is what the
comparison decides. -/
theorem checked_iff {result : EStateM.Result Fault VM Unit} {accessed : Nat → VM}
    (hunmapped : ¬ FieldsMapped vm address → result = .error .undefinedBehaviour vm)
    (habove : FieldsMapped vm address → (lengthAt vm address : Int) < decodeInt (vm.reg index) →
      Refused vm result)
    (hpassed : FieldsMapped vm address → decodeInt (vm.reg index) ≤ lengthAt vm address →
      result =
        if vm.store.Mapped (elementAddr (decodePointer (vm.reg address)) (decodeInt (vm.reg index)))
        then .ok () (accessed (elementAddr (decodePointer (vm.reg address)) (decodeInt (vm.reg index))))
        else .error .undefinedBehaviour vm) :
    Checked vm address index result accessed ↔ ComparingSuffices vm address index := by
  have hbase := decodePointer_lt (vm.reg address)
  have hrange := decodeInt_range (vm.reg index)
  constructor
  · intro h
    have hfields : FieldsMapped vm address := by
      by_contra hno
      have hub := hunmapped hno
      rcases h.outcome with ⟨i, -, -, hok⟩ | hrefused
      · rw [hok] at hub
        exact absurd hub (by simp)
      · rw [hub] at hrefused
        exact not_refused_of_ub hrefused
    refine ⟨hfields, ?_⟩
    by_cases hgt : (lengthAt vm address : Int) < decodeInt (vm.reg index)
    · exact Or.inl hgt
    · have hresult := hpassed hfields (by omega)
      -- the access went through, so nothing may have asked for a refusal
      have hnever : ¬ Refused vm result := by
        intro ⟨what, hthrown⟩
        rw [hthrown] at hresult
        split at hresult
        · exact absurd hresult (by simp)
        · injection hresult with hfault _
          exact Fault.noConfusion hfault
      have hgood : ¬ (decodeInt (vm.reg index) < 0 ∨
          (lengthAt vm address : Int) ≤ decodeInt (vm.reg index) ∨
          isPointer (vm.reg address) = false ∨ isInt (vm.reg index) = false) :=
        fun hbad => hnever (h.refused hbad)
      rw [not_or, not_or, not_or] at hgood
      obtain ⟨hnonneg, hlt, hptr, hint⟩ := hgood
      refine Or.inr ⟨by simpa using hptr, by simpa using hint, by omega, by omega, ?_⟩
      by_contra hno
      rw [if_neg hno] at hresult
      rcases h.outcome with ⟨i, -, -, hok⟩ | hrefused
      · rw [hok] at hresult
        exact absurd hresult (by simp)
      · exact hnever hrefused
  · rintro ⟨hfields, hgt | ⟨hptr, hint, hnonneg, hlt, hmapped⟩⟩
    · have hrefused := habove hfields hgt
      exact ⟨Or.inr hrefused, fun _ => hrefused⟩
    · have hresult := hpassed hfields (by omega)
      rw [if_pos hmapped] at hresult
      obtain ⟨i, hi⟩ := Int.eq_ofNat_of_zero_le hnonneg
      refine ⟨Or.inl ⟨i, hi, by omega, ?_⟩, fun hbad => ?_⟩
      · rw [hresult, hi, elementAddr_of_nonneg hbase (by omega)]
        rfl
      · rw [hptr, hint] at hbad
        rcases hbad with hbad | hbad | hbad | hbad
        · omega
        · omega
        · exact absurd hbad (by decide)
        · exact absurd hbad (by decide)

end Check

/-- **The access check is exact if and only if comparing index and length is
enough**, for both instructions. -/
theorem access_checked_iff (vm : VM) (target address index : Byte) :
    (Checked vm address index ((ArrayInstr.arrins target address index).exec vm)
        (fun a => vm.setStore (vm.store.put a (vm.reg target))) ↔
      ComparingSuffices vm address index) ∧
    (Checked vm address index ((ArrayInstr.arrread target address index).exec vm)
        (fun a => vm.setReg target (vm.store.word a)) ↔
      ComparingSuffices vm address index) := by
  rw [exec_arrins, exec_arrread]
  exact ⟨checked_iff moveArray_unmapped moveArray_refused moveArray_passed_store,
    checked_iff moveArray_unmapped moveArray_refused moveArray_passed_load⟩

/-- **An index equal to the length passes**: `arrread` with index 2 on an array
of length 2 returns. -/
theorem access_past_end :
    lengthAt oneArray.vm 4 = 2 ∧ decodeInt (oneArray.vm.reg 1) = 2 ∧
      (∃ vm', (ArrayInstr.arrread 6 4 1).exec oneArray.vm = .ok () vm') ∧
      ¬ Checked oneArray.vm 4 1 ((ArrayInstr.arrread 6 4 1).exec oneArray.vm)
        (fun a => oneArray.vm.setReg 6 (oneArray.vm.store.word a)) := by
  have hlength : lengthAt oneArray.vm 4 = 2 := by decide +kernel
  have hindex : decodeInt (oneArray.vm.reg 1) = 2 := by decide +kernel
  have hrun : (ArrayInstr.arrread 6 4 1).exec oneArray.vm
      = .ok () (finalState ((ArrayInstr.arrread 6 4 1).exec oneArray.vm)) :=
    ok_of_value (by decide +kernel)
  refine ⟨hlength, hindex, ⟨_, hrun⟩, fun h => ?_⟩
  obtain ⟨what, hrefused⟩ := h.refused (Or.inr (Or.inl (by rw [hlength, hindex]; decide)))
  rw [hrun] at hrefused
  exact absurd hrefused (by simp)

end SproutLang
