/-
  SproutLang.VM.Boundaries
  ────────────────────────
  **CONTROL STAYS ON INSTRUCTION BOUNDARIES.**

  The code section is a list of instructions of different widths.  If every
  branch target and every entry of a called function is the start of one of
  them, or the end of the image, so is the IP before every round: the saved
  IPs are part of the invariant (`Laid`), a `ret` goes back to one of them.

    • `Executes.next_ip`  — where an instruction leaves the IP,
    • `FrameStep.onCode`  — one round keeps the IP on a boundary.
-/
import SproutLang.VM.Frames
import SproutLang.VM.InstructionStream

namespace SproutLang

open Library

/-! ## §1. Boundaries. -/

/-- The bytes of the first `k` instructions. -/
def sizeTo (instrs : List Instr) (k : Nat) : Nat := ((instrs.take k).flatMap Instr.bytes).length

/-- **An instruction boundary**: the start of an instruction of the code at
`code`, or its end. -/
def Boundary (code : Nat) (instrs : List Instr) (a : Nat) : Prop :=
  ∃ k ≤ instrs.length, a = code + sizeTo instrs k

/-- **An image whose control is closed**: behind `front` there is nothing but
instructions, and each branch and each `call` leads to a boundary. -/
structure ClosedCode (bytes front : List Byte) (instrs : List Instr)
    (table : Nat → FunctionInfo) : Prop where
  bytes_eq : bytes = front ++ instrs.flatMap Instr.bytes
  fits : ∀ instr ∈ instrs, instr.operand.Fits instr.opcode
  targets : ∀ instr ∈ instrs, ∀ t, instr.operand = .target t →
    Boundary front.length instrs t.toNat
  calls : ∀ instr ∈ instrs, instr.opcode = .opCall →
    Boundary front.length instrs (table (callIndex instr.ra instr.rb instr.rc)).entryIP.toNat

section Boundaries

variable {bytes front : List Byte} {instrs : List Instr} {table : Nat → FunctionInfo} {k : Nat}
  {instr : Instr}

theorem sizeTo_length : sizeTo instrs instrs.length = (instrs.flatMap Instr.bytes).length := by
  unfold sizeTo
  rw [List.take_length]

/-- The next boundary lies behind the instruction. -/
theorem sizeTo_succ (hk : instrs[k]? = some instr) (hfit : instr.operand.Fits instr.opcode) :
    sizeTo instrs (k + 1) = sizeTo instrs k + instr.opcode.width := by
  unfold sizeTo
  rw [List.take_add_one, hk, Option.toList_some, List.flatMap_append, List.flatMap_singleton,
    List.length_append, Instr.length_bytes hfit]

/-- Later instructions lie further on. -/
theorem sizeTo_mono {j : Nat} (h : j ≤ k) : sizeTo instrs j ≤ sizeTo instrs k := by
  unfold sizeTo
  have hfront : instrs.take k = instrs.take j ++ (instrs.take k).drop j := by
    conv_lhs => rw [← List.take_append_drop j (instrs.take k)]
    rw [List.take_take, Nat.min_eq_left h]
  rw [hfront, List.flatMap_append, List.length_append]
  exact Nat.le_add_right _ _

/-- The instruction at a boundary is the one that starts there. -/
theorem instrAt_sizeTo (hbytes : bytes = front ++ instrs.flatMap Instr.bytes)
    (hfits : ∀ instr ∈ instrs, instr.operand.Fits instr.opcode) (hk : instrs[k]? = some instr) :
    SproutLang.instrAt bytes (front.length + sizeTo instrs k) = some instr := by
  obtain ⟨hlt, hget⟩ := List.getElem?_eq_some_iff.1 hk
  have hsplit : instrs = instrs.take k ++ instr :: instrs.drop (k + 1) := by
    rw [← hget, ← List.drop_eq_getElem_cons hlt, List.take_append_drop]
  have hbytes : bytes = (front ++ (instrs.take k).flatMap Instr.bytes) ++ instr.bytes
      ++ (instrs.drop (k + 1)).flatMap Instr.bytes := by
    rw [hbytes]
    conv_lhs => rw [hsplit]
    rw [List.flatMap_append, List.flatMap_cons]
    simp only [List.append_assoc]
  have hread := instrAt_bytes (front ++ (instrs.take k).flatMap Instr.bytes)
    ((instrs.drop (k + 1)).flatMap Instr.bytes) (hfits instr (List.mem_of_getElem? hk))
  rw [← hbytes, List.length_append] at hread
  exact hread

/-- At the boundary of an instruction stands that instruction. -/
theorem ClosedCode.instrAt (h : ClosedCode bytes front instrs table)
    (hk : instrs[k]? = some instr) :
    SproutLang.instrAt bytes (front.length + sizeTo instrs k) = some instr :=
  instrAt_sizeTo h.bytes_eq h.fits hk

/-- The code ends behind its last instruction. -/
theorem ClosedCode.length_bytes (h : ClosedCode bytes front instrs table) :
    bytes.length = front.length + sizeTo instrs instrs.length := by
  rw [h.bytes_eq, List.length_append, sizeTo_length]

/-- A boundary is an address in the image, or its end. -/
theorem ClosedCode.boundary_le (h : ClosedCode bytes front instrs table) {a : Nat}
    (ha : Boundary front.length instrs a) : a ≤ bytes.length := by
  obtain ⟨k, hk, rfl⟩ := ha
  have hsize : sizeTo instrs k ≤ sizeTo instrs instrs.length := sizeTo_mono hk
  rw [h.length_bytes]
  omega

end Boundaries

/-! ## §2. Where an instruction leaves the IP. -/

section Step

variable {vm vm' : VM} {opcode : Opcode} {d : DecodedInstr}

/-- **The next IP**: behind the instruction, but for a branch that is taken, a
`call` and a `ret`. -/
theorem Executes.next_ip (h : Executes vm opcode d vm') :
    vm'.ip.toNat = vm.ip.toNat + opcode.width ∨
    (opcode.isBranch = true ∧ ∃ t, readU32 vm.bytecode.bytes (vm.ip.toNat + 4) = some t ∧
      vm'.ip.toNat = t.toNat) ∨
    (opcode = .opCall ∧
      vm'.ip.toNat = (vm.functionTable (callIndex d.ra d.rb d.rc)).entryIP.toNat) ∨
    opcode = .opRet := by
  obtain ⟨hfetched, hlt⟩ := h.fetched_ip
  have heffect := h.effect
  -- most instructions leave the address behind their word
  have hnarrow : ∀ {vm' : VM}, vm'.ip = vm.fetched.ip → opcode.width = 4 →
      vm'.ip.toNat = vm.ip.toNat + opcode.width := by
    intro vm' hip hwidth
    rw [hip, hwidth, hfetched]
  have hword : ∀ w : BitVec 32, (w.setWidth 64 : Word).toNat = w.toNat := by
    intro w
    rw [BitVec.toNat_setWidth]
    exact Nat.mod_eq_of_lt (by omega)
  cases heffect with
  | arithmetic arith =>
      refine Or.inl (hnarrow rfl ?_)
      rcases arith with rfl | rfl | rfl | rfl <;> rfl
  -- the word and the two halves of the constant
  | load =>
      refine Or.inl ?_
      show (vm.fetched.ip + 4 + 4).toNat = vm.ip.toNat + 12
      bv_omega
  | taken jump word =>
      refine Or.inr (Or.inl ⟨jump, _, ?_, hword _⟩)
      rw [← hfetched]
      exact word
  -- a branch not taken steps over its target
  | passed jump =>
      have hwidth : opcode.width = 8 := by
        rcases Opcode.isBranch_iff.1 jump with rfl | rfl | rfl | rfl <;> rfl
      refine Or.inl ?_
      show (vm.fetched.ip + 4).toNat = vm.ip.toNat + opcode.width
      bv_omega
  | call => exact Or.inr (Or.inr (Or.inl ⟨rfl, hword _⟩))
  | ret => exact Or.inr (Or.inr (Or.inr rfl))
  | deref flag run => exact Or.inl (hnarrow (congrArg Control.ip (mov_frame run).1) rfl)
  | arr run =>
      obtain ⟨vm₁, w, hrepointed, rfl⟩ := initArray_frame run
      exact Or.inl (hnarrow (congrArg Control.ip hrepointed.control) rfl)
  | end_ control => exact Or.inl (hnarrow (congrArg Control.ip control) rfl)
  | compare | push | pop | mov | insert | read | arrins | arrread | debugReturn =>
      exact Or.inl (hnarrow rfl rfl)

/-- At a boundary the machine executes the instruction that starts there; at
the end of the image it executes nothing. -/
theorem Executes.instr {front : List Byte} {instrs : List Instr} {table : Nat → FunctionInfo}
    (h : Executes vm opcode d vm') (hcode : ClosedCode vm.bytecode.bytes front instrs table)
    (hip : Boundary front.length instrs vm.ip.toNat) :
    ∃ k instr, instrs[k]? = some instr ∧ vm.ip.toNat = front.length + sizeTo instrs k ∧
      opcode = instr.opcode ∧ d = ⟨instr.opcode.toByte, instr.ra, instr.rb, instr.rc⟩ := by
  obtain ⟨k, hk, hip⟩ := hip
  obtain ⟨i, hword, hdecode⟩ := h.word
  rcases Nat.lt_or_eq_of_le hk with hlt | hend
  · have hget : instrs[k]? = some instrs[k] := List.getElem?_eq_getElem hlt
    obtain ⟨w, hw, hinstr, -⟩ := instrAt_eq_some (hcode.instrAt hget)
    rw [← hip, hword] at hw
    injection hw with hw
    have hd : d = ⟨instrs[k].opcode.toByte, instrs[k].ra, instrs[k].rb, instrs[k].rc⟩ := by
      rw [← hdecode, hw, hinstr]
    have hop := h.opcode
    rw [hd, Opcode.ofByte_toByte] at hop
    exact ⟨k, _, hget, hip, (Option.some.inj hop).symm, hd⟩
  · have hbound := readU32_bound hword
    rw [hip, hend, hcode.length_bytes] at hbound
    omega

end Step

/-! ## §3. One round. -/

/-- **The machine is on its code**: the IP on a boundary, and every saved IP
too. -/
structure OnCode (front : List Byte) (instrs : List Instr) (c : Framed) : Prop where
  frames : FramesKept (fun _ => 0) (fun w => Boundary front.length instrs w.toNat) c
  ip : Boundary front.length instrs c.vm.ip.toNat

/-- A `pop` leaves SP at FP or above, an `ins` no saved word changed. -/
def StaysInFrame (c : Framed) (i : Opcode × DecodedInstr) : Prop :=
  (i.1 = .opPop → c.vm.fp.toNat < c.vm.sp.toNat) ∧
  (i.1 = .opInsertIntoStack → ∀ f ∈ c.frames.dropLast,
    stackPoint i.2.ra i.2.rb ≠ f.base - 2 ∧ stackPoint i.2.ra i.2.rb ≠ f.base - 1)

instance (c : Framed) (i : Opcode × DecodedInstr) : Decidable (StaysInFrame c i) :=
  inferInstanceAs (Decidable (_ ∧ _))

/-- **A round keeps the machine on its code.** -/
theorem FrameStep.onCode {front : List Byte} {instrs : List Instr} {c c' : Framed}
    {i : Opcode × DecodedInstr} (hstep : FrameStep c i c')
    (hcode : ClosedCode c.vm.bytecode.bytes front instrs c.vm.functionTable)
    (h : OnCode front instrs c) (hinside : StaysInFrame c i) : OnCode front instrs c' := by
  obtain ⟨k, instr, hk, hip, hopcode, hd⟩ := hstep.executes.instr hcode h.ip
  obtain ⟨opcode, d⟩ := i
  obtain rfl : opcode = instr.opcode := hopcode
  obtain rfl : d = ⟨instr.opcode.toByte, instr.ra, instr.rb, instr.rc⟩ := hd
  have hmem : instr ∈ instrs := List.mem_of_getElem? hk
  -- the boundary behind the instruction
  have hbehind : Boundary front.length instrs (c.vm.ip.toNat + instr.opcode.width) := by
    refine ⟨k + 1, (List.getElem?_eq_some_iff.1 hk).1, ?_⟩
    rw [sizeTo_succ hk (hcode.fits instr hmem), hip, Nat.add_assoc]
  have hfetched := hstep.executes.fetched_ip.1
  have horder : Orderly (fun _ => 0) (fun w => Boundary front.length instrs w.toNat) c
      (instr.opcode, ⟨instr.opcode.toByte, instr.ra, instr.rb, instr.rc⟩) := by
    unfold Orderly
    cases hop : instr.opcode with
    | opPop =>
        intro f _
        have habove := hinside.1 hop
        show (c.vm.fp.toNat : Int) + 0 < c.vm.sp.toNat
        omega
    | opCall =>
        rw [hop] at hbehind
        refine ⟨Int.le_refl 0, Int.natCast_nonneg _, ?_⟩
        show Boundary front.length instrs c.vm.fetched.ip.toNat
        rw [hfetched]
        exact hbehind
    | opInsertIntoStack =>
        intro f hf
        obtain ⟨hfp, hip⟩ := hinside.2 hop f hf
        exact ⟨fun heq => absurd heq hfp, fun heq => absurd heq hip⟩
    | _ => trivial
  have hplain : ∀ w w' : Word, Boundary front.length instrs w.toNat → isPointer w = true →
      Boundary front.length instrs w'.toNat := by
    intro w w' hw hptr
    have hle := hcode.boundary_le hw
    have hsmall := c.vm.bytecode.addressable
    rw [isPointer_eq_false_of_lt (by omega)] at hptr
    exact absurd hptr Bool.false_ne_true
  refine ⟨hstep.kept h.frames horder hplain, ?_⟩
  rcases hstep.executes.next_ip with hnext | ⟨hbranch, t, hword, hnext⟩ | ⟨hcall, hnext⟩ | hret
  · rw [hnext]
    exact hbehind
  · obtain ⟨w, -, -, hoperand⟩ := instrAt_eq_some (hcode.instrAt hk)
    have hload : instr.opcode ≠ .opLoad64 := by
      intro hload
      have hbranch : instr.opcode.isBranch = true := hbranch
      rw [hload] at hbranch
      exact absurd hbranch (by decide)
    unfold operandAt at hoperand
    rw [if_neg hload, if_pos hbranch, ← hip, hword] at hoperand
    have htarget : instr.operand = .target t := (Option.some.inj hoperand).symm
    rw [hnext]
    exact hcode.targets instr hmem t htarget
  · rw [hnext]
    exact hcode.calls instr hmem hcall
  · exact hstep.returns h.frames hret

end SproutLang
