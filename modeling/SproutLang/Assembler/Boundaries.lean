/-
  SproutLang.Assembler.Boundaries
  ───────────────────────────────
  **THE CODE OF AN IMAGE IS CLOSED.**

  Labels stand in front of lines or behind the last one of their function,
  functions follow each other, and the table has where each starts.  So an
  assembled program is `ClosedCode`, and in its runs the IP is at a line or at
  the end of the image (`control_at_lines`).
-/
import SproutLang.Assembler.Frames
import SproutLang.VM.Boundaries

namespace SproutLang.Assembler

open Library

/-! ## §1. Lines and instructions. -/

section Sizes

variable {said : List SourceInstr} {instrs : List Instr}

/-- Decoded instructions take as many bytes as the lines they agree with. -/
theorem length_flatMap_of_agrees (h : List.Forall₂ SourceInstr.Agrees said instrs) :
    (instrs.flatMap Instr.bytes).length = sizeOf said := by
  induction h with
  | nil => rfl
  | cons hfirst _ ih =>
      rw [List.flatMap_cons, List.length_append, hfirst.length_bytes, ih]
      rfl

/-- The first instructions take the bytes of the first lines. -/
theorem sizeTo_of_agrees (h : List.Forall₂ SourceInstr.Agrees said instrs) (k : Nat) :
    sizeTo instrs k = sizeOf (said.take k) :=
  length_flatMap_of_agrees (List.forall₂_take k h)

end Sizes

/-! ## §2. Where branches and calls lead. -/

section Linked

variable {fs : List Func} {codes : List (List SourceInstr)}

/-- A label is the address of a line, or of the end of its function. -/
theorem FuncHolds.label {f : Func} {code : List SourceInstr} (h : FuncHolds f code) {label : Str}
    {target : Nat} (hlabel : f.labels.lookup label = some target) :
    ∃ k ≤ code.length, target = sizeOf (code.take k) := by
  obtain ⟨front, rest, hlabels, -⟩ := List.lookup_eq_some_iff.1 hlabel
  obtain ⟨before, after, hcode, htarget⟩ := h.labels (label, target) (by
    rw [hlabels]
    exact List.mem_append_right _ List.mem_cons_self)
  refine ⟨before.length, ?_, ?_⟩
  · rw [hcode, List.length_append]
    exact Nat.le_add_right _ _
  · rw [hcode, List.take_left]
    exact htarget

/-- **Every branch leads to a boundary.** -/
theorem linked_targets (hfs : List.Forall₂ FuncHolds fs codes) :
    ∀ pos, Resolved pos fs codes → ∀ instr ∈ linked pos fs codes, ∀ t, instr.operand = .target t →
      ∃ k ≤ codes.flatten.length, t.toNat = pos + sizeOf (codes.flatten.take k) := by
  induction hfs with
  | nil => exact fun _ _ instr hmem => absurd hmem List.not_mem_nil
  | @cons f code fs codes hf _ ih =>
      intro pos hresolved instr hmem t ht
      obtain ⟨hfound, hrest⟩ := hresolved
      rw [List.flatten_cons]
      rcases List.mem_append.1 hmem with hmem | hmem
      · obtain ⟨s, hs, rfl⟩ := List.mem_map.1 hmem
        cases s with
        | branch op label =>
            -- a label names the end of some of its function's lines
            obtain ⟨target, hlookup, hlt⟩ := hfound op label hs
            obtain ⟨k, hk, htarget⟩ := hf.label hlookup
            refine ⟨k, by rw [List.length_append]; omega, ?_⟩
            rw [List.take_append_of_le_length hk, ← htarget]
            injection ht with ht
            rw [← ht, BitVec.toNat_ofNat]
            unfold address
            rw [hlookup]
            exact Nat.mod_eq_of_lt hlt
        | regs | load | call | mov => exact absurd ht Operand.noConfusion
      · obtain ⟨k, hk, htarget⟩ := ih (pos + sizeOf code) hrest instr hmem t ht
        -- a function further on: the first one's lines come before
        refine ⟨code.length + k, by rw [List.length_append]; omega, ?_⟩
        rw [htarget, List.take_length_add_append]
        unfold sizeOf
        rw [List.map_append, List.sum_append, Nat.add_assoc]

/-- The functions take the bytes of their lines. -/
theorem sum_length_raw (hfs : List.Forall₂ FuncHolds fs codes) :
    (fs.map fun f => f.raw.length).sum = sizeOf codes.flatten := by
  induction hfs with
  | nil => rfl
  | @cons f code fs codes hf _ ih =>
      unfold sizeOf at *
      rw [List.map_cons, List.sum_cons, List.flatten_cons, List.map_append, List.sum_append, ih,
        hf.length_raw]
      rfl

/-- **Every function starts at a boundary.** -/
theorem entry_boundary (hfs : List.Forall₂ FuncHolds fs codes) (i : Nat) :
    ∃ k ≤ codes.flatten.length,
      ((fs.take i).map fun f => f.raw.length).sum = sizeOf (codes.flatten.take k) := by
  have hsplit : codes.flatten = (codes.take i).flatten ++ (codes.drop i).flatten := by
    rw [← List.flatten_append, List.take_append_drop]
  refine ⟨(codes.take i).flatten.length, ?_, ?_⟩
  · rw [hsplit, List.length_append]
    exact Nat.le_add_right _ _
  · rw [hsplit, List.take_left]
    exact sum_length_raw (List.forall₂_take i hfs)

end Linked

/-! ## §3. Assembled programs. -/

/-- No `mov` goes through memory. -/
def MovesPlain (py : Python) (text : Str) : Prop :=
  ∀ toks ∈ instrLines py text, ∀ dst src flag, readLine py toks = some (.mov dst src flag) → flag = 0

section Closed

variable {py : Python} {text : Str} {bytes : List Byte} {functions : List Func}
  {codes : List (List SourceInstr)}

/-- The bytes in front of the code. -/
def frontOf (functions : List Func) : List Byte :=
  wordBytes (headerWords functions.length (codeOffset functions))
    ++ wordBytes (tableWords (codeOffset functions) functions)

/-- With plain moves only, every flag fits in its byte. -/
theorem MovesPlain.flagsFit (hmoves : MovesPlain py text)
    (hsaid : List.Forall₂ (fun toks s => readLine py toks = some s) (instrLines py text)
      codes.flatten) : ∀ s ∈ codes.flatten, s.FlagFits := by
  refine (forall_said hsaid).1 fun toks htoks dst src flag hread => ?_
  rw [hmoves toks htoks dst src flag hread]
  decide

/-- The `k`-th line stands where the `k`-th instruction starts. -/
theorem Assembled.lineOffset_eq (h : Assembled py text bytes functions codes)
    (hfit : ∀ s ∈ codes.flatten, s.FlagFits) (k : Nat) :
    lineOffset py text bytes k
      = (frontOf functions).length + sizeTo (linked (codeOffset functions) functions codes) k := by
  unfold lineOffset frontOf
  rw [h.codeStart, sum_lineWidth (List.forall₂_take k h.said), Assembled.length_front,
    sizeTo_of_agrees (linked_agrees h.holds _ hfit)]

/-- Behind a line starts the next. -/
theorem lineOffset_succ {k : Nat} {toks : List Str} (hk : (instrLines py text)[k]? = some toks) :
    lineOffset py text bytes (k + 1) = lineOffset py text bytes k + lineWidth py toks := by
  unfold lineOffset
  rw [List.take_add_one, hk, Option.toList_some, List.map_append, List.sum_append, Nat.add_assoc]
  rfl

/-- **The code of an assembled program is closed.** -/
theorem Assembled.closed {vm₀ vm : VM} {max : Nat}
    (h : Assembled py text vm₀.bytecode.bytes functions codes)
    (hsaid : List.Forall₂ (Block.Says py) (blocksOf py text) codes)
    (hinit : initWith max vm₀ = .ok () vm) (hmoves : MovesPlain py text)
    (hcalls : CallsFit py text) (hsmall : vm₀.bytecode.bytes.length < 2 ^ 32) :
    ClosedCode vm₀.bytecode.bytes (frontOf functions)
      (linked (codeOffset functions) functions codes) vm.functionTable := by
  have hfit := hmoves.flagsFit h.said
  have hagrees := linked_agrees h.holds (codeOffset functions) hfit
  have hlen := hagrees.length_eq
  have hfront : (frontOf functions).length = codeOffset functions := Assembled.length_front
  have hbytes : vm₀.bytecode.bytes = frontOf functions
      ++ (linked (codeOffset functions) functions codes).flatMap Instr.bytes := by
    rw [← linkedBytes_eq h.holds _ hfit]
    exact h.bytes_eq
  refine ⟨hbytes, linked_fits h.holds _, fun instr hmem t ht => ?_, fun instr hmem hcall => ?_⟩
  · obtain ⟨k, hk, htarget⟩ := linked_targets h.holds _ h.resolved instr hmem t ht
    refine ⟨k, hlen ▸ hk, ?_⟩
    rw [htarget, hfront, sizeTo_of_agrees hagrees]
  · -- the line says a call, of a function that exists
    obtain ⟨j, hj⟩ := List.mem_iff_getElem?.1 hmem
    obtain ⟨s, hs, hsame⟩ : ∃ s, codes.flatten[j]? = some s ∧ s.Agrees instr :=
      forall₂_getElem? hagrees.flip hj
    obtain ⟨toks, htoks, hread⟩ := forall₂_getElem? h.said.flip hs
    obtain ⟨index, rfl⟩ := readLine_call hread (hsame.opcode_eq.symm.trans hcall)
    obtain ⟨-, -, hindex⟩ := hsame
    have hlt := hcalls toks (List.mem_of_getElem? htoks) index hread
    have hcount : functions.length = (blocksOf py text).length :=
      h.holds.length_eq.trans hsaid.length_eq.symm
    obtain ⟨hentries, -, -⟩ := h.initialized hinit
    have hi : callIndex instr.ra instr.rb instr.rc < functions.length := by omega
    generalize callIndex instr.ra instr.rb instr.rc = i at hi
    obtain ⟨f, hf⟩ : ∃ f, functions[i]? = some f := ⟨_, List.getElem?_eq_getElem hi⟩
    obtain ⟨k, hk, hentry⟩ := entry_boundary h.holds i
    refine ⟨k, hlen ▸ hk, ?_⟩
    -- an entry lies within the code, hence below the file's length
    have hsize : sizeTo (linked (codeOffset functions) functions codes) k
        ≤ sizeTo (linked (codeOffset functions) functions codes) _ := sizeTo_mono (hlen ▸ hk)
    rw [sizeTo_length] at hsize
    rw [hbytes, List.length_append, hfront] at hsmall
    rw [hentries i hi, h.entryAt hf, hfront]
    show (BitVec.ofNat 32 _).toNat = _
    rw [BitVec.toNat_ofNat, hentry, ← sizeTo_of_agrees hagrees]
    exact Nat.mod_eq_of_lt (by omega)

end Closed

/-! ## §4. Runs. -/

/-- **At an instruction line**: the VM decodes here what the line says. -/
def AtLine (py : Python) (text : Str) (bytes : List Byte) (a : Nat) : Prop :=
  ∃ k toks d, (instrLines py text)[k]? = some toks ∧ a = lineOffset py text bytes k ∧
    instrAt bytes a = some d ∧ LineAgrees py toks d

/-- Inside an instruction line: behind its first byte, in its immediate or its
target. -/
def InsideLine (py : Python) (text : Str) (bytes : List Byte) (a : Nat) : Prop :=
  ∃ k toks, (instrLines py text)[k]? = some toks ∧ lineOffset py text bytes k < a ∧
    a < lineOffset py text bytes k + lineWidth py toks

section Boundaries

variable {py : Python} {text : Str} {bytes : List Byte} {functions : List Func}
  {codes : List (List SourceInstr)} {table : Nat → FunctionInfo} {a : Nat}

/-- A boundary is a line, or the end of the image. -/
theorem Assembled.atLine (h : Assembled py text bytes functions codes)
    (hfit : ∀ s ∈ codes.flatten, s.FlagFits)
    (hcode : ClosedCode bytes (frontOf functions) (linked (codeOffset functions) functions codes)
      table)
    (ha : Boundary (frontOf functions).length (linked (codeOffset functions) functions codes) a) :
    a = bytes.length ∨ AtLine py text bytes a := by
  have hagrees := linked_agrees h.holds (codeOffset functions) hfit
  obtain ⟨k, hk, ha⟩ := ha
  rcases Nat.lt_or_eq_of_le hk with hlt | hend
  · refine Or.inr ?_
    obtain ⟨d, hd⟩ : ∃ d, (linked (codeOffset functions) functions codes)[k]? = some d :=
      ⟨_, List.getElem?_eq_getElem hlt⟩
    -- a line stands behind every instruction of the code
    obtain ⟨s, hs, hsame⟩ : ∃ s, codes.flatten[k]? = some s ∧ s.Agrees d :=
      forall₂_getElem? hagrees.flip hd
    obtain ⟨toks, htoks, hread⟩ := forall₂_getElem? h.said.flip hs
    refine ⟨k, toks, d, htoks, ha.trans (h.lineOffset_eq hfit k).symm, ?_, s, hread, hsame⟩
    rw [ha]
    exact hcode.instrAt hd
  · refine Or.inl ?_
    rw [ha, hend, hcode.length_bytes]

/-- No boundary is inside a line. -/
theorem Assembled.not_insideLine (h : Assembled py text bytes functions codes)
    (hfit : ∀ s ∈ codes.flatten, s.FlagFits)
    (ha : Boundary (frontOf functions).length (linked (codeOffset functions) functions codes) a) :
    ¬ InsideLine py text bytes a := by
  intro ⟨j, toks, hj, hlow, hhigh⟩
  obtain ⟨k, -, ha⟩ := ha
  rw [← lineOffset_succ hj, h.lineOffset_eq hfit] at hhigh
  rw [h.lineOffset_eq hfit] at hlow
  generalize linked (codeOffset functions) functions codes = instrs at ha hlow hhigh
  rcases Nat.lt_or_ge j k with hlt | hge
  · have hsize : sizeTo instrs (j + 1) ≤ sizeTo instrs k := sizeTo_mono hlt
    omega
  · have hsize : sizeTo instrs k ≤ sizeTo instrs j := sizeTo_mono hge
    omega

end Boundaries

/-- **Control stays on instruction boundaries.**  In every run from `init`
that keeps to `StaysInFrame`, with SP in the stack, the IP is the offset of an
instruction line or the end of the image, and never inside a line.  (A `ret`
in the entry function and an access outside the heap are faults.) -/
theorem control_at_lines {py : Python} {text : Str} {image : Image} (max : Nat)
    (allocator : Allocator) (fpu : Fpu) {vm : VM} (h : assemble py text = .ok image.bytes)
    (hinit : initWith max (VM.zeroed image allocator fpu) = .ok () vm)
    (hmoves : MovesPlain py text) (hcalls : CallsFit py text) (hsmall : image.bytes.length < 2 ^ 32)
    {is : List (Opcode × DecodedInstr)} {c : Framed}
    (hrun : Steps (Guarded FrameStep StaysInFrame) (entered vm) is c) :
    (c.vm.ip.toNat = image.bytes.length ∨ AtLine py text image.bytes c.vm.ip.toNat) ∧
      ¬ InsideLine py text image.bytes c.vm.ip.toNat := by
  obtain ⟨functions, codes, himage, hsaid, -⟩ := assemble_blocks h
  have hfit := hmoves.flagsFit himage.said
  have himage : Assembled py text (VM.zeroed image allocator fpu).bytecode.bytes functions codes :=
    himage
  have hcode := himage.closed hsaid hinit hmoves hcalls hsmall
  obtain ⟨-, -, hip⟩ := himage.initialized hinit
  obtain ⟨header, table, -, -, hvm⟩ := initWith_effect hinit
  have hsp : vm.sp = 0 := by rw [hvm]; rfl
  have hfp : vm.fp = 0 := by rw [hvm]; rfl
  have hbytecode : vm.bytecode = image := by rw [hvm]; rfl
  let Kept : Framed → Prop := fun c =>
    OnCode (frontOf functions) (linked (codeOffset functions) functions codes) c ∧
      c.vm.bytecode = image ∧ c.vm.functionTable = vm.functionTable
  -- `init` sets IP to the start of the code
  have h0 : Kept (entered vm) := by
    refine ⟨⟨entered_kept hsp hfp (Int.le_refl 0), 0, Nat.zero_le _, ?_⟩, hbytecode, rfl⟩
    show vm.ip.toNat = _
    rw [hip]
    exact Assembled.length_front.symm
  obtain ⟨honcode, -, -⟩ := hrun.invariant Kept h0 fun c i c' hkept hstep => by
    obtain ⟨hon, hbytecode, htable⟩ := hkept
    obtain ⟨hstep, hinside⟩ := hstep
    obtain ⟨hbytecode', htable'⟩ := hstep.executes.loaded
    refine ⟨hstep.onCode ?_ hon hinside, hbytecode'.trans hbytecode, htable'.trans htable⟩
    rw [hbytecode, htable]
    exact hcode
  exact ⟨himage.atLine hfit hcode honcode.ip, himage.not_insideLine hfit honcode.ip⟩

/-- A program whose entry function calls another, which pushes and pops. -/
def callText : Str :=
  (".func main\nload r1 5\ncall 1\nend r1\n.endfunc\n"
    ++ ".func f\npush r1\npop r2\nret\n.endfunc\n").toList

/-- Its instructions, up to the return of the called function. -/
def callRun : List (Opcode × DecodedInstr) :=
  [(.opLoad64, ⟨5, 1, 0, 0⟩), (.opCall, ⟨12, 0, 0, 1⟩), (.opPush, ⟨14, 1, 0, 0⟩),
    (.opPop, ⟨15, 2, 0, 0⟩), (.opRet, ⟨13, 0, 0, 0⟩)]

/-- The run of `callText` is back behind its call. -/
theorem control_at_lines_call :
    let c := callRun.foldl Framed.next (entered (started callText (by decide +kernel)))
    (c.vm.ip.toNat = (imageOf callText).length ∨
        AtLine Python.ascii callText (imageOf callText) c.vm.ip.toNat) ∧
      ¬ InsideLine Python.ascii callText (imageOf callText) c.vm.ip.toNat := by
  have hread : (instrLines Python.ascii callText).map (readLine Python.ascii)
      = [some (.load 1 (encodeInt 5).toNat), some (.call 1), some (.regs .opEnd [1]), some (.regs .opPush [1]),
        some (.regs .opPop [2]), some (.regs .opRet [])] := by
    -- spelled out, a text is read much faster
    unfold callText
    rewrite [String.toList_append, String.toList_ofList, String.toList_ofList]
    decide +kernel
  have hsaid : ∀ toks ∈ instrLines Python.ascii callText, ∀ s,
      readLine Python.ascii toks = some s → s ∈ [.load 1 (encodeInt 5).toNat, .call 1, .regs .opEnd [1],
        .regs .opPush [1], .regs .opPop [2], .regs .opRet []] := by
    intro toks htoks s hs
    have hmem : some s ∈ (instrLines Python.ascii callText).map (readLine Python.ascii) := by
      rw [← hs]
      exact List.mem_map_of_mem htoks
    rw [hread] at hmem
    simpa using hmem
  have hmoves : MovesPlain Python.ascii callText := by
    intro toks htoks dst src flag hs
    exact absurd (hsaid toks htoks _ hs) (by simp)
  -- the one call names function 1 of two
  have hcalls : CallsFit Python.ascii callText := by
    intro toks htoks index hs
    obtain rfl : index = 1 := by simpa using hsaid toks htoks _ hs
    unfold callText
    rewrite [String.toList_append, String.toList_ofList, String.toList_ofList]
    decide +kernel
  have halong : ∀ h, Along Framed.next (fun c i => MayExecute c.vm i.1 i.2 ∧ StaysInFrame c i)
      (entered (started callText h)) callRun := by
    unfold callText
    rewrite [String.toList_append, String.toList_ofList, String.toList_ofList]
    decide +kernel
  have hsmall : (imageOf callText).length < 2 ^ 32 := by
    unfold callText
    rewrite [String.toList_append, String.toList_ofList, String.toList_ofList]
    decide +kernel
  have hassemble : assemble Python.ascii callText = .ok (imageOf callText) := by
    unfold callText
    rewrite [String.toList_append, String.toList_ofList, String.toList_ofList]
    rfl
  have hinit : ∀ h, value (initWith HEAPSIZE (machineOf callText h)) = some () := by
    unfold callText
    rewrite [String.toList_append, String.toList_ofList, String.toList_ofList]
    decide +kernel
  exact @control_at_lines _ _ ⟨imageOf callText, Nat.lt_trans hsmall (by decide)⟩ HEAPSIZE
    Allocator.ascending Fpu.quiet _ hassemble (ok_of_value (hinit _)) hmoves hcalls hsmall callRun _
    (Steps.of_along (fun _ _ hok => ⟨Framed.step_next hok.1, hok.2⟩) (halong _))

end SproutLang.Assembler
