/-
  SproutLang.Assembler.Frames
  ───────────────────────────
  **THE FRAMES OF AN ASSEMBLED PROGRAM.**

  A `call` reserves the frame size in the table; `init` starts the entry
  function with SP and FP at 0 and reserves nothing.

    • `frames_reserved_iff` — the declared locals have their slots in every
                              run, if the entry function declares none.
-/
import SproutLang.Assembler.FunctionTable
import SproutLang.VM.Frames
import SproutLang.Library.Runs

namespace SproutLang.Assembler

open Library

/-! ## §1. Declared sizes. -/

/-- The frame size declared for function `i`; there is none for a function
that does not exist. -/
def declaredSize (py : Python) (text : Str) (i : Nat) : Int :=
  match (blocksOf py text)[i]? with
  | some b => (frameSizeOf py (b.directive.drop 2) 0).toOption.getD 0
  | none => 0

section Loaded

variable {py : Python} {text : Str} {vm₀ vm : VM} {max : Nat}

/-- `init` takes an image whose functions have room in the table. -/
theorem Assembled.inits {functions : List Func} {codes : List (List SourceInstr)}
    (h : Assembled py text vm₀.bytecode.bytes functions codes)
    (hroom : functions.length ≤ FUNCTION_TABLE_SIZE) (max : Nat) :
    ∃ vm, initWith max vm₀ = .ok () vm := by
  obtain ⟨header, table, hloads, -⟩ := h.loadTables hroom
  obtain ⟨hheader, hload⟩ := loadTables_eq_ok.1 hloads
  unfold initWith
  rw [get_bind]
  simp only [hheader]
  rw [bind_ok (modify_apply _), bind_ok hload]
  exact ⟨_, rfl⟩

/-- **What `init` makes of an image**: the table of the image's entries, and
the IP at the code. -/
theorem Assembled.initialized {functions : List Func} {codes : List (List SourceInstr)}
    (h : Assembled py text vm₀.bytecode.bytes functions codes)
    (hinit : initWith max vm₀ = .ok () vm) :
    (∀ i < functions.length,
      vm.functionTable i = SproutLang.entryAt vm₀.bytecode.bytes (HEADER_SIZE + 8 * i)) ∧
    (∀ i, functions.length ≤ i → vm.functionTable i = vm₀.functionTable i) ∧
    vm.ip.toNat = codeOffset functions := by
  obtain ⟨header, table, hheader, hload, rfl⟩ := initWith_effect hinit
  have hloads := loadTables_eq_ok.2 ⟨hheader, hload⟩
  -- the loader got to the end, so the table had room
  have hroom : functions.length ≤ FUNCTION_TABLE_SIZE := by
    have hbound := loadEntries_bound _ _ _ _ (Nat.zero_le _) hload
    obtain ⟨header', hheader', -, hcount, -⟩ := h.loadHeader
    obtain rfl : header = header' := Except.ok.inj (hheader.symm.trans hheader')
    have hsmall := h.small
    unfold codeOffset FUNC_ENTRY_SIZE at hsmall
    rw [hcount, BitVec.toNat_ofNat, Nat.mod_eq_of_lt (by omega)] at hbound
    omega
  obtain ⟨header', table', hloads', -, hcode, hentries, hrest⟩ := h.loadTables hroom
  rw [hloads] at hloads'
  injection hloads' with hheader hvm
  obtain rfl : table = table' := congrArg VM.functionTable hvm
  refine ⟨hentries, hrest, ?_⟩
  show (header.codeOffset.setWidth 64).toNat = _
  rw [BitVec.toNat_setWidth, hheader, hcode, Nat.mod_eq_of_lt (by have := h.small; omega)]

/-- **The frame sizes in the table** are those declared, where they have 16
bits. -/
theorem loaded_frameSize (h : assemble py text = .ok vm₀.bytecode.bytes)
    (htable : ∀ i, vm₀.functionTable i = ⟨0, 0⟩) (hinit : initWith max vm₀ = .ok () vm) {i : Nat}
    (hlow : 0 ≤ declaredSize py text i) (hhigh : declaredSize py text i < 2 ^ 16) :
    declaredSize py text i = (vm.functionTable i).frameSize.toNat := by
  obtain ⟨functions, codes, himage, hsaid, hdeclared⟩ := assemble_blocks h
  have hlen : functions.length = (blocksOf py text).length := hdeclared.length_eq
  obtain ⟨hentries, hrest, -⟩ := himage.initialized hinit
  by_cases hi : i < functions.length
  · -- a function of the file: its entry is read from the table
    obtain ⟨f, hf⟩ : ∃ f, functions[i]? = some f := ⟨_, List.getElem?_eq_getElem hi⟩
    obtain ⟨b, hb, hdecl⟩ := forall₂_getElem? hdeclared hf
    have hsize : declaredSize py text i = f.frameSize := by
      unfold declaredSize
      rw [hb]
      show (frameSizeOf py (b.directive.drop 2) 0).toOption.getD 0 = _
      rw [hdecl]
      rfl
    rw [hsize] at hlow hhigh ⊢
    rw [hentries i hi, himage.entryAt hf]
    show f.frameSize = (((BitVec.ofNat 32 _).setWidth 16).toNat : Int)
    rw [BitVec.toNat_setWidth, BitVec.toNat_ofNat]
    omega
  · -- no function has this index: the entry is zero as before
    have hnone : declaredSize py text i = 0 := by
      unfold declaredSize
      rw [List.getElem?_eq_none (by omega)]
    rw [hnone, hrest i (Nat.not_lt.1 hi), htable i]
    rfl

end Loaded

/-! ## §2. Runs. -/

/-- A `pop` leaves the slots of the executing function where they are. -/
def PopsAbove (size : Nat → Int) (c : Framed) (i : Opcode × DecodedInstr) : Prop :=
  i.1 = .opPop → ∀ f ∈ c.frames.head?, (c.vm.fp.toNat : Int) + size f.function < c.vm.sp.toNat

/-- **What the frames depend on**: a function that is called declares a frame
of 16 bits, and an `ins` changes no saved frame pointer. -/
def KeepsFrames (size : Nat → Int) (c : Framed) (i : Opcode × DecodedInstr) : Prop :=
  match i.1 with
  | .opCall => 0 ≤ size (callIndex i.2.ra i.2.rb i.2.rc) ∧ size (callIndex i.2.ra i.2.rb i.2.rc) < 2 ^ 16
  | .opInsertIntoStack =>
      ∀ f ∈ c.frames.dropLast, stackPoint i.2.ra i.2.rb = f.base - 2 →
        c.vm.reg i.2.rc = c.vm.stack (f.base - 2)
  | _ => True

/-- The machine behind `init`, with function 0 as its only active function. -/
def entered (vm : VM) : Framed := ⟨vm, [⟨0, 0⟩]⟩

/-- Nothing is on the stack yet. -/
theorem entered_kept {size : Nat → Int} {SavedIp : Word → Prop} {vm : VM} (hsp : vm.sp = 0)
    (hfp : vm.fp = 0) (hentry : size 0 ≤ 0) : FramesKept size SavedIp (entered vm) where
  laid := .entry rfl hentry
  executing := ⟨⟨0, 0⟩, [], rfl, by
    show 0 = vm.fp.toNat
    rw [hfp]
    rfl⟩
  limit := by
    show vm.sp.toNat ≤ STACK_SIZE
    rw [hsp]
    decide

/-- **The declared locals have their slots in every run, if and only if the
entry function declares none.**  The runs are those from `init` in which `pop`
stays above the frame, SP in the stack, and every step keeps to
`KeepsFrames`. -/
theorem frames_reserved_iff {py : Python} {text : Str} {image : Image} (max : Nat)
    (allocator : Allocator) (fpu : Fpu) {vm : VM} (h : assemble py text = .ok image.bytes)
    (hinit : initWith max (VM.zeroed image allocator fpu) = .ok () vm) :
    (∀ is c, Steps (Guarded FrameStep fun c i => PopsAbove (declaredSize py text) c i ∧
        KeepsFrames (declaredSize py text) c i) (entered vm) is c →
      Reserved (declaredSize py text) c) ↔ declaredSize py text 0 ≤ 0 := by
  obtain ⟨header, table, -, -, hvm⟩ := initWith_effect hinit
  have hsp : vm.sp = 0 := by rw [hvm]; rfl
  have hfp : vm.fp = 0 := by rw [hvm]; rfl
  constructor
  · intro hall
    -- no instruction has run: a declared slot would lie below an SP of zero
    have hstart := (hall [] _ (Steps.nil _)).below ⟨0, 0⟩ (List.mem_singleton_self _) 0
    by_contra hpos
    have hslot : Frame.Slot (declaredSize py text) ⟨0, 0⟩ 0 := ⟨Nat.le_refl 0, by
      show (0 : Int) < 0 + declaredSize py text 0
      omega⟩
    have hlt : 0 < vm.sp.toNat := hstart hslot
    rw [hsp] at hlt
    exact absurd hlt (by decide)
  · intro hentry is c hrun
    let Kept : Framed → Prop := fun c =>
      FramesKept (declaredSize py text) (fun _ => True) c ∧ c.vm.functionTable = vm.functionTable
    have h0 : Kept (entered vm) := ⟨entered_kept hsp hfp hentry, rfl⟩
    have hkept := hrun.invariant Kept h0 (fun c i c' hI hstep => by
      obtain ⟨hframes, htable⟩ := hI
      obtain ⟨hstep, hpops, hkeeps⟩ := hstep
      refine ⟨hstep.kept hframes ?_ (fun _ _ _ _ => trivial),
        hstep.executes.loaded.2.trans htable⟩
      -- only these three instructions can move a frame or write on one
      obtain ⟨opcode, d⟩ := i
      cases opcode with
      | opPop => exact hpops rfl
      | opCall =>
          obtain ⟨hlow, hhigh⟩ := hkeeps
          refine ⟨hlow, ?_, trivial⟩
          rw [htable]
          exact Int.le_of_eq (loaded_frameSize h (fun _ => rfl) hinit hlow hhigh)
      | opInsertIntoStack => exact fun f hf => ⟨hkeeps f hf, fun _ => trivial⟩
      | _ => trivial)
    exact hkept.1.reserved

/-- A program whose entry function has one local variable, and pushes a 5. -/
def localText : Str :=
  ".func main frameSize=1\nload r1 5\npush r1\nend r0\n.endfunc\n".toList

/-- The machine `init` makes of the image of a text. -/
def started (text : Str) (h : (imageOf text).length < 2 ^ 48) : VM :=
  finalState (initWith HEAPSIZE (machineOf text h))

/-- A program that calls a function with two local variables, which pushes a
word. -/
def localsText : Str :=
  ".func main\ncall 1\nend r0\n.endfunc\n.func locals frameSize=2\npush r1\nret\n.endfunc\n".toList

/-- The machine behind the call and the `push`. -/
def localsCalled (h : (imageOf localsText).length < 2 ^ 48) : Framed :=
  ((entered (started localsText h)).next (.opCall, ⟨12, 0, 0, 1⟩)).next (.opPush, ⟨14, 1, 0, 0⟩)

/-- The two slots are reserved, and the word is behind them. -/
theorem frames_reserved_iff_called :
    Reserved (declaredSize Python.ascii localsText) (localsCalled (by decide +kernel)) ∧
      (localsCalled (by decide +kernel)).frames = [⟨1, 2⟩, ⟨0, 0⟩] ∧
      (localsCalled (by decide +kernel)).vm.sp.toNat = 5 := by
  have hassemble : assemble Python.ascii localsText = .ok (imageOf localsText) := by
    unfold localsText
    rewrite [String.toList_ofList]
    rfl
  have hinit : ∀ h, value (initWith HEAPSIZE (machineOf localsText h)) = some () := by
    unfold localsText
    rewrite [String.toList_ofList]
    decide +kernel
  have hsize : declaredSize Python.ascii localsText 0 ≤ 0 ∧
      0 ≤ declaredSize Python.ascii localsText 1 ∧ declaredSize Python.ascii localsText 1 < 2 ^ 16 := by
    unfold localsText
    rewrite [String.toList_ofList]
    decide +kernel
  have hmay : ∀ h, Along Framed.next (fun c i => MayExecute c.vm i.1 i.2)
      (entered (started localsText h)) [(.opCall, ⟨12, 0, 0, 1⟩), (.opPush, ⟨14, 1, 0, 0⟩)] := by
    unfold localsText
    rewrite [String.toList_ofList]
    decide +kernel
  have hstate : ∀ h, (localsCalled h).frames = [⟨1, 2⟩, ⟨0, 0⟩] ∧ (localsCalled h).vm.sp.toNat = 5 := by
    unfold localsCalled localsText
    rewrite [String.toList_ofList]
    decide +kernel
  obtain ⟨hcall, hpush, _⟩ := hmay (by decide +kernel)
  refine ⟨?_, hstate _⟩
  have hrun : Steps (Guarded FrameStep fun c i => PopsAbove (declaredSize Python.ascii localsText) c i ∧
      KeepsFrames (declaredSize Python.ascii localsText) c i)
      (entered (started localsText (by decide +kernel)))
      [(.opCall, ⟨12, 0, 0, 1⟩), (.opPush, ⟨14, 1, 0, 0⟩)] (localsCalled (by decide +kernel)) :=
    ((Steps.nil _).snoc ⟨Framed.step_next hcall, fun h => absurd h (by decide), hsize.2⟩).snoc
      ⟨Framed.step_next hpush, fun h => absurd h (by decide), trivial⟩
  exact (@frames_reserved_iff _ _ ⟨imageOf localsText, by decide +kernel⟩ HEAPSIZE
    Allocator.ascending Fpu.quiet _ hassemble (ok_of_value (hinit _))).2 hsize.1 _ _ hrun

/-- **The local variable of the entry function lies above SP**, and the first
`push` overwrites it. -/
theorem entry_local_overwritten :
    assemble Python.ascii localText
        = .ok (machineOf localText (by decide +kernel)).bytecode.bytes ∧
      initWith HEAPSIZE (machineOf localText (by decide +kernel))
        = .ok () (started localText (by decide +kernel)) ∧
      ¬ Reserved (declaredSize Python.ascii localText)
        (entered (started localText (by decide +kernel))) ∧
      (finalState (iterate (finalState (iterate (started localText (by decide +kernel)))))).stack 0
        ≠ (started localText (by decide +kernel)).stack 0 := by
  -- spelled out, a text is read much faster
  have hassemble : assemble Python.ascii localText = .ok (imageOf localText) := by
    unfold localText
    rewrite [String.toList_ofList]
    rfl
  have hinit : ∀ h, value (initWith HEAPSIZE (machineOf localText h)) = some () := by
    unfold localText
    rewrite [String.toList_ofList]
    decide +kernel
  have hpush : ∀ h, (finalState (iterate (finalState (iterate (started localText h))))).stack 0
      ≠ (started localText h).stack 0 := by
    unfold localText
    rewrite [String.toList_ofList]
    decide +kernel
  refine ⟨hassemble, ok_of_value (hinit _), fun hreserved => ?_, hpush _⟩
  have hsize : declaredSize Python.ascii localText 0 = 1 := by
    unfold localText
    rewrite [String.toList_ofList]
    decide +kernel
  have hslot : Frame.Slot (declaredSize Python.ascii localText) ⟨0, 0⟩ 0 := ⟨Nat.le_refl 0, by
    show (0 : Int) < 0 + declaredSize Python.ascii localText 0
    rw [hsize]
    decide⟩
  have hlt := hreserved.below ⟨0, 0⟩ (List.mem_singleton_self _) 0 hslot
  have hsp : ∀ h, (entered (started localText h)).vm.sp.toNat = 0 := by
    unfold localText
    rewrite [String.toList_ofList]
    decide +kernel
  rw [hsp] at hlt
  exact absurd hlt (Nat.lt_irrefl 0)

end SproutLang.Assembler
