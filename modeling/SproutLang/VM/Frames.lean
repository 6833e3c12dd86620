/-
  SproutLang.VM.Frames
  ────────────────────
  **THE FRAMES OF THE ACTIVE FUNCTIONS.**

  A run is followed together with the list of its active functions, the
  executing one first.  `Laid` says how their frames lie on the stack: each
  above the two words its `call` saved, these above the frame of the caller.

    • `FrameStep.kept` — every instruction keeps the frames laid out,
    • `Laid.apart`     — and frames laid out are apart from each other and
                         from the saved words.
-/
import SproutLang.VM.Calls

namespace SproutLang

open Library

/-! ## §1. Active functions. -/

/-- An active function, by its index, and the frame pointer it was entered
with. -/
structure Frame where
  function : Nat
  base : Nat
  deriving DecidableEq, Repr

/-- A machine with its active functions. -/
structure Framed where
  vm : VM
  frames : List Frame

/-- The active functions behind an instruction that led to `vm'`. -/
def nextFrames (vm' : VM) (d : DecodedInstr) (frames : List Frame) : Opcode → List Frame
  | .opCall => ⟨callIndex d.ra d.rb d.rc, vm'.fp.toNat⟩ :: frames
  | .opRet => frames.tail
  | _ => frames

/-- One round of the loop. -/
structure FrameStep (c : Framed) (i : Opcode × DecodedInstr) (c' : Framed) : Prop where
  executes : Executes c.vm i.1 i.2 c'.vm
  frames : c'.frames = nextFrames c'.vm i.2 c.frames i.1

/-- The machine behind a round that can be computed. -/
def Framed.next (c : Framed) (i : Opcode × DecodedInstr) : Framed :=
  ⟨finalState (iterate c.vm), nextFrames (finalState (iterate c.vm)) i.2 c.frames i.1⟩

theorem Framed.step_next {c : Framed} {i : Opcode × DecodedInstr} (h : MayExecute c.vm i.1 i.2) :
    FrameStep c i (c.next i) := ⟨h.executes, rfl⟩

/-- **Frames laid out below `upper`**, of `size` slots each; the saved
addresses are as `SavedIp` says.  The entry function was not called: nothing
is saved for it, and it has no slots. -/
inductive Laid (size : Nat → Int) (SavedIp : Word → Prop) (stack : Nat → Word) :
    Nat → List Frame → Prop
  | entry {upper : Nat} {f : Frame} (base : f.base = 0) (empty : size f.function ≤ 0) :
      Laid size SavedIp stack upper [f]
  | called {upper : Nat} {f g : Frame} {rest : List Frame} (pair : 2 ≤ f.base)
      (nonneg : 0 ≤ size f.function) (room : f.base + size f.function ≤ upper)
      (fp : stack (f.base - 2) = BitVec.ofNat 64 g.base) (ip : SavedIp (stack (f.base - 1)))
      (caller : Laid size SavedIp stack (f.base - 2) (g :: rest)) :
      Laid size SavedIp stack upper (f :: g :: rest)

section Laid

variable {size : Nat → Int} {SavedIp : Word → Prop} {stack stack' : Nat → Word}
  {upper upper' : Nat} {frames : List Frame}

/-- Frames that lie below a bound lie below a higher one. -/
theorem Laid.mono (h : Laid size SavedIp stack upper frames) (hle : upper ≤ upper') :
    Laid size SavedIp stack upper' frames := by
  cases h with
  | entry base empty => exact .entry base empty
  | called pair nonneg room fp ip caller => exact .called pair nonneg (by omega) fp ip caller

/-- Every frame begins below the bound. -/
theorem Laid.base_le (h : Laid size SavedIp stack upper frames) :
    ∀ f ∈ frames, f.base ≤ upper := by
  induction h with
  | entry base =>
      intro f hf
      rw [List.mem_singleton.1 hf, base]
      exact Nat.zero_le _
  | called pair nonneg room _ _ _ ih =>
      intro f hf
      rcases List.mem_cons.1 hf with rfl | hf
      · omega
      · have hbelow := ih f hf
        omega

/-- A called function has its two saved words. -/
theorem Laid.pair_le (h : Laid size SavedIp stack upper frames) :
    ∀ f ∈ frames.dropLast, 2 ≤ f.base := by
  induction h with
  | entry => exact fun f hf => absurd hf List.not_mem_nil
  | called pair _ _ _ _ _ ih =>
      intro f hf
      rw [List.dropLast_cons_cons] at hf
      rcases List.mem_cons.1 hf with rfl | hf
      · exact pair
      · exact ih f hf

/-- **Only the saved words matter.** -/
theorem Laid.congr (h : Laid size SavedIp stack upper frames)
    (hfp : ∀ f ∈ frames.dropLast, stack' (f.base - 2) = stack (f.base - 2))
    (hip : ∀ f ∈ frames.dropLast, SavedIp (stack (f.base - 1)) → SavedIp (stack' (f.base - 1))) :
    Laid size SavedIp stack' upper frames := by
  induction h with
  | entry base empty => exact .entry base empty
  | @called upper f g rest pair nonneg room fp ip _ ih =>
      rw [List.dropLast_cons_cons] at hfp hip
      have hrest := ih (fun u hu => hfp u (List.mem_cons_of_mem _ hu))
        (fun u hu => hip u (List.mem_cons_of_mem _ hu))
      exact .called pair nonneg room ((hfp f List.mem_cons_self).trans fp)
        (hip f List.mem_cons_self ip) hrest

/-- Nor does the stack above the frames. -/
theorem Laid.congr_below (h : Laid size SavedIp stack upper frames)
    (hstack : ∀ s < upper, stack' s = stack s) : Laid size SavedIp stack' upper frames := by
  have hslots : ∀ f ∈ frames.dropLast, 2 ≤ f.base ∧ f.base ≤ upper := fun f hf =>
    ⟨h.pair_le f hf, h.base_le f (List.mem_of_mem_dropLast hf)⟩
  refine h.congr (fun f hf => ?_) (fun f hf hsaved => ?_)
  · obtain ⟨hlow, hhigh⟩ := hslots f hf
    exact hstack _ (by omega)
  · obtain ⟨hlow, hhigh⟩ := hslots f hf
    rw [hstack _ (by omega)]
    exact hsaved

/-- The word a `call` saved for the frame pointer is an address in the stack. -/
theorem Laid.savedFp_lt (h : Laid size SavedIp stack upper frames) (hupper : upper < 2 ^ 48) :
    ∀ f ∈ frames.dropLast, isPointer (stack (f.base - 2)) = false := by
  induction h with
  | entry => exact fun f hf => absurd hf List.not_mem_nil
  | @called upper f g rest pair nonneg room fp _ caller ih =>
      intro u hu
      rw [List.dropLast_cons_cons] at hu
      rcases List.mem_cons.1 hu with rfl | hu
      · have hg := caller.base_le g List.mem_cons_self
        rw [fp]
        refine isPointer_eq_false_of_lt ?_
        rw [BitVec.toNat_ofNat, Nat.mod_eq_of_lt (by omega)]
        omega
      · exact ih (by omega) u hu

/-! ## §2. Apart from each other. -/

/-- The slots of a frame. -/
def Frame.Slot (size : Nat → Int) (f : Frame) (s : Nat) : Prop :=
  f.base ≤ s ∧ (s : Int) < f.base + size f.function

/-- So does every slot of a frame. -/
theorem Laid.slot_lt (h : Laid size SavedIp stack upper frames) :
    ∀ f ∈ frames, ∀ s, f.Slot size s → s < upper := by
  induction h with
  | @entry upper f base empty =>
      intro u hu s hs
      rw [List.mem_singleton.1 hu] at hs
      obtain ⟨hlow, hhigh⟩ := hs
      omega
  | called pair _ room _ _ _ ih =>
      intro u hu s hs
      rcases List.mem_cons.1 hu with rfl | hu
      · obtain ⟨hlow, hhigh⟩ := hs
        omega
      · have hbelow := ih u hu s hs
        omega

/-- **No slot is one of the saved words.** -/
theorem Laid.slot_ne_saved (h : Laid size SavedIp stack upper frames) :
    ∀ f ∈ frames, ∀ g ∈ frames.dropLast, ∀ s, f.Slot size s → s ≠ g.base - 2 ∧ s ≠ g.base - 1 := by
  induction h with
  | entry => exact fun _ _ g hg => absurd hg List.not_mem_nil
  | @called upper f g rest pair _ _ _ _ caller ih =>
      intro u hu v hv s hs
      rw [List.dropLast_cons_cons] at hv
      rcases List.mem_cons.1 hu with rfl | hrest
      · have hlow := hs.1
        rcases List.mem_cons.1 hv with rfl | hmore
        · omega
        · have hbelow := caller.base_le v (List.mem_of_mem_dropLast hmore)
          omega
      · rcases List.mem_cons.1 hv with rfl | hmore
        · have hbelow := caller.slot_lt u hrest s hs
          omega
        · exact ih u hrest v hmore s hs

/-- **No two frames have a slot in common.** -/
theorem Laid.apart (h : Laid size SavedIp stack upper frames) :
    frames.Pairwise fun f g => ∀ s, f.Slot size s → ¬ g.Slot size s := by
  induction h with
  | entry => exact List.pairwise_singleton _ _
  | @called upper f g rest pair _ _ _ _ caller ih =>
      refine List.Pairwise.cons (fun u hu s hs hslot => ?_) ih
      have hbelow := caller.slot_lt u hu s hslot
      have hlow := hs.1
      omega

/-- The saved frame pointers lead from a function to its caller. -/
theorem Laid.callers (h : Laid size SavedIp stack upper frames) (hupper : upper < 2 ^ 64) :
    frames.IsChain fun f g => (stack (f.base - 2)).toNat = g.base := by
  induction h with
  | entry => exact List.isChain_singleton _
  | @called upper f g rest pair nonneg room fp _ caller ih =>
      have hg := caller.base_le g List.mem_cons_self
      refine List.isChain_cons_cons.2 ⟨?_, ih (by omega)⟩
      rw [fp, BitVec.toNat_ofNat, Nat.mod_eq_of_lt (by omega)]

end Laid

/-! ## §3. What every instruction keeps. -/

/-- **The frames of a machine are laid out**, the executing function's at
`fp`. -/
structure FramesKept (size : Nat → Int) (SavedIp : Word → Prop) (c : Framed) : Prop where
  laid : Laid size SavedIp c.vm.stack c.vm.sp.toNat c.frames
  executing : ∃ f rest, c.frames = f :: rest ∧ f.base = c.vm.fp.toNat
  limit : c.vm.sp.toNat ≤ STACK_SIZE

/-- What the instructions keep to: a `pop` to the frame of the executing
function, a `call` to the frame size in the table, an `ins` to the words that
are saved. -/
def Orderly (size : Nat → Int) (SavedIp : Word → Prop) (c : Framed) (i : Opcode × DecodedInstr) :
    Prop :=
  match i.1 with
  | .opPop => ∀ f ∈ c.frames.head?, (c.vm.fp.toNat : Int) + size f.function < c.vm.sp.toNat
  | .opCall =>
      let index := callIndex i.2.ra i.2.rb i.2.rc
      0 ≤ size index ∧ size index ≤ (c.vm.functionTable index).frameSize.toNat ∧
        SavedIp c.vm.fetched.ip
  | .opInsertIntoStack =>
      ∀ f ∈ c.frames.dropLast,
        (stackPoint i.2.ra i.2.rb = f.base - 2 → c.vm.reg i.2.rc = c.vm.stack (f.base - 2)) ∧
        (stackPoint i.2.ra i.2.rb = f.base - 1 → SavedIp (c.vm.reg i.2.rc))
  | _ => True

/-- A `mov` through memory leaves the stack and its pointers alone. -/
theorem mov_frame {dst src flag : Byte} {vm vm' : VM} (h : mov dst src flag vm = .ok () vm') :
    vm'.control = vm.control ∧ vm'.stack = vm.stack := by
  unfold mov at h
  rw [get_bind] at h
  split at h
  · obtain ⟨w, vm₁, hload, hset⟩ := bind_eq_ok.1 h
    obtain ⟨-, -, rfl⟩ := onStore_load_effect hload
    injection hset with _ hvm
    subst hvm
    exact ⟨rfl, rfl⟩
  · split at h
    · obtain ⟨-, rfl⟩ := onStore_store_effect h
      exact ⟨rfl, rfl⟩
    · split at h
      · obtain ⟨w, vm₁, hload, hstore⟩ := bind_eq_ok.1 h
        obtain ⟨-, -, rfl⟩ := onStore_load_effect hload
        obtain ⟨-, rfl⟩ := onStore_store_effect hstore
        exact ⟨rfl, rfl⟩
      · injection h with _ hvm
        subst hvm
        exact ⟨rfl, rfl⟩

/-- No instruction changes the image or the function table. -/
theorem Executes.loaded {vm vm' : VM} {opcode : Opcode} {d : DecodedInstr}
    (h : Executes vm opcode d vm') :
    vm'.bytecode = vm.bytecode ∧ vm'.functionTable = vm.functionTable := by
  have heffect := h.effect
  cases heffect with
  | deref flag run =>
      obtain ⟨hcontrol, -⟩ := mov_frame run
      exact ⟨congrArg Control.bytecode hcontrol, congrArg Control.functionTable hcontrol⟩
  | arr run =>
      obtain ⟨vm₁, w, hrepointed, rfl⟩ := initArray_frame run
      exact ⟨congrArg Control.bytecode hrepointed.control,
        congrArg Control.functionTable hrepointed.control⟩
  | end_ control => exact ⟨congrArg Control.bytecode control, congrArg Control.functionTable control⟩
  | call => exact vm.fetched.called_loaded _
  | _ => exact ⟨rfl, rfl⟩

section Step

variable {size : Nat → Int} {SavedIp : Word → Prop} {c c' : Framed} {i : Opcode × DecodedInstr}

/-- An instruction that leaves SP, FP and the stack alone. -/
theorem FramesKept.of_same (h : FramesKept size SavedIp c) (hframes : c'.frames = c.frames)
    (hfp : c'.vm.fp = c.vm.fp) (hsp : c'.vm.sp = c.vm.sp) (hstack : c'.vm.stack = c.vm.stack) :
    FramesKept size SavedIp c' := by
  refine ⟨?_, ?_, ?_⟩
  · rw [hframes, hsp, hstack]
    exact h.laid
  · rw [hframes, hfp]
    exact h.executing
  · rw [hsp]
    exact h.limit

section Machine

variable {vm vm' : VM} {frames : List Frame}

/-- A `call` lays the frame of the called function above the saved words. -/
theorem FramesKept.called {d : DecodedInstr} (h : FramesKept size SavedIp ⟨vm, frames⟩)
    (hexecutes : Executes vm .opCall d vm') (horder : Orderly size SavedIp ⟨vm, frames⟩ (.opCall, d)) :
    FramesKept size SavedIp ⟨vm', ⟨callIndex d.ra d.rb d.rc, vm'.fp.toNat⟩ :: frames⟩ := by
  have hentered := hexecutes.entered
  have hlimit := hexecutes.limit
  -- what the condition says of a call
  obtain ⟨hnonneg, hsize, hsaved⟩ : 0 ≤ size (callIndex d.ra d.rb d.rc) ∧
      size (callIndex d.ra d.rb d.rc)
        ≤ (vm.functionTable (callIndex d.ra d.rb d.rc)).frameSize.toNat ∧
      SavedIp vm.fetched.ip := horder
  have hsp : vm'.sp.toNat
      = vm.sp.toNat + 2 + (vm.functionTable (callIndex d.ra d.rb d.rc)).frameSize.toNat := by
    rw [hexecutes.effect.call_inv.1]
    exact VM.called_sp hentered.room
  have hfp := hentered.fp
  have hpair : vm'.fp.toNat - 2 = vm.sp.toNat ∧ vm'.fp.toNat - 1 = vm.sp.toNat + 1 := by omega
  obtain ⟨f, rest, hf, hbase⟩ := h.executing
  simp only at hf hbase
  -- the frames of the callers lie below the two words that are pushed
  have hbelow : Laid size SavedIp vm'.stack vm.sp.toNat frames := h.laid.congr_below hentered.slots
  refine ⟨?_, ⟨_, _, rfl, rfl⟩, hlimit⟩
  show Laid size SavedIp vm'.stack vm'.sp.toNat (_ :: frames)
  rw [hf] at hbelow ⊢
  apply Laid.called
  · show 2 ≤ vm'.fp.toNat
    omega
  · exact hnonneg
  · show (vm'.fp.toNat : Int) + size (callIndex d.ra d.rb d.rc) ≤ vm'.sp.toNat
    omega
  · show vm'.stack (vm'.fp.toNat - 2) = _
    rw [hpair.1, hentered.savedFp, hbase, BitVec.ofNat_toNat, BitVec.setWidth_eq]
  · show SavedIp (vm'.stack (vm'.fp.toNat - 1))
    rw [hpair.2, hentered.savedIp]
    exact hsaved
  · show Laid size SavedIp vm'.stack (vm'.fp.toNat - 2) _
    rw [hpair.1]
    exact hbelow

/-- A `ret` takes the frame of the executing function away. -/
theorem FramesKept.returned (h : FramesKept size SavedIp ⟨vm, frames⟩) (hlow : 2 ≤ vm.fp.toNat)
    (hlimit : vm.fetched.returned.sp.toNat ≤ STACK_SIZE) :
    FramesKept size SavedIp ⟨vm.fetched.returned, frames.tail⟩ := by
  have hS : STACK_SIZE = 4096 := rfl
  have hspLimit : vm.sp.toNat ≤ STACK_SIZE := h.limit
  obtain ⟨f, rest, hf, hbase⟩ := h.executing
  simp only at hf hbase
  have hlaid : Laid size SavedIp vm.stack vm.sp.toNat frames := h.laid
  rw [hf] at hlaid ⊢
  cases hlaid with
  -- the entry function has nothing to return to
  | entry base => omega
  | @called _ _ g rest pair nonneg room fp ip caller =>
      -- `sp` goes back below the pair of saved words
      have hsp : vm.fetched.returned.sp.toNat = f.base - 2 := by
        show (vm.fp - 2).toNat = _
        bv_omega
      have hg := caller.base_le g List.mem_cons_self
      refine ⟨?_, ⟨g, rest, rfl, ?_⟩, hlimit⟩
      · show Laid size SavedIp vm.stack vm.fetched.returned.sp.toNat (g :: rest)
        rw [hsp]
        exact caller
      · show g.base = (vm.stack (vm.fp.toNat - 2)).toNat
        rw [← hbase, fp, BitVec.toNat_ofNat, Nat.mod_eq_of_lt (by omega)]

/-- A `push` writes above the frames. -/
theorem FramesKept.pushed (h : FramesKept size SavedIp ⟨vm, frames⟩) (w : Word)
    (hroom : vm.sp.toNat < STACK_SIZE) : FramesKept size SavedIp ⟨vm.fetched.pushed w, frames⟩ := by
  have hS : STACK_SIZE = 4096 := rfl
  have hsp : (vm.fetched.pushed w).sp.toNat = vm.sp.toNat + 1 := by
    show (vm.sp + 1).toNat = _
    bv_omega
  have hbelow : Laid size SavedIp (vm.fetched.pushed w).stack vm.sp.toNat frames := by
    apply h.laid.congr_below
    intro s hs
    rw [VM.pushed_stack]
    exact if_neg (Nat.ne_of_lt hs)
  refine ⟨?_, h.executing, ?_⟩
  · show Laid size SavedIp _ (vm.fetched.pushed w).sp.toNat frames
    rw [hsp]
    exact hbelow.mono (Nat.le_succ _)
  · show (vm.fetched.pushed w).sp.toNat ≤ _
    omega

/-- A `pop` that stays above the frame of the executing function. -/
theorem FramesKept.popped (h : FramesKept size SavedIp ⟨vm, frames⟩) (hlow : 1 ≤ vm.sp.toNat)
    (habove : ∀ f ∈ frames.head?, (vm.fp.toNat : Int) + size f.function < vm.sp.toNat)
    (hfp : vm'.fp = vm.fp) (hsp : vm'.sp = vm.sp - 1) (hstack : vm'.stack = vm.stack) :
    FramesKept size SavedIp ⟨vm', frames⟩ := by
  have hlimit : vm.sp.toNat ≤ STACK_SIZE := h.limit
  have hless : vm'.sp.toNat = vm.sp.toNat - 1 := by
    rw [hsp]
    bv_omega
  obtain ⟨f, rest, hf, hbase⟩ := h.executing
  simp only at hf hbase
  have hlaid : Laid size SavedIp vm.stack vm.sp.toNat frames := h.laid
  have hroom := habove f (by rw [hf]; rfl)
  refine ⟨?_, ⟨f, rest, hf, by rw [hbase]; exact congrArg _ hfp.symm⟩, ?_⟩
  · show Laid size SavedIp vm'.stack vm'.sp.toNat frames
    rw [hless, hstack]
    rw [hf] at hlaid ⊢
    cases hlaid with
    | entry base empty => exact .entry base empty
    | called pair nonneg room fp ip caller => exact .called pair nonneg (by omega) fp ip caller
  · show vm'.sp.toNat ≤ _
    omega

/-- An `ins` beside the saved words, or of a word that may stand there. -/
theorem FramesKept.inserted (h : FramesKept size SavedIp ⟨vm, frames⟩) {slot : Nat} {w : Word}
    (horder : ∀ f ∈ frames.dropLast, (slot = f.base - 2 → w = vm.stack (f.base - 2)) ∧
      (slot = f.base - 1 → SavedIp w)) :
    FramesKept size SavedIp ⟨vm.fetched.setSlot slot w, frames⟩ := by
  refine ⟨?_, h.executing, h.limit⟩
  show Laid size SavedIp (vm.fetched.setSlot slot w).stack vm.sp.toNat frames
  apply h.laid.congr
  · intro u hu
    by_cases hat : u.base - 2 = slot
    · have hword := (horder u hu).1 hat.symm
      rw [hat] at hword ⊢
      exact (VM.setSlot_self ..).trans hword
    · exact VM.setSlot_of_ne hat
  · intro u hu hsaved
    by_cases hat : u.base - 1 = slot
    · have hword := (horder u hu).2 hat.symm
      rw [hat, VM.setSlot_self]
      exact hword
    · rw [VM.setSlot_of_ne hat]
      exact hsaved

/-- A collection patches pointers, so no saved frame pointer. -/
theorem FramesKept.repointed {collection : Prop} (h : FramesKept size SavedIp ⟨vm, frames⟩)
    (hrepointed : Repointed collection vm.fetched vm')
    (hplain : ∀ w w', SavedIp w → isPointer w = true → SavedIp w') :
    FramesKept size SavedIp ⟨vm', frames⟩ := by
  have hS : STACK_SIZE = 4096 := rfl
  have hlimit : vm.sp.toNat ≤ STACK_SIZE := h.limit
  have hfp : vm'.fp = vm.fp := congrArg Control.fp hrepointed.control
  have hsp : vm'.sp = vm.sp := congrArg Control.sp hrepointed.control
  obtain ⟨f, rest, hf, hbase⟩ := h.executing
  simp only at hf hbase
  have hlaid : Laid size SavedIp vm.stack vm.sp.toNat frames := h.laid
  refine ⟨?_, ⟨f, rest, hf, by rw [hbase]; exact congrArg _ hfp.symm⟩, by rw [hsp]; exact hlimit⟩
  show Laid size SavedIp vm'.stack vm'.sp.toNat frames
  rw [hsp]
  apply hlaid.congr
  · intro u hu
    apply hrepointed.stack
    -- a saved frame pointer is no pointer, so the collection leaves it
    intro hpatched
    have hptr : isPointer (vm.stack (u.base - 2)) = true := hpatched.2.2
    rw [hlaid.savedFp_lt (by omega) u hu] at hptr
    exact Bool.false_ne_true hptr
  · intro u hu hsaved
    by_cases hptr : isPointer (vm.stack (u.base - 1)) = true
    · exact hplain _ _ hsaved hptr
    · have hword : vm'.stack (u.base - 1) = vm.stack (u.base - 1) :=
        hrepointed.stack _ fun hpatched => hptr hpatched.2.2
      rw [hword]
      exact hsaved

end Machine

/-- **Every orderly instruction keeps the frames laid out.** -/
theorem FrameStep.kept (hstep : FrameStep c i c') (h : FramesKept size SavedIp c)
    (horder : Orderly size SavedIp c i)
    (hplain : ∀ w w', SavedIp w → isPointer w = true → SavedIp w') :
    FramesKept size SavedIp c' := by
  obtain ⟨opcode, d⟩ := i
  obtain ⟨vm, frames⟩ := c
  obtain ⟨vm', frames'⟩ := c'
  obtain ⟨hexecutes, hframes⟩ := hstep
  simp only at hexecutes hframes
  subst hframes
  have heffect := hexecutes.effect
  cases heffect with
  | arithmetic arith =>
      rcases arith with rfl | rfl | rfl | rfl <;> exact h.of_same rfl rfl rfl rfl
  | taken jump | passed jump =>
      rcases Opcode.isBranch_iff.1 jump with rfl | rfl | rfl | rfl <;> exact h.of_same rfl rfl rfl rfl
  | load | compare | mov | read | arrins | arrread | debugReturn => exact h.of_same rfl rfl rfl rfl
  | deref flag run =>
      obtain ⟨hcontrol, hstack⟩ := mov_frame run
      exact h.of_same rfl (congrArg Control.fp hcontrol) (congrArg Control.sp hcontrol) hstack
  | end_ control reg stack =>
      exact h.of_same rfl (congrArg Control.fp control) (congrArg Control.sp control) stack
  | call => exact h.called hexecutes horder
  | ret low => exact h.returned low hexecutes.limit
  | push room => exact h.pushed _ room
  | pop low => exact h.popped low horder rfl rfl rfl
  | insert => exact h.inserted horder
  | arr run =>
      -- of the new array only the register is set
      obtain ⟨vm₁, w, hrepointed, rfl⟩ := initArray_frame run
      have hkept : FramesKept size SavedIp ⟨vm₁, frames⟩ :=
        h.repointed hrepointed hplain
      exact hkept.of_same rfl rfl rfl rfl

/-- A `ret` goes back to a saved address. -/
theorem FrameStep.returns (hstep : FrameStep c i c') (h : FramesKept size SavedIp c)
    (hret : i.1 = .opRet) : SavedIp c'.vm.ip := by
  obtain ⟨opcode, d⟩ := i
  obtain rfl : opcode = .opRet := hret
  obtain ⟨f, rest, hf, hbase⟩ := h.executing
  have hlaid := h.laid
  have heffect : Effect c.vm.fetched .opRet d c'.vm := hstep.executes.effect
  obtain ⟨hvm, hlow⟩ := heffect.ret_inv
  have hlow : 2 ≤ c.vm.fp.toNat := hlow
  rw [hf] at hlaid
  cases hlaid with
  | entry base => omega
  | called pair nonneg room fp ip caller =>
      rw [hvm]
      rw [hbase] at ip
      exact ip

end Step

/-! ## §4. Declared locals. -/

/-- **Every active function has its slots**: they lie below SP, apart from the
saved words and from those of the others, and no `push` or `call` writes one. -/
structure Reserved (size : Nat → Int) (c : Framed) : Prop where
  executing : c.frames.head?.map Frame.base = some c.vm.fp.toNat
  callers : c.frames.IsChain fun f g => (c.vm.stack (f.base - 2)).toNat = g.base
  pairs : ∀ f ∈ c.frames.dropLast, 2 ≤ f.base
  below : ∀ f ∈ c.frames, ∀ s, f.Slot size s → s < c.vm.sp.toNat
  saved : ∀ f ∈ c.frames, ∀ g ∈ c.frames.dropLast, ∀ s, f.Slot size s →
    s ≠ g.base - 2 ∧ s ≠ g.base - 1
  apart : c.frames.Pairwise fun f g => ∀ s, f.Slot size s → ¬ g.Slot size s
  kept : ∀ i c', FrameStep c i c' → i.1 = .opPush ∨ i.1 = .opCall →
    ∀ f ∈ c.frames, ∀ s, f.Slot size s → c'.vm.stack s = c.vm.stack s

/-- Frames that are kept are reserved. -/
theorem FramesKept.reserved {size : Nat → Int} {SavedIp : Word → Prop} {c : Framed}
    (h : FramesKept size SavedIp c) : Reserved size c where
  executing := by
    obtain ⟨f, rest, hf, hbase⟩ := h.executing
    rw [hf, ← hbase]
    rfl
  callers := h.laid.callers (BitVec.isLt _)
  pairs := h.laid.pair_le
  below := h.laid.slot_lt
  saved := h.laid.slot_ne_saved
  apart := h.laid.apart
  kept := by
    rintro ⟨opcode, d⟩ c' hstep hop f hf s hs
    have hbelow := h.laid.slot_lt f hf s hs
    rcases hop with rfl | rfl
    · have heffect : Effect c.vm.fetched .opPush d c'.vm := hstep.executes.effect
      rw [heffect.push_inv, VM.pushed_stack]
      exact if_neg (Nat.ne_of_lt hbelow)
    · exact hstep.executes.entered.slots s hbelow

end SproutLang
