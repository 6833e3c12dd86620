/-
  SproutLang.VM.Calls
  ───────────────────
  **THE CALL/RETURN DISCIPLINE.**

  `call` saves FP and IP in two slots of the stack that locals and operands
  live in, and `ret` takes them back from below the frame pointer.  `Body` is
  an execution inside a function, inner calls balanced; by induction on it:

    • `Body.keeps`    — a body keeps the frame pointer, and every slot below
                        it that no `ins` and no collection wrote,
    • `call_returns`  — so the matching `ret` restores IP, SP, FP and the
                        caller's slots.
-/
import SproutLang.VM.Heap.CollectorFrame
import SproutLang.VM.Loader

namespace SproutLang

open Library

/-! ## §1. Bodies. -/

/-- The slot an `ins` writes. -/
def insSlots (opcode : Opcode) (d : DecodedInstr) : List Nat :=
  if opcode = .opInsertIntoStack then [stackPoint d.ra d.rb] else []

/-- The slots a collection in an `arr` patches. -/
def patchedSlots (vm : VM) (opcode : Opcode) : List Nat :=
  if opcode = .opArrInit ∧ vm.collects then
    (List.range vm.sp.toNat).filter (fun i => isPointer (vm.stack i))
  else []

/-- What an instruction of a function keeps to, other than `call` and `ret`:
it pops nothing below its frame, overwrites no saved FP or IP (`frames` are
the slots of the saved FPs, the IP is in the one behind) and moves only
between registers. -/
def Disciplined (frames : List Nat) (vm : VM) (d : DecodedInstr) : Opcode → Prop
  | .opPop => vm.fp.toNat < vm.sp.toNat
  | .opInsertIntoStack => ∀ b ∈ frames, stackPoint d.ra d.rb ≠ b ∧ stackPoint d.ra d.rb ≠ b + 1
  | .opMov => d.rc = 0
  | .opCall => False
  | .opRet => False
  | _ => True

/-- **An execution inside a function** from one state to another, with the
slots it writes by `ins` and those its collections patch.  Calls come with
their bodies and their returns. -/
inductive Body : List Nat → VM → List Nat → List Nat → VM → Prop where
  | done (frames : List Nat) (vm : VM) : Body frames vm [] [] vm
  | step {frames : List Nat} {vm vm1 vm2 : VM} {ins patched : List Nat} {opcode : Opcode}
      {d : DecodedInstr} (before : Body frames vm ins patched vm1)
      (executes : Executes vm1 opcode d vm2) (disciplined : Disciplined frames vm1 d opcode) :
      Body frames vm (ins ++ insSlots opcode d) (patched ++ patchedSlots vm1 opcode) vm2
  | nested {frames : List Nat} {vm vm1 vm2 vm3 vm4 : VM} {ins ins' patched patched' : List Nat}
      {d d' : DecodedInstr} (before : Body frames vm ins patched vm1)
      (call : Executes vm1 .opCall d vm2)
      (body : Body (vm1.sp.toNat :: frames) vm2 ins' patched' vm3)
      (ret : Executes vm3 .opRet d' vm4) :
      Body frames vm (ins ++ ins') (patched ++ patched') vm4

/-! ## §2. What a body keeps. -/

/-- **The frame is as it was**: the frame pointer, and below it every slot no
`ins` wrote and that held no pointer or was not patched. -/
structure Keeps (vm vm' : VM) (ins patched : List Nat) : Prop where
  fp : vm'.fp = vm.fp
  above : vm'.fp.toNat ≤ vm'.sp.toNat
  limit : vm'.sp.toNat ≤ STACK_SIZE
  slots : ∀ i, i < vm.fp.toNat → i ∉ ins →
    isPointer (vm.stack i) = false ∨ i ∉ patched → vm'.stack i = vm.stack i

section Keeps

variable {frames : List Nat} {vm vm1 vm2 vm3 vm4 : VM} {ins ins' patched patched' : List Nat}
  {opcode : Opcode} {d d' : DecodedInstr}

/-- Two stretches of a body keep together what both keep. -/
theorem Keeps.trans (h : Keeps vm vm1 ins patched) (h' : Keeps vm1 vm2 ins' patched') :
    Keeps vm vm2 (ins ++ ins') (patched ++ patched') where
  fp := h'.fp.trans h.fp
  above := h'.above
  limit := h'.limit
  slots i hi hins hpatched := by
    rw [List.mem_append, not_or] at hins
    have hsplit : (isPointer (vm.stack i) = false ∨ i ∉ patched) ∧
        (isPointer (vm.stack i) = false ∨ i ∉ patched') := by
      rw [List.mem_append, not_or] at hpatched
      exact ⟨hpatched.imp_right And.left, hpatched.imp_right And.right⟩
    have hfirst := h.slots i hi hins.1 hsplit.1
    rw [← hfirst]
    refine h'.slots i (by rw [h.fp]; exact hi) hins.2 ?_
    rw [hfirst]
    exact hsplit.2

/-- An instruction that leaves SP, FP and the stack alone. -/
theorem Keeps.of_same (habove : vm.fp.toNat ≤ vm.sp.toNat) (hlimit : vm.sp.toNat ≤ STACK_SIZE)
    (hfp : vm1.fp = vm.fp) (hsp : vm1.sp = vm.sp) (hstack : vm1.stack = vm.stack)
    (ins patched : List Nat) : Keeps vm vm1 ins patched :=
  ⟨hfp, by rw [hfp, hsp]; exact habove, by rw [hsp]; exact hlimit,
    fun i _ _ _ => congrFun hstack i⟩

/-- A push above the frame. -/
theorem Keeps.pushed (habove : vm.fp.toNat ≤ vm.sp.toNat) (hroom : vm.sp.toNat < STACK_SIZE)
    (w : Word) : Keeps vm (vm.pushed w) [] [] := by
  have hS : STACK_SIZE = 4096 := rfl
  have hsp : (vm.pushed w).sp.toNat = vm.sp.toNat + 1 := by
    show (vm.sp + 1).toNat = _
    bv_omega
  refine ⟨rfl, ?_, by omega, fun i hi _ _ => ?_⟩
  · show vm.fp.toNat ≤ (vm.pushed w).sp.toNat
    omega
  · rw [VM.pushed_stack, if_neg (by omega)]

/-- **A disciplined instruction keeps the frame.** -/
theorem Executes.keeps (h : Executes vm opcode d vm1) (hd : Disciplined frames vm d opcode)
    (habove : vm.fp.toNat ≤ vm.sp.toNat) (hlimit : vm.sp.toNat ≤ STACK_SIZE) :
    Keeps vm vm1 (insSlots opcode d) (patchedSlots vm opcode) := by
  -- an instruction that touches neither stack nor pointers
  have hsame : ∀ {vm1 : VM}, vm1.fp = vm.fp → vm1.sp = vm.sp → vm1.stack = vm.stack →
      Keeps vm vm1 (insSlots opcode d) (patchedSlots vm opcode) :=
    fun hfp hsp hstack => Keeps.of_same habove hlimit hfp hsp hstack _ _
  have heffect := h.effect
  cases heffect with
  | arithmetic => exact hsame rfl rfl rfl
  | load => exact hsame rfl rfl rfl
  | compare => exact hsame rfl rfl rfl
  | taken => exact hsame rfl rfl rfl
  | passed => exact hsame rfl rfl rfl
  | call => exact hd.elim
  | ret => exact hd.elim
  | push room =>
      have hpush := Keeps.pushed habove room (vm.reg d.ra)
      exact ⟨hpush.fp, hpush.above, hpush.limit, hpush.slots⟩
  | pop low high =>
      have hd : vm.fp.toNat < vm.sp.toNat := hd
      have hsp : (vm.sp - 1).toNat = vm.sp.toNat - 1 := by bv_omega
      refine ⟨rfl, ?_, ?_, fun i _ _ _ => rfl⟩
      · show vm.fp.toNat ≤ (vm.sp - 1).toNat
        omega
      · show (vm.sp - 1).toNat ≤ STACK_SIZE
        omega
  | mov => exact hsame rfl rfl rfl
  | deref flag =>
      have hzero : d.rc = 0 := hd
      rw [hzero] at flag
      exact absurd flag (by decide)
  -- the slot written is the one the list names
  | insert slot =>
      refine ⟨rfl, habove, hlimit, fun i _ hins _ => ?_⟩
      refine VM.setSlot_of_ne (fun heq => hins ?_)
      rw [heq]
      exact List.mem_singleton_self _
  | read => exact hsame rfl rfl rfl
  | arr run =>
      obtain ⟨vm2, w, hrepointed, rfl⟩ := initArray_frame run
      have hfp : vm2.fp = vm.fp := congrArg Control.fp hrepointed.control
      have hsp : vm2.sp = vm.sp := congrArg Control.sp hrepointed.control
      refine ⟨hfp, ?_, ?_, fun i _ _ hpatched => hrepointed.stack i (fun hc => ?_)⟩
      · show vm2.fp.toNat ≤ vm2.sp.toNat
        rw [hfp, hsp]
        exact habove
      · show vm2.sp.toNat ≤ STACK_SIZE
        rw [hsp]
        exact hlimit
      · obtain ⟨hcollects, hlt, hptr⟩ := hc
        have hptr : isPointer (vm.stack i) = true := hptr
        -- a slot that the collection patched held a pointer
        rcases hpatched with hplain | hnot
        · rw [hptr] at hplain
          exact Bool.false_ne_true hplain.symm
        · refine hnot ?_
          unfold patchedSlots
          rw [if_pos ⟨rfl, hcollects⟩]
          exact List.mem_filter.2 ⟨List.mem_range.2 hlt, hptr⟩
  | arrins => exact hsame rfl rfl rfl
  | arrread => exact hsame rfl rfl rfl
  | end_ control reg stack =>
      exact hsame (congrArg Control.fp control) (congrArg Control.sp control) stack
  | debugReturn => exact hsame rfl rfl rfl

/-! ## §3. Calls. -/

/-- **A state right behind a `call`**: FP and IP are saved above the caller's
slots, and the frame starts behind them. -/
structure Entered (vm vm1 : VM) : Prop where
  room : vm.sp.toNat + 2 ≤ STACK_SIZE
  fp : vm1.fp.toNat = vm.sp.toNat + 2
  above : vm1.fp.toNat ≤ vm1.sp.toNat
  limit : vm1.sp.toNat ≤ STACK_SIZE
  savedFp : vm1.stack vm.sp.toNat = vm.fp
  savedIp : vm1.stack (vm.sp.toNat + 1) = vm.fetched.ip
  slots : ∀ i, i < vm.sp.toNat → vm1.stack i = vm.stack i

/-- Where SP is behind a `call`: above the saved words and the frame. -/
theorem VM.called_sp {f : FunctionInfo} (room : vm.sp.toNat + 2 ≤ STACK_SIZE) :
    (vm.called f).sp.toNat = vm.sp.toNat + 2 + f.frameSize.toNat := by
  have hS : STACK_SIZE = 4096 := rfl
  have hsmall := f.frameSize.isLt
  have hwide : (f.frameSize.setWidth 64).toNat = f.frameSize.toNat := by
    rw [BitVec.toNat_setWidth]
    omega
  show (vm.sp + 2 + f.frameSize.setWidth 64).toNat = _
  bv_omega

/-- A `call` that is executed enters the function. -/
theorem Executes.entered (h : Executes vm .opCall d vm1) : Entered vm vm1 := by
  have hS : STACK_SIZE = 4096 := rfl
  have hlimit := h.limit
  obtain ⟨rfl, room⟩ := h.effect.call_inv
  have hroom : vm.sp.toNat + 2 ≤ STACK_SIZE := room
  have hnext : (vm.sp + 1).toNat = vm.sp.toNat + 1 := by bv_omega
  have hfp : (vm.sp + 2).toNat = vm.sp.toNat + 2 := by bv_omega
  -- the two words above `sp`, and nothing else
  have hstack : ∀ f i, (vm.fetched.called f).stack i
      = if i = vm.sp.toNat + 1 then vm.fetched.ip
        else if i = vm.sp.toNat then vm.fp else vm.stack i := by
    intro f i
    show ((vm.fetched.pushed vm.fp).pushed vm.fetched.ip).stack i = _
    rw [VM.pushed_stack, VM.pushed_stack]
    show (if i = (vm.sp + 1).toNat then _ else if i = vm.sp.toNat then _ else _) = _
    rw [hnext]
    rfl
  generalize vm.fetched.functionTable (callIndex d.ra d.rb d.rc) = f at hlimit ⊢
  have hsp : (vm.fetched.called f).sp.toNat = vm.sp.toNat + 2 + f.frameSize.toNat :=
    VM.called_sp room
  refine ⟨hroom, hfp, ?_, hlimit, ?_, ?_, ?_⟩
  · show (vm.sp + 2).toNat ≤ _
    omega
  · -- the first of the two words
    rw [hstack, if_neg (by omega), if_pos rfl]
  · -- the second
    rw [hstack, if_pos rfl]
  · intro i hi
    rw [hstack, if_neg (by omega), if_neg (by omega)]

/-- What a `ret` does. -/
theorem Executes.returned (h : Executes vm .opRet d vm1) : vm1 = vm.fetched.returned :=
  h.effect.ret_inv.1

/-- **A call, a body that keeps its frame, and a return.** -/
theorem Entered.back (h : Entered vm vm1) (hkeeps : Keeps vm1 vm2 ins patched)
    (havoid : vm.sp.toNat ∉ ins ∧ vm.sp.toNat + 1 ∉ ins) (hret : Executes vm2 .opRet d vm3)
    (hip : vm.fetched.ip.toNat < 2 ^ 48) (hfp : isPointer vm.fp = false) :
    vm3.ip = vm.fetched.ip ∧ vm3.sp = vm.sp ∧ vm3.fp = vm.fp ∧
      ∀ i, i < vm.sp.toNat → i ∉ ins → isPointer (vm.stack i) = false ∨ i ∉ patched →
        vm3.stack i = vm.stack i := by
  have hframe := h.fp
  have hlow : vm2.fp.toNat - 2 = vm.sp.toNat := by
    rw [hkeeps.fp]
    omega
  have hhigh : vm2.fp.toNat - 1 = vm.sp.toNat + 1 := by
    rw [hkeeps.fp]
    omega
  have hreturned := hret.returned
  subst hreturned
  -- the two saved words are no pointers, so no collection patches them
  have hsavedFp : vm2.stack vm.sp.toNat = vm.fp := by
    rw [hkeeps.slots _ (by omega) havoid.1 (Or.inl (by rw [h.savedFp]; exact hfp)), h.savedFp]
  have hsavedIp : vm2.stack (vm.sp.toNat + 1) = vm.fetched.ip := by
    rw [hkeeps.slots _ (by omega) havoid.2
      (Or.inl (by rw [h.savedIp]; exact isPointer_eq_false_of_lt (by omega))), h.savedIp]
  refine ⟨?_, ?_, ?_, fun i hi hins hpatched => ?_⟩
  · show vm2.stack (vm2.fp.toNat - 1) = _
    rw [hhigh, hsavedIp]
  · show vm2.fp - 2 = vm.sp
    have hfpEq := hkeeps.fp
    bv_omega
  · show vm2.stack (vm2.fp.toNat - 2) = _
    rw [hlow, hsavedFp]
  · show vm2.stack i = vm.stack i
    rw [← h.slots i hi]
    refine hkeeps.slots i (by omega) hins ?_
    rw [h.slots i hi]
    exact hpatched

/-- **A body keeps its frame**, and writes no saved word by `ins`. -/
theorem Body.keeps (h : Body frames vm ins patched vm1) (habove : vm.fp.toNat ≤ vm.sp.toNat)
    (hlimit : vm.sp.toNat ≤ STACK_SIZE) :
    Keeps vm vm1 ins patched ∧ ∀ b ∈ frames, b ∉ ins ∧ b + 1 ∉ ins := by
  -- on the body: an instruction, or a whole call
  induction h with
  | done frames vm =>
      exact ⟨Keeps.of_same habove hlimit rfl rfl rfl _ _,
        fun b _ => ⟨List.not_mem_nil, List.not_mem_nil⟩⟩
  | @step frames vm vm1 vm2 ins patched opcode d before executes disciplined ih =>
      obtain ⟨hkeeps, havoid⟩ := ih habove hlimit
      refine ⟨hkeeps.trans (executes.keeps disciplined hkeeps.above hkeeps.limit),
        fun b hb => ?_⟩
      -- INS avoids both saved words of every frame
      have hslot : ∀ i, (i = b ∨ i = b + 1) → i ∉ insSlots opcode d := by
        intro i hi hmem
        unfold insSlots at hmem
        split at hmem
        · rename_i hop
          subst hop
          have hne := disciplined b hb
          rw [List.mem_singleton.1 hmem] at hi
          exact hi.elim hne.1 hne.2
        · exact absurd hmem List.not_mem_nil
      rw [List.mem_append, List.mem_append, not_or, not_or]
      exact ⟨⟨(havoid b hb).1, hslot b (Or.inl rfl)⟩, (havoid b hb).2, hslot (b + 1) (Or.inr rfl)⟩
  | @nested frames vm vm1 vm2 vm3 vm4 ins ins' patched patched' d d' before call body ret ih ihbody =>
      obtain ⟨hkeeps, havoid⟩ := ih habove hlimit
      have hentered := call.entered
      obtain ⟨hinner, havoid'⟩ := ihbody hentered.above hentered.limit
      have hS : STACK_SIZE = 4096 := rfl
      have habove1 := hkeeps.above
      have hlimit1 := hkeeps.limit
      -- the callee returned with everything as it was
      obtain ⟨hip, hsp, hfp, hslots⟩ := hentered.back hinner
        (havoid' _ List.mem_cons_self) ret call.fetched_ip.2
        (isPointer_eq_false_of_lt (by omega))
      have hback : Keeps vm1 vm4 ins' patched' := by
        refine ⟨hfp, ?_, ?_, fun i hi => hslots i (by omega)⟩
        · rw [hfp, hsp]
          exact habove1
        · rw [hsp]
          exact hlimit1
      refine ⟨hkeeps.trans hback, fun b hb => ?_⟩
      have hinside := havoid' b (List.mem_cons_of_mem _ hb)
      rw [List.mem_append, List.mem_append, not_or, not_or]
      exact ⟨⟨(havoid b hb).1, hinside.1⟩, (havoid b hb).2, hinside.2⟩

end Keeps

/-! ## §4. The discipline. -/

/-- **A call, its body and its return** restore IP, SP and FP and leave the
caller's slots alone, but for those an `ins` wrote or a collection patched;
the caller's FP must be no pointer. -/
theorem call_returns {vm vm1 vm2 vm3 : VM} {ins patched : List Nat} {d d' : DecodedInstr}
    (hcall : Executes vm .opCall d vm1) (hbody : Body [vm.sp.toNat] vm1 ins patched vm2)
    (hret : Executes vm2 .opRet d' vm3) (hfp : isPointer vm.fp = false) :
    vm3.ip = vm.ip + 4 ∧ vm3.sp = vm.sp ∧ vm3.fp = vm.fp ∧
      ∀ i, i < vm.sp.toNat → i ∉ ins → i ∉ patched → vm3.stack i = vm.stack i := by
  have hentered := hcall.entered
  obtain ⟨hkeeps, havoid⟩ := hbody.keeps hentered.above hentered.limit
  obtain ⟨hip, hsp, hfp', hslots⟩ := hentered.back hkeeps (havoid _ (List.mem_singleton_self _))
    hret hcall.fetched_ip.2 hfp
  exact ⟨hip, hsp, hfp', fun i hi hins hpatched => hslots i hi hins (Or.inr hpatched)⟩

/-- A program that calls a function which makes an array. -/
def callingArr : Image :=
  ⟨fileBytes [(64, 1)]
    [0x05010000, 0x7FF10000, 0x00000003,  -- load r1 3
     0x13020100,                          -- arr r2 r1 r0
     0x0C000000,                          -- call 0
     0x04000000,                          -- end r0
     0x13040100,                          -- arr r4 r1 r0
     0x0D000000],                         -- ret
    by decide⟩

/-- The machine at the call, with the frame pointer `fp`; with heap limit 0
the function's `arr` collects. -/
def beforeCall (fp : Word → Word) : VM :=
  let vm := finalState (iterate (finalState (iterate (VM.loaded 0 callingArr))))
  { vm with fp := fp (vm.reg 2) }

/-- The machine inside the called function. -/
def insideCall (fp : Word → Word) : VM := finalState (iterate (beforeCall fp))

/-- The machine after the `arr` there. -/
def afterInnerArr (fp : Word → Word) : VM := finalState (iterate (insideCall fp))

/-- The machine after its return. -/
def afterRet (fp : Word → Word) : VM := finalState (iterate (afterInnerArr fp))

/-- The function's `arr` is its body. -/
theorem callingArr_body {fp : Word → Word} (n : Nat)
    (h : MayExecute (insideCall fp) .opArrInit ⟨19, 4, 1, 0⟩) :
    Body [n] (insideCall fp) [] (patchedSlots (insideCall fp) .opArrInit) (afterInnerArr fp) := by
  have hbody := (Body.done [n] (insideCall fp)).step h.executes trivial
  have hins : insSlots .opArrInit ⟨19, 4, 1, 0⟩ = [] := if_neg (by decide)
  rw [hins, List.nil_append, List.nil_append] at hbody
  exact hbody

/-- The call is returned from while the function's `arr` collects. -/
theorem call_returns_callingArr :
    (afterRet fun _ => 0).ip = (beforeCall fun _ => 0).ip + 4 ∧
    (afterRet fun _ => 0).sp = (beforeCall fun _ => 0).sp ∧
    (afterRet fun _ => 0).fp = (beforeCall fun _ => 0).fp ∧
      ∀ i, i < (beforeCall fun _ => 0).sp.toNat → i ∉ ([] : List Nat) →
        i ∉ patchedSlots (insideCall fun _ => 0) .opArrInit →
        (afterRet fun _ => 0).stack i = (beforeCall fun _ => 0).stack i := by
  -- one evaluation, as the machines are the same
  obtain ⟨hcall, harr, hret, hfp⟩ :
      MayExecute (beforeCall fun _ => 0) .opCall ⟨12, 0, 0, 0⟩ ∧
      MayExecute (insideCall fun _ => 0) .opArrInit ⟨19, 4, 1, 0⟩ ∧
      MayExecute (afterInnerArr fun _ => 0) .opRet ⟨13, 0, 0, 0⟩ ∧
      isPointer (beforeCall fun _ => 0).fp = false := by decide +kernel
  exact call_returns hcall.executes (callingArr_body _ harr) hret.executes hfp

/-- **FP is not restored** where its value is the word of a pointer: the
collection in the function takes the saved FP for a root and patches it. -/
theorem call_patches_saved_fp :
    Executes (beforeCall id) .opCall ⟨12, 0, 0, 0⟩ (insideCall id) ∧
    Body [(beforeCall id).sp.toNat] (insideCall id) []
      (patchedSlots (insideCall id) .opArrInit) (afterInnerArr id) ∧
    Executes (afterInnerArr id) .opRet ⟨13, 0, 0, 0⟩ (afterRet id) ∧
    (afterRet id).fp ≠ (beforeCall id).fp := by
  obtain ⟨hcall, harr, hret, hfp⟩ :
      MayExecute (beforeCall id) .opCall ⟨12, 0, 0, 0⟩ ∧
      MayExecute (insideCall id) .opArrInit ⟨19, 4, 1, 0⟩ ∧
      MayExecute (afterInnerArr id) .opRet ⟨13, 0, 0, 0⟩ ∧
      (afterRet id).fp ≠ (beforeCall id).fp := by decide +kernel
  exact ⟨hcall.executes, callingArr_body _ harr, hret.executes, hfp⟩

end SproutLang
