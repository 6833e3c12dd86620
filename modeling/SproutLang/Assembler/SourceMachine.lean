/-
  SproutLang.Assembler.SourceMachine
  ──────────────────────────────────
  **WHAT AN ASSEMBLY PROGRAM MEANS.**

  A machine that executes the lines of a text.  It has neither code nor heap
  addresses: control is at a line, a branch goes to the line behind its label,
  `call` leaves the line it returns to on the stack, and an array is known by
  its number.  Where a program would look at an address, take the wrong end of
  an array or leave the stack, the text says nothing about it: the machine
  gives `undefinedBehaviour`, and promises nothing.
-/
import SproutLang.Assembler.Labels
import SproutLang.Assembler.Frames
import SproutLang.VM.ObjectMachine

namespace SproutLang.Assembler

open Library

/-! ## §1. Programs. -/

/-- An instruction line, and the lines the labels of its function stand in
front of. -/
structure SourceLine where
  said : SourceInstr
  label : Str → Option Nat

/-- The lines of all functions in a row; of each function the line it starts
at and the slots it declares. -/
structure Program where
  lines : List SourceLine
  function : Nat → Option (Nat × Nat)

/-- A line that defines `label`. -/
def defines (py : Python) (label : Str) (toks : List Str) : Bool :=
  lineKind py toks = .label && labelName toks = label

/-- The line of a function in front of which the label `@label` stands. -/
def labelLine (py : Python) (items : Scope) (label : Str) : Option Nat :=
  (items.findIdx? (defines py label)).map fun j => ((items.take j).filterMap (readLine py)).length

/-- The lines of the functions `scopes`, of which the first line is number
`first`. -/
def linesFrom (py : Python) : Nat → List Scope → List SourceLine
  | _, [] => []
  | first, items :: scopes =>
      (items.filterMap (readLine py)).map
          (fun s => ⟨s, fun label => (labelLine py items label).map (first + ·)⟩)
        ++ linesFrom py (first + (items.filterMap (readLine py)).length) scopes

/-- The line function `i` starts at. -/
def firstLine (py : Python) (scopes : List Scope) (i : Nat) : Nat :=
  ((codesOf py scopes).take i).flatten.length

/-- **The program a text is.** -/
def programOf (py : Python) (text : Str) : Program where
  lines := linesFrom py 0 (scopesOf py (readlines text))
  function i :=
    if i < (scopesOf py (readlines text)).length then
      some (firstLine py (scopesOf py (readlines text)) i, (declaredSize py text i).toNat)
    else none

/-! ## §2. The machine. -/

/-- The content of a register or of a stack slot. -/
inductive Value where
  | word (w : Word)
  | array (k : Nat)
  /-- where a call returns to -/
  | line (n : Nat)
  deriving DecidableEq, Repr

/-- The integer of a value that is used as one. -/
def Value.number : Value → Option Int
  | .word w => some (decodeInt w)
  | .array _ | .line _ => none

/-- **The source machine**: it is at a line, and its values are words, arrays
and lines. -/
structure SourceVM where
  line : Nat
  sp : Nat
  fp : Value
  reg : Byte → Value
  stack : Nat → Value
  arrays : List (List Word)
  jmpFlag : Int
  running : Bool
  out : List Output

namespace SourceVM

/-- An assignment to a register. -/
def setReg (s : SourceVM) (r : Byte) (v : Value) : SourceVM :=
  { s with reg := Function.update s.reg r v }

/-- An assignment to a stack slot. -/
def setSlot (s : SourceVM) (i : Nat) (v : Value) : SourceVM :=
  { s with stack := Function.update s.stack i v }

/-- The machine at the next line. -/
def next (s : SourceVM) : SourceVM := { s with line := s.line + 1 }

/-- `guarded c s` is `s` where `c` holds. -/
def guarded (c : Prop) [Decidable c] (s : SourceVM) : Except Fault SourceVM :=
  if c then .ok s else .error .undefinedBehaviour

/-! ## §3. Instructions. -/

/-- Two integers or two doubles; a line is no operand. -/
def arithmetic (s : SourceVM) (fpu : Fpu) (op : Arith) (dst a b : Byte) :
    Except Fault SourceVM :=
  match s.reg a, s.reg b with
  | .line _, _ | _, .line _ => .error .undefinedBehaviour
  | .word x, .word y => do
      let w ← ObjectVM.arithWord fpu op x y
      return s.setReg dst (.word w)
  | _, _ => .error (.runtimeError "Invalid Operand types!")

/-- The flag of two words; a line is no operand. -/
def compare (s : SourceVM) (fpu : Fpu) (a b : Byte) : Except Fault SourceVM :=
  match s.reg a, s.reg b with
  | .line _, _ | _, .line _ => .error .undefinedBehaviour
  | .word x, .word y =>
      match compareFlag fpu x y with
      | some flag => .ok { s with jmpFlag := flag }
      | none => .error (.runtimeError "Invalid Operand types")
  | _, _ => .error (.runtimeError "Invalid Operand types")

/-- One more value on the stack. -/
def pushed (s : SourceVM) (v : Value) : SourceVM := { s.setSlot s.sp v with sp := s.sp + 1 }

/-- Inside a function that starts at line `entry` and declares `size` slots. -/
def called (s : SourceVM) (entry size : Nat) : SourceVM :=
  { (s.pushed s.fp).pushed (.line s.line) with
    fp := .word (BitVec.ofNat 64 (s.sp + 2))
    sp := s.sp + 2 + size
    line := entry }

/-- Back from a function whose frame starts at `fp`, at the line its call has
left there. -/
def returned (s : SourceVM) : Except Fault SourceVM :=
  match s.fp with
  | .word fp =>
      if 2 ≤ fp.toNat ∧ fp.toNat ≤ STACK_SIZE then
        match s.stack (fp.toNat - 1) with
        | .line n => .ok { s with line := n, fp := s.stack (fp.toNat - 2), sp := fp.toNat - 2 }
        | .word _ | .array _ => .error .undefinedBehaviour
      else .error .undefinedBehaviour
  | .array _ | .line _ => .error .undefinedBehaviour

/-- A new array of zeroes. -/
def allocated (s : SourceVM) (dst : Byte) (length : Nat) : SourceVM :=
  { s with arrays := s.arrays ++ [List.replicate length 0] }.setReg dst (.array s.arrays.length)

/-- The array, its words and the position an access is about, if it is in
range. -/
def element (s : SourceVM) (address index : Byte) : Option (Nat × Nat × List Word) :=
  match s.reg address, (s.reg index).number with
  | .array k, some (.ofNat i) =>
      match s.arrays[k]? with
      | some words => if i < words.length then some (k, i, words) else none
      | none => none
  | _, _ => none

/-- What an access in range is about. -/
theorem element_eq_some {s : SourceVM} {a b : Byte} {k i : Nat} {words : List Word}
    (h : s.element a b = some (k, i, words)) :
    s.reg a = .array k ∧ (∃ w, s.reg b = .word w ∧ decodeInt w = (i : Int)) ∧
      s.arrays[k]? = some words ∧ i < words.length := by
  unfold element at h
  split at h
  · rename_i k' j harray hindex
    split at h
    · rename_i words' hwords
      split at h
      · rename_i hlt
        obtain ⟨rfl, rfl, rfl⟩ : k' = k ∧ j = i ∧ words' = words := by simpa using h
        refine ⟨harray, ?_, hwords, hlt⟩
        -- only a word has a number
        cases hb : s.reg b with
        | word w =>
            rw [hb] at hindex
            exact ⟨w, rfl, Option.some.inj hindex⟩
        | array | line =>
            rw [hb] at hindex
            cases hindex
      · cases h
    · cases h
  · cases h

/-- What `end` and `dbgret` print of a register. -/
def shown (s : SourceVM) (a : Byte) : Except Fault (List Output) :=
  match s.reg a with
  | .word w => .ok (printed w)
  | .array _ => .ok []
  | .line _ => .error .undefinedBehaviour

/-- A line that names its operands as registers. -/
def operate (s : SourceVM) (fpu : Fpu) (a b c : Byte) : Opcode → Except Fault SourceVM
  | .opAdd => s.arithmetic fpu .add a b c
  | .opSub => s.arithmetic fpu .sub a b c
  | .opMul => s.arithmetic fpu .mul a b c
  | .opDiv => s.arithmetic fpu .div a b c
  | .opCmp => s.compare fpu a b
  | .opRet => s.returned
  | .opPush => guarded (s.sp < STACK_SIZE) (s.pushed (s.reg a))
  | .opPop => guarded (1 ≤ s.sp) ({ s with sp := s.sp - 1 }.setReg a (s.stack (s.sp - 1)))
  | .opInsertIntoStack =>
      guarded (stackPoint a b < STACK_SIZE) (s.setSlot (stackPoint a b) (s.reg c))
  | .opReadFromStack =>
      guarded (stackPoint a b < STACK_SIZE) (s.setReg c (s.stack (stackPoint a b)))
  | .opArrInit =>
      match (s.reg b).number with
      | some (.ofNat n) => .ok (s.allocated a n)
      | _ => .error .undefinedBehaviour
  | .opArrInsert =>
      match s.element b c, s.reg a with
      | some (k, i, words), .word w => .ok { s with arrays := s.arrays.set k (words.set i w) }
      | _, _ => .error .undefinedBehaviour
  | .opArrRead =>
      match s.element b c with
      | some (_, i, words) => .ok (s.setReg a (.word (words.getD i 0)))
      | none => .error .undefinedBehaviour
  | .opEnd => do
      let text ← s.shown a
      return { s with running := false, out := s.out ++ text }
  | .opDebugReturn => do
      let text ← s.shown a
      return { s with out := s.out ++ text }
  -- these have a line of their own kind
  | .opLoad64 | .opJe | .opJne | .opJl | .opJg | .opCall | .opMov => .error .undefinedBehaviour

/-- Which flags a branch is taken for. -/
def taken (op : Opcode) (flag : Int) : Bool :=
  match op with
  | .opJe => flag = 1
  | .opJne => flag ≠ 1
  | .opJl => flag = -1
  | .opJg => flag = 2
  | _ => false

/-- The register a line names by a number. -/
def register (r : Nat) : Byte := BitVec.ofNat 8 r

/-- One line. -/
def execute (s : SourceVM) (p : Program) (fpu : Fpu) (l : SourceLine) : Except Fault SourceVM :=
  match l.said with
  | .regs op rs =>
      s.next.operate fpu (register (rs.getD 0 0)) (register (rs.getD 1 0)) (register (rs.getD 2 0)) op
  -- no literal is an address
  | .load dst literal =>
      guarded (isPointer (BitVec.ofNat 64 literal) = false)
        (s.next.setReg (register dst) (.word (BitVec.ofNat 64 literal)))
  | .branch op label =>
      if taken op s.jmpFlag then
        match l.label label with
        | some n => .ok { s with line := n }
        | none => .error .undefinedBehaviour
      else .ok s.next
  | .call i =>
      match p.function i.toNat with
      | some (entry, size) => guarded (s.sp + 2 + size ≤ STACK_SIZE) (s.next.called entry size)
      | none => .error .undefinedBehaviour
  | .mov dst src flag => guarded (flag = 0) (s.next.setReg (register dst) (s.reg (register src)))

/-- The line control is at; behind the last one there is nothing. -/
def step (s : SourceVM) (p : Program) (fpu : Fpu) : Except Fault SourceVM :=
  match p.lines[s.line]? with
  | some l => s.execute p fpu l
  | none => .error .undefinedBehaviour

/-- A step that executes a given line. -/
structure Step (p : Program) (fpu : Fpu) (s : SourceVM) (l : SourceLine) (s' : SourceVM) : Prop where
  running : s.running = true
  line : p.lines[s.line]? = some l
  run : s.execute p fpu l = .ok s'

/-- The lines executed from `s` on, no more than `fuel`, and where they lead. -/
def follow (p : Program) (fpu : Fpu) : Nat → SourceVM → List SourceLine × SourceVM
  | 0, s => ([], s)
  | fuel + 1, s =>
      if s.running then
        match p.lines[s.line]? with
        | some l =>
            match s.execute p fpu l with
            | .ok s' => (l :: (follow p fpu fuel s').1, (follow p fpu fuel s').2)
            | .error _ => ([], s)
        | none => ([], s)
      else ([], s)

/-- They are a run. -/
theorem steps_follow (p : Program) (fpu : Fpu) (fuel : Nat) :
    ∀ s : SourceVM, Steps (Step p fpu) s (follow p fpu fuel s).1 (follow p fpu fuel s).2 := by
  induction fuel with
  | zero => exact fun s => Steps.nil s
  | succ fuel ih =>
      intro s
      unfold follow
      split
      · rename_i hrunning
        split
        · rename_i l hl
          split
          · rename_i s' hrun
            exact Steps.cons ⟨hrunning, hl, hrun⟩ (ih s')
          · exact Steps.nil s
        · exact Steps.nil s
      · exact Steps.nil s

/-- At the first line, with everything zero. -/
def start : SourceVM where
  line := 0
  sp := 0
  fp := .word 0
  reg _ := .word 0
  stack _ := .word 0
  arrays := []
  jmpFlag := 2
  running := true
  out := []

/-! ## §4. What every line keeps. -/

/-- A guard that lets through changes nothing. -/
theorem guarded_eq_ok {c : Prop} [Decidable c] {s s' : SourceVM} (h : guarded c s = .ok s') :
    c ∧ s = s' := by
  unfold guarded at h
  split at h
  · rename_i hc
    exact ⟨hc, Except.ok.inj h⟩
  · cases h

variable {s s' : SourceVM} {fpu : Fpu}

/-- Arithmetic leaves the stack pointer and the arrays. -/
theorem arithmetic_kept (op : Arith) {dst a b : Byte}
    (h : s.arithmetic fpu op dst a b = .ok s') : s'.sp = s.sp ∧ s'.arrays = s.arrays := by
  unfold arithmetic at h
  split at h
  · cases h
  · cases h
  · obtain ⟨w, -, h⟩ := except_bind_eq_ok h
    injection h with h
    rw [← h]
    exact ⟨rfl, rfl⟩
  · cases h

/-- So does a comparison. -/
theorem compare_kept {a b : Byte} (h : s.compare fpu a b = .ok s') :
    s'.sp = s.sp ∧ s'.arrays = s.arrays := by
  unfold compare at h
  split at h
  · cases h
  · cases h
  · split at h
    · injection h with h
      rw [← h]
      exact ⟨rfl, rfl⟩
    · cases h
  · cases h

/-- A `ret` leaves the stack pointer below the frame it leaves. -/
theorem returned_kept (h : s.returned = .ok s') : s'.sp ≤ STACK_SIZE ∧ s'.arrays = s.arrays := by
  unfold returned at h
  split at h
  · split at h
    · rename_i hrange
      split at h
      · injection h with h
        rw [← h]
        refine ⟨?_, rfl⟩
        show _ - 2 ≤ STACK_SIZE
        omega
      · cases h
      · cases h
    · cases h
  · cases h
  · cases h

/-- Where there is no array, none is accessed. -/
theorem element_of_none {a b : Byte} (h : s.arrays = []) : s.element a b = none := by
  cases helem : s.element a b with
  | none => rfl
  | some e =>
      obtain ⟨k, i, words⟩ := e
      obtain ⟨-, -, hwords, -⟩ := element_eq_some helem
      rw [h] at hwords
      cases hwords

/-- **A line of registers** leaves the stack pointer in the stack, and makes no
array unless it is an `arr`. -/
theorem operate_kept {a b c : Byte} {op : Opcode} (h : s.operate fpu a b c op = .ok s')
    (hroom : s.sp ≤ STACK_SIZE) :
    s'.sp ≤ STACK_SIZE ∧ (op ≠ .opArrInit → s.arrays = [] → s'.arrays = []) := by
  have hsame : s'.sp = s.sp ∧ s'.arrays = s.arrays →
      s'.sp ≤ STACK_SIZE ∧ (op ≠ .opArrInit → s.arrays = [] → s'.arrays = []) := by
    intro ⟨hsp, harrays⟩
    rw [hsp, harrays]
    exact ⟨hroom, fun _ hnone => hnone⟩
  have hshown : ∀ {f : List Output → SourceVM},
      (∀ out, (f out).sp = s.sp ∧ (f out).arrays = s.arrays) →
      (s.shown a >>= fun text => .ok (f text)) = .ok s' → s'.sp = s.sp ∧ s'.arrays = s.arrays := by
    intro f hf h
    obtain ⟨text, -, h⟩ := except_bind_eq_ok h
    injection h with h
    rw [← h]
    exact hf text
  cases op with
  | opAdd => exact hsame (arithmetic_kept .add h)
  | opSub => exact hsame (arithmetic_kept .sub h)
  | opMul => exact hsame (arithmetic_kept .mul h)
  | opDiv => exact hsame (arithmetic_kept .div h)
  | opCmp => exact hsame (compare_kept h)
  | opRet =>
      obtain ⟨hsp, harrays⟩ := returned_kept h
      exact ⟨hsp, fun _ hnone => harrays.trans hnone⟩
  | opPush =>
      obtain ⟨hlt, rfl⟩ := guarded_eq_ok h
      exact ⟨hlt, fun _ hnone => hnone⟩
  | opPop =>
      obtain ⟨-, rfl⟩ := guarded_eq_ok h
      refine ⟨?_, fun _ hnone => hnone⟩
      show s.sp - 1 ≤ STACK_SIZE
      omega
  | opInsertIntoStack | opReadFromStack =>
      obtain ⟨-, rfl⟩ := guarded_eq_ok h
      exact ⟨hroom, fun _ hnone => hnone⟩
  | opArrInit =>
      unfold operate at h
      simp only at h
      split at h
      · injection h with h
        rw [← h]
        exact ⟨hroom, fun hne => absurd rfl hne⟩
      · cases h
  | opArrInsert =>
      unfold operate at h
      simp only at h
      split at h
      · rename_i helem _
        injection h with h
        rw [← h]
        refine ⟨hroom, fun _ hnone => ?_⟩
        rw [element_of_none hnone] at helem
        cases helem
      · cases h
  | opArrRead =>
      unfold operate at h
      simp only at h
      split at h
      · injection h with h
        rw [← h]
        exact ⟨hroom, fun _ hnone => hnone⟩
      · cases h
  | opEnd =>
      exact hsame (hshown (f := fun text => { s with running := false, out := s.out ++ text })
        (fun _ => ⟨rfl, rfl⟩) h)
  | opDebugReturn =>
      exact hsame (hshown (f := fun text => { s with out := s.out ++ text })
        (fun _ => ⟨rfl, rfl⟩) h)
  | opLoad64 | opJe | opJne | opJl | opJg | opCall | opMov => cases h

/-- **So does every line.** -/
theorem execute_kept {p : Program} {l : SourceLine} (h : s.execute p fpu l = .ok s')
    (hroom : s.sp ≤ STACK_SIZE) :
    s'.sp ≤ STACK_SIZE ∧ (l.said.opcode ≠ .opArrInit → s.arrays = [] → s'.arrays = []) := by
  obtain ⟨said, label⟩ := l
  unfold execute at h
  cases said with
  | regs op rs => exact operate_kept (s := s.next) h hroom
  | load dst literal =>
      obtain ⟨-, rfl⟩ := guarded_eq_ok h
      exact ⟨hroom, fun _ hnone => hnone⟩
  | branch op name =>
      simp only at h
      split at h
      · split at h
        · injection h with h
          rw [← h]
          exact ⟨hroom, fun _ hnone => hnone⟩
        · cases h
      · injection h with h
        rw [← h]
        exact ⟨hroom, fun _ hnone => hnone⟩
  | call i =>
      simp only at h
      split at h
      · obtain ⟨hlt, rfl⟩ := guarded_eq_ok h
        exact ⟨hlt, fun _ hnone => hnone⟩
      · cases h
  | mov dst src flag =>
      obtain ⟨-, rfl⟩ := guarded_eq_ok h
      exact ⟨hroom, fun _ hnone => hnone⟩

end SourceVM

end SproutLang.Assembler
