/-
  SproutLang.Assembler.Meaning
  ────────────────────────────
  **WHAT A LISTING OF INTEGER INSTRUCTIONS MEANS.**

  Loads of integers, the four operators, comparisons, branches and `end`, read
  over unbounded integers: a register is known by a number it agrees with
  modulo `2^48`.  `At` places the machine in front of a line of the listing
  with what is known there, and the rules lead it on:

    • `leads_gives`   — over lines that control falls through,
    • `leads_jump`    — over a branch that is taken, to the line of its label,
    • `leads_fall`    — over one that is not,
    • `leads_again`   — over the test of a counting loop, back to its label,
    • `leads_leave`   — or out of the loop,
    • `leads_halt`    — to the end, where the register is printed.
-/
import SproutLang.Assembler.Ascii
import SproutLang.Assembler.Listing
import SproutLang.Assembler.Literals
import SproutLang.VM.TypedRuns

namespace SproutLang.Assembler

open Library

/-! ## §1. Lines and what is known. -/

/-- A line of an integer program. -/
inductive Line where
  | label (name : Str)
  | load (dst : Nat) (n : Int)
  | arith (op : Arith) (dst a b : Nat)
  | cmp (a b : Nat)
  | jump (op : Opcode) (name : Str)
  | halt (r : Nat)

/-- The opcode of an operator. -/
def arithOpcode : Arith → Opcode
  | .add => .opAdd
  | .sub => .opSub
  | .mul => .opMul
  | .div => .opDiv

/-- The line as the assembler reads it. -/
def Line.item : Line → Item
  | .label name => .label name
  | .load dst n => .instr (.load dst (encode_int48 n))
  | .arith op dst a b => .instr (.regs (arithOpcode op) [dst, a, b])
  | .cmp a b => .instr (.regs .opCmp [a, b])
  | .jump op name => .instr (.branch op name)
  | .halt r => .instr (.regs .opEnd [r])

/-- The number a 48-bit integer stands for. -/
def signed48 (n : Int) : Int := Int.bmod n (2 ^ 48)

/-- **What is known**: the numbers of registers, the latest first, and what
the last comparison found. -/
structure Known where
  regs : List (Byte × Int)
  last : Option Relation

/-- The result of an operator: exact, a quotient apart. -/
def resultOf : Arith → Int → Int → Option Int
  | .add, x, y => some (x + y)
  | .sub, x, y => some (x - y)
  | .mul, x, y => some (x * y)
  | .div, x, y => if signed48 y = 0 then none else some (Int.tdiv (signed48 x) (signed48 y))

/-- How two integers compare. -/
def relationOf (x y : Int) : Relation :=
  if x = y then .equal else if x < y then .less else .greater

namespace Known

/-- The integer known to be in a register. -/
def get (K : Known) (r : Nat) : Option Int := K.regs.lookup (BitVec.ofNat 8 r)

/-- A register holds an integer from now on. -/
def set (K : Known) (r : Nat) (v : Int) : Known :=
  { K with regs := (BitVec.ofNat 8 r, v) :: K.regs }

/-- Two numbers are compared. -/
def compared (K : Known) (x y : Int) : Known :=
  { K with last := some (relationOf (signed48 x) (signed48 y)) }

/-- What is known behind a line that control falls through. -/
def after (K : Known) : Line → Option Known
  | .label _ => some K
  | .load dst n => some (K.set dst n)
  | .arith op dst a b => do
      let x ← K.get a
      let y ← K.get b
      let v ← resultOf op x y
      return K.set dst v
  | .cmp a b => do
      let x ← K.get a
      let y ← K.get b
      return K.compared x y
  | .jump _ _ | .halt _ => none

/-- Behind several of them. -/
def through (K : Known) : List Line → Option Known
  | [] => some K
  | line :: lines => (K.after line).bind fun K' => K'.through lines

/-- These registers are known. -/
def Has (K : Known) : List (Byte × Int) → Prop
  | [] => True
  | p :: ps => K.regs.lookup p.1 = some p.2 ∧ K.Has ps

/-- Behind a list of lines at least this is known. -/
def Gives (K : Known) (lines : List Line) (K' : Known) : Prop :=
  ∃ K₁, K.through lines = some K₁ ∧ K₁.Has K'.regs ∧ (K'.last = none ∨ K'.last = K₁.last)

/-- **The machine is as it is known to be.** -/
structure Holds (K : Known) (m : TypedVM) : Prop where
  regs : ∀ r v, K.regs.lookup r = some v → m.reg r = .int (Int48.reduce v)
  last : ∀ relation, K.last = some relation → m.last = some relation

section Holds

variable {K K' : Known} {m : TypedVM} {r : Nat} {v : Int}

/-- What is known to be in a register can be looked up. -/
theorem Has.lookup {ps : List (Byte × Int)} (h : K.Has ps) {b : Byte}
    (hb : ps.lookup b = some v) : K.regs.lookup b = some v := by
  induction ps with
  | nil => cases hb
  | cons p ps ih =>
      rw [List.lookup_cons] at hb
      split at hb
      · rename_i heq
        rw [eq_of_beq heq, ← hb]
        exact h.1
      · exact ih h.2 hb

/-- What is known may be forgotten. -/
theorem Holds.forget (h : K.Holds m) (hregs : K.Has K'.regs)
    (hlast : K'.last = none ∨ K'.last = K.last) : K'.Holds m where
  regs b v hb := h.regs b v (hregs.lookup hb)
  last relation hrelation := by
    rcases hlast with hnone | hsame
    · rw [hnone] at hrelation
      cases hrelation
    · exact h.last relation (hsame ▸ hrelation)

/-- A register known to hold an integer holds it. -/
theorem Holds.get (h : K.Holds m) (hr : K.get r = some v) :
    m.reg (BitVec.ofNat 8 r) = .int (Int48.reduce v) := h.regs _ v hr

/-- A register is written. -/
theorem Holds.set (h : K.Holds m) (r : Nat) (v : Int) :
    (K.set r v).Holds (m.setReg (BitVec.ofNat 8 r) (.int (Int48.reduce v))) where
  regs b u hb := by
    unfold Known.set at hb
    rw [List.lookup_cons] at hb
    unfold TypedVM.setReg
    show Function.update m.reg (BitVec.ofNat 8 r) _ b = _
    -- the register itself, or another one
    split at hb
    · rename_i heq
      injection hb with hb
      rw [eq_of_beq heq, Function.update_self, hb]
    · rename_i hne
      rw [Function.update_of_ne (ne_of_beq_false hne)]
      exact h.regs b u hb
  last := h.last

/-- A jump changes nothing of what is known. -/
theorem Holds.setIp (h : K.Holds m) (ip : Word) : K.Holds { m with ip := ip } := ⟨h.regs, h.last⟩

/-- Two numbers are compared. -/
theorem Holds.compared (h : K.Holds m) (x y : Int) :
    (K.compared x y).Holds { m with last := some (relationOf (signed48 x) (signed48 y)) } where
  regs := h.regs
  last _ hrelation := hrelation

end Holds

end Known

/-! ## §2. Operators on numbers modulo `2^48`. -/

section Values

variable {op : Arith} {x y v : Int}

/-- Small numbers are kept. -/
theorem signed48_small {n : Nat} (h : n < 2 ^ 47) : signed48 n = n := by
  unfold signed48
  apply Int.bmod_eq_of_le <;> omega

/-- Small numbers keep their order in 48 bits. -/
theorem signed48_lt {n l : Nat} (hn : n < l) (hl : l < 2 ^ 47) : signed48 n < signed48 l := by
  rw [signed48_small (Nat.lt_trans hn hl), signed48_small hl]
  exact Int.ofNat_lt.2 hn

/-- Numbers that agree in 48 bits reduce alike. -/
theorem reduce_congr (h : signed48 x = signed48 y) : Int48.reduce x = Int48.reduce y := by
  unfold Int48.reduce
  unfold signed48 at h
  simp only [h]

/-- **The typed operators compute the results.** -/
theorem arith_reduce (h : resultOf op x y = some v) :
    (Value.int (Int48.reduce x)).arith op (.int (Int48.reduce y)) = .ok (.int (Int48.reduce v)) := by
  -- the operands may be reduced first
  have hexact : ∀ {n : Int}, signed48 (op.exact (signed48 x) (signed48 y)) = signed48 n →
      ¬ (op = .div ∧ signed48 y = 0) →
      (Value.int (Int48.reduce x)).arith op (.int (Int48.reduce y)) = .ok (.int (Int48.reduce n)) := by
    intro n hn hdiv
    refine (if_neg hdiv).trans ?_
    rw [← reduce_congr hn]
    rfl
  unfold resultOf at h
  cases op with
  | add =>
      injection h with h
      subst h
      refine hexact ?_ (by simp)
      show Int.bmod (Int.bmod x (2 ^ 48) + Int.bmod y (2 ^ 48)) (2 ^ 48) = Int.bmod (x + y) (2 ^ 48)
      rw [Int.bmod_add_bmod, Int.add_bmod_bmod]
  | sub =>
      injection h with h
      subst h
      refine hexact ?_ (by simp)
      show Int.bmod (Int.bmod x (2 ^ 48) - Int.bmod y (2 ^ 48)) (2 ^ 48) = Int.bmod (x - y) (2 ^ 48)
      rw [Int.bmod_sub_bmod, Int.sub_bmod_bmod]
  | mul =>
      injection h with h
      subst h
      refine hexact ?_ (by simp)
      show Int.bmod (Int.bmod x (2 ^ 48) * Int.bmod y (2 ^ 48)) (2 ^ 48) = Int.bmod (x * y) (2 ^ 48)
      rw [Int.bmod_mul_bmod, Int.mul_bmod_bmod]
  -- a quotient is taken of the reduced numbers
  | div =>
      simp only at h
      split at h
      · cases h
      · rename_i hzero
        injection h with h
        subst h
        exact hexact rfl fun hdiv => hzero hdiv.2

/-- Two reduced integers compare as in 48 bits. -/
theorem compare_reduce (x y : Int) :
    (Value.int (Int48.reduce x)).compare (.int (Int48.reduce y))
      = .ok (relationOf (signed48 x) (signed48 y)) := by
  show (if signed48 x = signed48 y then Except.ok Relation.equal
    else if signed48 x < signed48 y then .ok .less else .ok .greater) = _
  unfold relationOf
  split
  · rfl
  · split <;> rfl

/-- `je` is for equal numbers. -/
theorem taken_je (x y : Int) : taken (some (relationOf x y)) .opJe = decide (x = y) := by
  show decide (some (relationOf x y) = some Relation.equal) = _
  apply decide_eq_decide.2
  unfold relationOf
  split
  · rename_i heq
    exact iff_of_true rfl heq
  · rename_i hne
    split <;> exact iff_of_false (by simp) hne

/-- `jne` is for all others. -/
theorem taken_jne (x y : Int) : taken (some (relationOf x y)) .opJne = !decide (x = y) := by
  rw [← taken_je]
  exact decide_not

/-- A literal is the integer it is written as. -/
theorem ofWord_literal (n : Int) :
    Value.ofWord (BitVec.ofNat 64 (encode_int48 n)) = .int (Int48.reduce n) := by
  obtain ⟨hint, hdecode⟩ := held_int n
  rw [Value.ofWord_of_isInt hint]
  unfold Int48.ofWord Int48.reduce
  simp only [hdecode]

end Values

/-! ## §3. In front of a line. -/

/-- The items of a listing. -/
def itemsIn (lines : List Line) : List Item := lines.map Line.item

/-- **In front of line `k`**, running, with nothing printed yet. -/
structure At (lines : List Line) (bytes : List Byte) (k : Nat) (K : Known) (m : TypedVM) : Prop where
  code : m.code.bytes = bytes
  ip : m.ip.toNat = CODE_START + offsetOf (itemsIn lines) k
  running : m.running = true
  out : m.out = []
  holds : K.Holds m

/-- Stopped, with one number printed. -/
structure Printed (v : Int) (m : TypedVM) : Prop where
  stopped : m.running = false
  out : m.out = [.int v]

section Rules

variable {lines : List Line} {bytes : List Byte} {k t : Nat} {K K' : Known} {line : Line}
  {m : TypedVM}

/-- The items of a listing are its lines, one by one. -/
theorem getElem_items (hk : lines[k]? = some line) : (itemsIn lines)[k]? = some line.item := by
  unfold itemsIn
  rw [List.getElem?_map, hk]
  rfl

/-- The instruction in front of which the machine is. -/
theorem At.instr (h : At lines bytes k K m) (himage : ListingImage (itemsIn lines) bytes)
    {s : SourceInstr} (hk : (itemsIn lines)[k]? = some (.instr s)) (hflag : s.FlagFits) :
    instrAt m.code.bytes m.ip.toNat = some (s.instr (addressOf (itemsIn lines))) := by
  rw [h.code, h.ip]
  exact himage.instrAt hk hflag

/-- What is known may be forgotten. -/
theorem At.forget (h : At lines bytes k K m) (hregs : K.Has K'.regs)
    (hlast : K'.last = none ∨ K'.last = K.last) : At lines bytes k K' m :=
  ⟨h.code, h.ip, h.running, h.out, h.holds.forget hregs hlast⟩

/-- So may the last comparison. -/
theorem At.forgetLast {x y : Int} (h : At lines bytes k (K.compared x y) m)
    (hlast : K.last = none) : At lines bytes k K m := by
  refine ⟨h.code, h.ip, h.running, h.out, h.holds.regs, ?_⟩
  intro relation hrelation
  rw [hlast] at hrelation
  cases hrelation

/-- The next line stands behind this one. -/
theorem offset_next (hk : lines[k]? = some line) :
    CODE_START + offsetOf (itemsIn lines) (k + 1)
      = CODE_START + offsetOf (itemsIn lines) k + line.item.width := by
  rw [offsetOf_succ (getElem_items hk), Nat.add_assoc]

/-- **A line that control falls through.** -/
theorem leads_after (himage : ListingImage (itemsIn lines) bytes) (hk : lines[k]? = some line)
    (hafter : K.after line = some K') :
    Leads TypedVM.Goes (At lines bytes k K) (At lines bytes (k + 1) K') := by
  have hitem := getElem_items hk
  have hoffset := offset_next hk
  cases line with
  | label name =>
      -- a label takes no bytes, the machine is in front of the next line already
      injection hafter with hafter
      subst hafter
      apply Leads.of_imp
      intro m h
      exact ⟨h.code, h.ip.trans hoffset.symm, h.running, h.out, h.holds⟩
  | load dst n =>
      injection hafter with hafter
      subst hafter
      apply Leads.of_step
      intro m h
      have hinstr := h.instr himage hitem trivial
      obtain ⟨hi, lo, hhi, hlo, hword, hip⟩ := TypedVM.wordAt_immediate hinstr rfl rfl
      refine ⟨{ m with ip := m.ip + 4 + 4 + 4 }.setReg (BitVec.ofNat 8 dst) (.int (Int48.reduce n)),
        ⟨h.running, ?_⟩, h.code, ?_, h.running, h.out, (h.holds.setIp _).set dst n⟩
      · rw [TypedVM.step_of_instrAt hinstr, ← ofWord_literal n, ← hword]
        exact (except_bind_ok hhi).trans (except_bind_ok hlo)
      · show (m.ip + 4 + 4 + 4).toNat = _
        rw [hip, h.ip, hoffset]
        rfl
  | arith op dst a b =>
      obtain ⟨x, hx, hafter⟩ := Option.bind_eq_some_iff.1 hafter
      obtain ⟨y, hy, hafter⟩ := Option.bind_eq_some_iff.1 hafter
      obtain ⟨v, hv, hafter⟩ := Option.bind_eq_some_iff.1 hafter
      injection hafter with hafter
      subst hafter
      apply Leads.of_step
      intro m h
      have hinstr := h.instr himage hitem trivial
      have hip := TypedVM.toNat_next hinstr
      refine ⟨{ m with ip := m.ip + 4 }.setReg (BitVec.ofNat 8 dst) (.int (Int48.reduce v)),
        ⟨h.running, ?_⟩, h.code, ?_, h.running, h.out, (h.holds.setIp _).set dst v⟩
      · have hvalue : (m.reg (BitVec.ofNat 8 a)).arith op (m.reg (BitVec.ofNat 8 b))
            = .ok (.int (Int48.reduce v)) := by
          rw [h.holds.get hx, h.holds.get hy]
          exact arith_reduce hv
        rw [TypedVM.step_of_instrAt hinstr]
        cases op with
        | add | sub | mul | div => exact except_bind_ok hvalue
      · show (m.ip + 4).toNat = _
        rw [hip, h.ip, hoffset]
        rfl
  | cmp a b =>
      obtain ⟨x, hx, hafter⟩ := Option.bind_eq_some_iff.1 hafter
      obtain ⟨y, hy, hafter⟩ := Option.bind_eq_some_iff.1 hafter
      injection hafter with hafter
      subst hafter
      apply Leads.of_step
      intro m h
      have hinstr := h.instr himage hitem trivial
      have hip := TypedVM.toNat_next hinstr
      refine ⟨{ m with ip := m.ip + 4, last := some (relationOf (signed48 x) (signed48 y)) },
        ⟨h.running, ?_⟩, h.code, ?_, h.running, h.out,
        (h.holds.setIp (m.ip + 4)).compared x y⟩
      · have hvalue : (m.reg (BitVec.ofNat 8 a)).compare (m.reg (BitVec.ofNat 8 b))
            = .ok (relationOf (signed48 x) (signed48 y)) := by
          rw [h.holds.get hx, h.holds.get hy]
          exact compare_reduce x y
        rw [TypedVM.step_of_instrAt hinstr]
        exact except_bind_ok hvalue
      · show (m.ip + 4).toNat = _
        rw [hip, h.ip, hoffset]
        rfl
  | jump op name => cases hafter
  | halt r => cases hafter

/-- **Several such lines.** -/
theorem leads_through (himage : ListingImage (itemsIn lines) bytes) (n : Nat)
    (hthrough : K.through ((lines.drop k).take n) = some K') :
    Leads TypedVM.Goes (At lines bytes k K) (At lines bytes (k + n) K') := by
  induction n generalizing k K with
  | zero =>
      injection hthrough with hthrough
      subst hthrough
      exact Leads.of_imp fun m h => h
  | succ n ih =>
      cases hk : lines[k]? with
      | none =>
          -- behind the last line there is nothing to do
          have hlen := List.getElem?_eq_none_iff.1 hk
          rw [List.drop_eq_nil_of_le hlen, List.take_nil] at hthrough
          injection hthrough with hthrough
          subst hthrough
          apply Leads.of_imp
          intro m h
          refine ⟨h.code, ?_, h.running, h.out, h.holds⟩
          have hall : ∀ j, lines.length ≤ j →
              offsetOf (itemsIn lines) j = offsetOf (itemsIn lines) lines.length := by
            intro j hj
            unfold offsetOf itemsIn
            rw [List.take_of_length_le (by rw [List.length_map]; exact hj),
              List.take_of_length_le (by rw [List.length_map])]
          rw [h.ip, hall k hlen, hall (k + (n + 1)) (by omega)]
      | some line =>
          obtain ⟨hlt, hget⟩ := List.getElem?_eq_some_iff.1 hk
          rw [List.drop_eq_getElem_cons hlt, hget, List.take_succ_cons] at hthrough
          obtain ⟨K₁, hafter, hrest⟩ := Option.bind_eq_some_iff.1 hthrough
          have hnext := ih hrest
          rw [show k + 1 + n = k + (n + 1) by omega] at hnext
          exact (leads_after himage hk hafter).trans hnext

/-- And what is remembered behind them. -/
theorem leads_gives (himage : ListingImage (itemsIn lines) bytes) (n : Nat)
    (hgives : K.Gives ((lines.drop k).take n) K') :
    Leads TypedVM.Goes (At lines bytes k K) (At lines bytes (k + n) K') := by
  obtain ⟨K₁, hthrough, hregs, hlast⟩ := hgives
  exact (leads_through himage n hthrough).mono (fun m h => h) fun m h => h.forget hregs hlast

/-- A branch in a listing has the opcode of one. -/
theorem isBranch_of_jump (himage : ListingImage (itemsIn lines) bytes) {op : Opcode} {name : Str}
    (hk : lines[k]? = some (.jump op name)) : op.isBranch = true := by
  apply himage.checked (.branch op name)
  exact List.mem_filterMap.2 ⟨_, List.mem_of_getElem? (getElem_items hk), rfl⟩

/-- **A branch that is taken** goes to the line of its label. -/
theorem leads_jump (himage : ListingImage (itemsIn lines) bytes)
    (hlink : ItemsLink (itemsIn lines)) {op : Opcode} {name : Str} {relation : Relation}
    (hk : lines[k]? = some (.jump op name)) (ht : lines[t]? = some (.label name))
    (hlast : K.last = some relation) (htaken : taken (some relation) op = true) :
    Leads TypedVM.Goes (At lines bytes k K) (At lines bytes t K) := by
  apply Leads.of_step
  intro m h
  have hitem := getElem_items hk
  have hinstr := h.instr himage hitem trivial
  have hbranch := isBranch_of_jump himage hk
  obtain ⟨hword, -⟩ := TypedVM.wordAt_target hinstr hbranch rfl
  -- the target is the address of the label
  refine ⟨{ m with ip := (BitVec.ofNat 32 (addressOf (itemsIn lines) name)).setWidth 64 },
    ⟨h.running, ?_⟩, h.code, ?_, h.running, h.out, h.holds.setIp _⟩
  · have hjump : TypedVM.branch { m with ip := m.ip + 4 } op
        = .ok { m with ip := (BitVec.ofNat 32 (addressOf (itemsIn lines) name)).setWidth 64 } := by
      unfold TypedVM.branch
      rw [h.holds.last relation hlast, htaken, if_pos rfl]
      exact except_bind_ok hword
    rw [TypedVM.step_of_instrAt hinstr]
    cases op with
    | opJe | opJne | opJl | opJg => exact hjump
    | _ => cases hbranch
  · have hle := offsetOf_le (itemsIn lines) t
    have hsmall := hlink.small
    show ((BitVec.ofNat 32 (addressOf (itemsIn lines) name)).setWidth 64).toNat = _
    rw [hlink.address (getElem_items ht), BitVec.toNat_setWidth, BitVec.toNat_ofNat]
    omega

/-- **A branch that is not taken.** -/
theorem leads_fall (himage : ListingImage (itemsIn lines) bytes) {op : Opcode} {name : Str}
    {relation : Relation} (hk : lines[k]? = some (.jump op name)) (hlast : K.last = some relation)
    (htaken : taken (some relation) op = false) :
    Leads TypedVM.Goes (At lines bytes k K) (At lines bytes (k + 1) K) := by
  apply Leads.of_step
  intro m h
  have hitem := getElem_items hk
  have hoffset := offset_next hk
  have hinstr := h.instr himage hitem trivial
  have hbranch := isBranch_of_jump himage hk
  obtain ⟨-, hip⟩ := TypedVM.wordAt_target hinstr hbranch rfl
  refine ⟨{ m with ip := m.ip + 4 + 4 }, ⟨h.running, ?_⟩, h.code, ?_, h.running, h.out,
    h.holds.setIp _⟩
  · have hpass : TypedVM.branch { m with ip := m.ip + 4 } op = .ok { m with ip := m.ip + 4 + 4 } := by
      unfold TypedVM.branch
      rw [h.holds.last relation hlast, htaken, if_neg Bool.false_ne_true]
      rfl
    rw [TypedVM.step_of_instrAt hinstr]
    cases op with
    | opJe | opJne | opJl | opJg => exact hpass
    | _ => cases hbranch
  · show (m.ip + 4 + 4).toNat = _
    rw [hip, h.ip, hoffset]
    rfl

/-- **The test of a counting loop**, `jl` behind a comparison, and what is
remembered of it. -/
theorem leads_again (himage : ListingImage (itemsIn lines) bytes)
    (hlink : ItemsLink (itemsIn lines)) {name : Str} {x y : Int}
    (hk : lines[k]? = some (.jump .opJl name)) (ht : lines[t]? = some (.label name))
    (hlast : K.last = none) (hless : signed48 x < signed48 y) :
    Leads TypedVM.Goes (At lines bytes k (K.compared x y)) (At lines bytes t K) := by
  have hrelation : relationOf (signed48 x) (signed48 y) = .less := by
    unfold relationOf
    rw [if_neg hless.ne, if_pos hless]
  have hjump : (K.compared x y).last = some .less := congrArg some hrelation
  exact (leads_jump himage hlink hk ht hjump rfl).mono (fun m h => h) fun m h => h.forgetLast hlast

/-- A `jl` on equal integers goes to the next line. -/
theorem leads_leave (himage : ListingImage (itemsIn lines) bytes) {name : Str} {x y : Int}
    (hk : lines[k]? = some (.jump .opJl name)) (hlast : K.last = none)
    (hequal : signed48 x = signed48 y) :
    Leads TypedVM.Goes (At lines bytes k (K.compared x y)) (At lines bytes (k + 1) K) := by
  have hrelation : relationOf (signed48 x) (signed48 y) = .equal := if_pos hequal
  have hfall : (K.compared x y).last = some .equal := congrArg some hrelation
  exact (leads_fall himage hk hfall rfl).mono (fun m h => h) fun m h => h.forgetLast hlast

/-- **`end`** prints the register and stops. -/
theorem leads_halt (himage : ListingImage (itemsIn lines) bytes) {r : Nat} {v : Int}
    (hk : lines[k]? = some (.halt r)) (hv : K.get r = some v) :
    Leads TypedVM.Goes (At lines bytes k K) (Printed (signed48 v)) := by
  apply Leads.of_step
  intro m h
  have hinstr := h.instr himage (getElem_items hk) trivial
  refine ⟨{ m with
      ip := m.ip + 4
      running := false
      out := m.out ++ (m.reg (BitVec.ofNat 8 r)).printed }, ⟨h.running, ?_⟩, rfl, ?_⟩
  · rw [TypedVM.step_of_instrAt hinstr]
    rfl
  · show m.out ++ (m.reg (BitVec.ofNat 8 r)).printed = _
    rw [h.out, h.holds.get hv]
    rfl

end Rules

/-! ## §4. What a program prints. -/

/-- **A text prints a number**: it assembles, `init` loads the image, and the
loop of `run` ends behind an `end` that printed the number and nothing else. -/
def Prints (py : Python) (allocator : Allocator) (fpu : Fpu) (text : Str) (v : Int) : Prop :=
  ∃ file : Image, assemble py text = .ok file.bytes ∧
    ∃ vm₀ rounds vm, init (VM.zeroed file allocator fpu) = .ok () vm₀ ∧
      run rounds vm₀ = .ok true vm ∧ vm.out = [.int v]

/-- **What the listing leads to is printed.** -/
theorem prints_of_leads {lines : List Line} {text : Str} {v : Int} (py : Python)
    (allocator : Allocator) (fpu : Fpu)
    (hfunc : OneFunction Python.ascii (itemsIn lines) (readlines text))
    (hascii : AsciiLines (readlines text)) (hlink : ItemsLink (itemsIn lines))
    (hleads : ∀ bytes, ListingImage (itemsIn lines) bytes →
      Leads TypedVM.Goes (At lines bytes 0 ⟨[], none⟩) (Printed v)) :
    Prints py allocator fpu text v := by
  obtain ⟨bytes, hassemble, himage⟩ := assemble_listing hfunc hlink
  have hsmall : bytes.length < 2 ^ 48 := by
    have := himage.small
    omega
  obtain ⟨vm₀, hinit, hip⟩ := himage.loads ⟨bytes, hsmall⟩ allocator fpu rfl
  have hstart := Refines.start hinit
  -- nothing is known of the registers at the start
  have hat : At lines bytes 0 ⟨[], none⟩ (TypedVM.start ⟨bytes, hsmall⟩ vm₀.header.codeOffset) := by
    refine ⟨rfl, ?_, rfl, rfl, fun r v h => absurd h (by simp), fun relation h => ?_⟩
    · rw [hstart.ip, hip]
      rfl
    · cases h
  -- the typed run, and the run of the VM that it stands for
  obtain ⟨m, hruns, hprinted⟩ := hleads bytes himage _ hat
  obtain ⟨rounds, vm, hrun, hrefines⟩ := run_of_typed hstart hruns hprinted.stopped
  refine ⟨⟨bytes, hsmall⟩, assemble_ascii py hascii hassemble, vm₀, rounds, vm, hinit, hrun, ?_⟩
  rw [← hrefines.out]
  exact hprinted.out

end SproutLang.Assembler
