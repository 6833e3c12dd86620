/-
  SproutLang.Programs.Collatz
  ───────────────────────────
  **THE STEP COUNTER, FOR EVERY START.**

  `collatz.asm` follows the Collatz sequence of a number until it is `1`.  One
  round of its loop goes from a value to the next one: parity is tested by a
  division and a multiplication, and the odd branch jumps back on what that
  test has left behind.

  Main result: `collatz_prints`.
-/
import SproutLang.Programs.Template
import Mathlib.Data.Finset.Card
import Mathlib.Logic.Function.Iterate

namespace SproutLang.Programs

open Library Assembler

/-! ## §1. The file. -/

/-- `tests/asm_source/collatz.asm`, the start left open. -/
def collatz : Template where
  comment := [
    "; =============================================================================",
    "; collatz.asm — Collatz sequence step counter",
    "; =============================================================================",
    "; Starting from n = 27 (known to take 111 steps), count steps to reach 1.",
    ";",
    "; Algorithm:",
    ";   while n != 1:",
    ";     if n is even: n = n / 2",
    ";     else:         n = 3n + 1",
    ";     steps++",
    ";",
    "; Even/odd detection without modulo:",
    ";   (n / 2) * 2 == n  →  n is even",
    ";",
    "; No unconditional jump instruction, so we use: cmp rX, rX; je @target",
    ";",
    "; Expected output: 111",
    "; =============================================================================",
    ""]
  before := [
    ""]
  front := "    load r0,"
  tail := "         ; n"
  after := [
    "    load r1, 0          ; steps counter",
    "    load r2, 1          ; constant 1",
    "    load r3, 2          ; constant 2",
    "    load r4, 3          ; constant 3",
    "",
    "loop:",
    "    ; if n == 1, we're done",
    "    cmp  r0, r2",
    "    je   @done",
    "",
    "    ; steps++",
    "    add  r1, r1, r2",
    "",
    "    ; --- even/odd check ---",
    "    div  r5, r0, r3     ; r5 = n / 2  (truncating integer div)",
    "    mul  r6, r5, r3     ; r6 = (n / 2) * 2",
    "    cmp  r6, r0         ; r6 == n  →  even",
    "    je   @is_even",
    "",
    "    ; --- ODD: n = 3n + 1 ---",
    "    mul  r0, r0, r4",
    "    add  r0, r0, r2",
    "    ; jmpFlag still != 1 (from the cmp that found odd), so jne fires",
    "    jne  @loop",
    "",
    "is_even:",
    "    ; --- EVEN: n = n / 2 ---",
    "    div  r0, r0, r3",
    "    ; unconditional jump back to loop",
    "    cmp  r2, r2         ; force EQ",
    "    je   @loop",
    "",
    "done:",
    "    end  r1             ; prints step count (111)",
    ""]

namespace Collatz

/-- Nothing stands in front of the constant. -/
def before : List Line := []

/-- The lines behind it. -/
def after : List Line :=
  [.load 1 0,
   .load 2 1,
   .load 3 2,
   .load 4 3,
   .label "loop".toList,
   .cmp 0 2,
   .jump .opJe "done".toList,
   .arith .add 1 1 2,
   .arith .div 5 0 3,
   .arith .mul 6 5 3,
   .cmp 6 0,
   .jump .opJe "is_even".toList,
   .arith .mul 0 0 4,
   .arith .add 0 0 2,
   .jump .opJne "loop".toList,
   .label "is_even".toList,
   .arith .div 0 0 3,
   .cmp 2 2,
   .jump .opJe "loop".toList,
   .label "done".toList,
   .halt 1]

/-- The listing, with the start. -/
def listing (n : Nat) : List Line := before ++ .load 0 n :: after

set_option maxRecDepth 4000 in
/-- How the file reads. -/
theorem reads : collatz.Reads "r0".toList 0 before after := by
  apply Template.Reads.of_chars
  case hcomment | hfront | hback =>
    repeat
      apply List.Forall₂.cons
      · rfl
    exact List.Forall₂.nil
  all_goals decide +kernel

/-- Its labels are there, each once. -/
theorem link (n : Nat) : ItemsLink (itemsIn (listing n)) where
  once := by
    show ["loop".toList, "is_even".toList, "done".toList].Nodup
    simp
  named := by
    show ∀ name ∈ ["done".toList, "is_even".toList, "loop".toList, "loop".toList],
      name ∈ ["loop".toList, "is_even".toList, "done".toList]
    simp
  small := by
    show CODE_START + 132 < 2 ^ 32
    decide

/-! ## §2. The sequence. -/

/-- The next value. -/
def next (x : Nat) : Nat := if x % 2 = 0 then x / 2 else 3 * x + 1

/-- A sequence that is at `1` for the first time after `k` steps has `k`
values before. -/
theorem steps_lt {n k bound : Nat} (hreach : next^[k] n = 1) (hfirst : ∀ i < k, next^[i] n ≠ 1)
    (hsmall : ∀ i ≤ k, next^[i] n < bound) : k < bound := by
  have hinj : ∀ i j, i < j → j ≤ k → next^[i] n ≠ next^[j] n := by
    intro i j hij hj heq
    -- a value met twice brings the end forward
    have hshift : next^[k - j + i] n = next^[k] n := by
      rw [Function.iterate_add_apply, heq, ← Function.iterate_add_apply, Nat.sub_add_cancel hj]
    exact hfirst (k - j + i) (by omega) (hshift.trans hreach)
  have hcard : (Finset.range (k + 1)).card ≤ (Finset.range bound).card := by
    apply Finset.card_le_card_of_injOn (fun i => next^[i] n)
    · intro i hi
      exact Finset.mem_coe.2 (Finset.mem_range.2 (hsmall i (Finset.mem_range_succ_iff.1 hi)))
    · intro i hi j hj heq
      have hik := Finset.mem_range_succ_iff.1 hi
      have hjk := Finset.mem_range_succ_iff.1 hj
      rcases Nat.lt_trichotomy i j with hlt | hsame | hgt
      · exact absurd heq (hinj i j hlt hjk)
      · exact hsame
      · exact absurd heq.symm (hinj j i hgt hik)
  rw [Finset.card_range, Finset.card_range] at hcard
  exact hcard

/-! ## §3. The loop. -/

/-- In front of `loop`, behind `i` steps. -/
def atLoop (x i : Nat) : Known := ⟨[(0, x), (1, i), (2, 1), (3, 2), (4, 3)], none⟩

/-- Half of a value. -/
theorem half {x : Nat} (hx : x < 2 ^ 47) :
    Int.tdiv (signed48 x) (signed48 (2 : Nat)) = (x / 2 : Nat) := by
  rw [signed48_small hx, signed48_small (by decide)]
  rfl

section Loop

variable {n x i : Nat} {bytes : List Byte}

/-- **To the test of parity**, from a value that is not the end. -/
theorem to_parity (himage : ListingImage (itemsIn (listing n)) bytes) (hx : x < 2 ^ 47)
    (hne : x ≠ 1) :
    Leads TypedVM.Goes (At (listing n) bytes 5 (atLoop x i))
      (At (listing n) bytes 12 ((atLoop x (i + 1)).compared (x / 2 * 2 : Nat) x)) := by
  have htest : Leads TypedVM.Goes (At (listing n) bytes 5 (atLoop x i))
      (At (listing n) bytes 7 ((atLoop x i).compared x (1 : Nat))) := by
    apply leads_gives himage 2
    exact ⟨_, rfl, ⟨rfl, rfl, rfl, rfl, rfl, trivial⟩, Or.inr rfl⟩
  have hpass : Leads TypedVM.Goes (At (listing n) bytes 7 ((atLoop x i).compared x (1 : Nat)))
      (At (listing n) bytes 8 ((atLoop x i).compared x (1 : Nat))) := by
    apply leads_fall himage rfl rfl
    rw [taken_je, signed48_small hx, signed48_small (by decide)]
    exact decide_eq_false fun heq => hne (Int.ofNat_inj.1 heq)
  have hparity : Leads TypedVM.Goes (At (listing n) bytes 8 ((atLoop x i).compared x (1 : Nat)))
      (At (listing n) bytes 12 ((atLoop x (i + 1)).compared (x / 2 * 2 : Nat) x)) := by
    apply leads_gives himage 4
    have hdouble : Int.tdiv (signed48 x) (signed48 (2 : Nat)) * 2 = (x / 2 * 2 : Nat) := by
      rw [half hx]
      rfl
    refine ⟨_, rfl, ⟨rfl, rfl, rfl, rfl, rfl, trivial⟩, Or.inr ?_⟩
    rw [← hdouble]
    rfl
  exact (htest.trans hpass).trans hparity

/-- The test tells the even values from the odd ones. -/
theorem parity_iff (hx : x < 2 ^ 47) :
    signed48 (x / 2 * 2 : Nat) = signed48 x ↔ x % 2 = 0 := by
  rw [signed48_small hx, signed48_small (by omega), Int.ofNat_inj]
  omega

/-- **The branch for even values** halves and jumps back. -/
theorem even_round (himage : ListingImage (itemsIn (listing n)) bytes) (hx : x < 2 ^ 47)
    (heven : x % 2 = 0) :
    Leads TypedVM.Goes (At (listing n) bytes 12 ((atLoop x i).compared (x / 2 * 2 : Nat) x))
      (At (listing n) bytes 5 (atLoop (x / 2) i)) := by
  have hjump : Leads TypedVM.Goes
      (At (listing n) bytes 12 ((atLoop x i).compared (x / 2 * 2 : Nat) x))
      (At (listing n) bytes 16 ((atLoop x i).compared (x / 2 * 2 : Nat) x)) := by
    apply leads_jump himage (link n) rfl rfl rfl
    rw [taken_je]
    exact decide_eq_true ((parity_iff hx).2 heven)
  have hhalf : Leads TypedVM.Goes
      (At (listing n) bytes 16 ((atLoop x i).compared (x / 2 * 2 : Nat) x))
      (At (listing n) bytes 19 ((atLoop (x / 2) i).compared 1 1)) := by
    apply leads_gives himage 3
    refine ⟨_, rfl, ⟨congrArg some (half hx), rfl, rfl, rfl, rfl, trivial⟩, Or.inr ?_⟩
    show some (relationOf (signed48 1) (signed48 1)) = _
    rfl
  -- a register compared with itself, a jump without condition
  have hback : Leads TypedVM.Goes (At (listing n) bytes 19 ((atLoop (x / 2) i).compared 1 1))
      (At (listing n) bytes 5 ((atLoop (x / 2) i).compared 1 1)) :=
    leads_jump himage (link n) rfl rfl rfl rfl
  have hround := (hjump.trans hhalf).trans hback
  exact hround.mono (fun m h => h) fun m h => h.forgetLast rfl

/-- **The branch for odd values** jumps back on the test in front of it. -/
theorem odd_round (himage : ListingImage (itemsIn (listing n)) bytes) (hx : x < 2 ^ 47)
    (hodd : x % 2 ≠ 0) :
    Leads TypedVM.Goes (At (listing n) bytes 12 ((atLoop x i).compared (x / 2 * 2 : Nat) x))
      (At (listing n) bytes 5 (atLoop (3 * x + 1) i)) := by
  have hne : ¬ signed48 (x / 2 * 2 : Nat) = signed48 x := fun heq => hodd ((parity_iff hx).1 heq)
  have hpass : Leads TypedVM.Goes
      (At (listing n) bytes 12 ((atLoop x i).compared (x / 2 * 2 : Nat) x))
      (At (listing n) bytes 13 ((atLoop x i).compared (x / 2 * 2 : Nat) x)) := by
    apply leads_fall himage rfl rfl
    rw [taken_je]
    exact decide_eq_false hne
  have hnext : Leads TypedVM.Goes
      (At (listing n) bytes 13 ((atLoop x i).compared (x / 2 * 2 : Nat) x))
      (At (listing n) bytes 15 ((atLoop (3 * x + 1) i).compared (x / 2 * 2 : Nat) x)) := by
    apply leads_gives himage 2
    have hvalue : (x : Int) * 3 + 1 = (3 * x + 1 : Nat) := by
      omega
    exact ⟨_, rfl, ⟨congrArg some hvalue, rfl, rfl, rfl, rfl, trivial⟩, Or.inr rfl⟩
  -- the comparison in front has not been overwritten
  have hback : Leads TypedVM.Goes
      (At (listing n) bytes 15 ((atLoop (3 * x + 1) i).compared (x / 2 * 2 : Nat) x))
      (At (listing n) bytes 5 ((atLoop (3 * x + 1) i).compared (x / 2 * 2 : Nat) x)) := by
    apply leads_jump himage (link n) rfl rfl rfl
    rw [taken_jne, decide_eq_false hne]
    rfl
  have hround := (hpass.trans hnext).trans hback
  exact hround.mono (fun m h => h) fun m h => h.forgetLast rfl

/-- **A round** goes to the next value. -/
theorem round (himage : ListingImage (itemsIn (listing n)) bytes) (hx : x < 2 ^ 47) (hne : x ≠ 1) :
    Leads TypedVM.Goes (At (listing n) bytes 5 (atLoop x i))
      (At (listing n) bytes 5 (atLoop (next x) (i + 1))) := by
  have hparity := to_parity himage hx hne (i := i)
  unfold next
  split
  · rename_i heven
    exact hparity.trans (even_round himage hx heven)
  · rename_i hodd
    exact hparity.trans (odd_round himage hx hodd)

/-- **From the end of the sequence** to the end of the program. -/
theorem leads_done (himage : ListingImage (itemsIn (listing n)) bytes) :
    Leads TypedVM.Goes (At (listing n) bytes 5 (atLoop 1 i)) (Printed (signed48 i)) := by
  have htest : Leads TypedVM.Goes (At (listing n) bytes 5 (atLoop 1 i))
      (At (listing n) bytes 7 ((atLoop 1 i).compared 1 1)) := by
    apply leads_gives himage 2
    exact ⟨_, rfl, ⟨rfl, rfl, rfl, rfl, rfl, trivial⟩, Or.inr rfl⟩
  have hjump : Leads TypedVM.Goes (At (listing n) bytes 7 ((atLoop 1 i).compared 1 1))
      (At (listing n) bytes 20 ((atLoop 1 i).compared 1 1)) :=
    leads_jump himage (link n) rfl rfl rfl rfl
  have hlabel : Leads TypedVM.Goes (At (listing n) bytes 20 ((atLoop 1 i).compared 1 1))
      (At (listing n) bytes 21 (atLoop 1 i)) := by
    apply leads_gives himage 1
    exact ⟨_, rfl, ⟨rfl, rfl, rfl, rfl, rfl, trivial⟩, Or.inl rfl⟩
  exact ((htest.trans hjump).trans hlabel).trans (leads_halt himage rfl rfl)

/-- **The listing prints the number of steps.** -/
theorem leads_steps (himage : ListingImage (itemsIn (listing n)) bytes) {k : Nat}
    (hreach : next^[k] n = 1) (hfirst : ∀ i < k, next^[i] n ≠ 1)
    (hsmall : ∀ i ≤ k, next^[i] n < 2 ^ 47) :
    Leads TypedVM.Goes (At (listing n) bytes 0 ⟨[], none⟩) (Printed k) := by
  have hstart : Leads TypedVM.Goes (At (listing n) bytes 0 ⟨[], none⟩)
      (At (listing n) bytes 5 (atLoop n 0)) := by
    apply leads_gives himage 5
    exact ⟨_, rfl, ⟨rfl, rfl, rfl, rfl, rfl, trivial⟩, Or.inl rfl⟩
  have hrounds : Leads TypedVM.Goes (At (listing n) bytes 5 (atLoop (next^[0] n) 0))
      (At (listing n) bytes 5 (atLoop (next^[k] n) k)) := by
    apply Leads.rounds (I := fun i => At (listing n) bytes 5 (atLoop (next^[i] n) i))
    intro i hi
    rw [Function.iterate_succ_apply']
    exact round himage (hsmall i hi.le) (hfirst i hi)
  rw [hreach] at hrounds
  have hend := leads_done himage (i := k)
  rw [signed48_small (steps_lt hreach hfirst hsmall)] at hend
  exact (hstart.trans hrounds).trans hend

end Loop

end Collatz

/-! ## §4. What the file prints. -/

/-- **`collatz.asm` prints the number of steps** to the first `1`. -/
theorem collatz_prints (py : Python) (allocator : Allocator) (fpu : Fpu) (n k : Nat) (hn : 1 ≤ n)
    (hreach : Collatz.next^[k] n = 1) (hfirst : ∀ i < k, Collatz.next^[i] n ≠ 1)
    (hsmall : ∀ i ≤ k, Collatz.next^[i] n < 2 ^ 47) :
    Prints py allocator fpu (collatz.text n) k := by
  have hstart : n < 2 ^ 47 := hsmall 0 (Nat.zero_le k)
  apply Collatz.reads.prints hn hstart py allocator fpu (Collatz.link n)
  intro bytes himage
  exact Collatz.leads_steps himage hreach hfirst hsmall

/-- From the start the file's comment names. -/
theorem collatz_prints_27 :
    Prints Python.ascii Allocator.ascending Fpu.quiet (collatz.text 27) 111 :=
  collatz_prints Python.ascii Allocator.ascending Fpu.quiet 27 111 (by decide) (by decide +kernel)
    (by decide +kernel) (by decide +kernel)

end SproutLang.Programs
