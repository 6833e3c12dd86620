/-
  SproutLang.Programs.Matmul
  ──────────────────────────
  **THE MATRIX BENCHMARK, FOR EVERY BOUND.**

  `matmul.asm` adds up the elements of a matrix product in three nested loops.
  Each loop has an invariant, what the registers hold in front of its label,
  and the sum of the outermost one has the closed form the file's comment
  names.

  Main result: `matmul_prints`.
-/
import SproutLang.Programs.Template
import Mathlib.Algebra.BigOperators.Intervals
import Mathlib.Algebra.BigOperators.Ring.Finset
import Mathlib.Tactic.Ring

namespace SproutLang.Programs

open Library Assembler Finset

/-! ## §1. The file. -/

/-- `tests/asm_source/matmul.asm`, the bound left open. -/
def matmul : Template where
  comment := [
    "; =============================================================================",
    "; matmul.asm — Triple nested-loop matrix multiply (benchmark)",
    "; =============================================================================",
    "; Simulates C[i][j] = Σ_k A[i][k] * B[k][j]  for N×N matrices",
    "; using synthetic element values:  A[i][k] = i + k,  B[k][j] = k + j",
    ";",
    "; No actual matrix storage (no dynamic indexing in current ISA).",
    "; All values computed on the fly — this exercises the dispatch loop,",
    "; integer arithmetic, and branch prediction, which is the point.",
    ";",
    "; Inner body: 7 instructions × N³ iterations",
    "; Loop overhead: ~5 per middle, ~4 per outer",
    ";",
    "; N = 200  →  8,000,000 inner iterations  →  ~56M instruction dispatches",
    ";",
    "; Expected checksum (exact, int48):",
    ";   Σ_\x7bi,j,k\x7d (i+k)(k+j) = 3·N·S² + N²·S₂",
    ";   where S = N(N-1)/2 = 19900,  S₂ = N(N-1)(2N-1)/6 = 2646700",
    ";   = 3·200·396010000 + 40000·2646700",
    ";   = 237606000000 + 105868000000",
    ";   = 343474000000",
    ";",
    "; To adjust difficulty:",
    ";   N=100 →    7M dispatches,  checksum =  10634250000",
    ";   N=150 →   24M dispatches,  checksum =  81256218750",
    ";   N=200 →   56M disp3tches,  checksum = 343474000000",
    ";   N=300 →  189M dispatches,  checksum = 2616324750000",
    "; =============================================================================",
    ""]
  before := [
    "",
    "    ; --- Constants ---",
    "    load r50, 0          ; zero",
    "    load r51, 1          ; increment"]
  front := "    load r52,"
  tail := "        ; N  (change this to scale benchmark)"
  after := [
    "",
    "    ; --- Accumulators ---",
    "    load r11, 0          ; global checksum (total over all i,j)",
    "",
    "    ; --- Outer loop: i = 0 .. N-1 ---",
    "    load r1, 0           ; i = 0",
    "",
    "outer:",
    "    ; --- Middle loop: j = 0 .. N-1 ---",
    "    load r2, 0           ; j = 0",
    "",
    "middle:",
    "    ; --- Inner loop: k = 0 .. N-1, accumulate dot product ---",
    "    load r10, 0          ; dot product accumulator (reset per i,j pair)",
    "    load r3, 0           ; k = 0",
    "",
    "inner:",
    "    ; A[i][k] = i + k,  B[k][j] = k + j",
    "    add  r20, r1, r3     ; r20 = i + k",
    "    add  r21, r3, r2     ; r21 = k + j",
    "    mul  r22, r20, r21   ; r22 = A[i][k] * B[k][j]",
    "    add  r10, r10, r22   ; acc += product",
    "",
    "    ; k++",
    "    add  r3, r3, r51",
    "    cmp  r3, r52",
    "    jl   @inner",
    "",
    "    ; --- Inner done: fold dot product into checksum ---",
    "    add  r11, r11, r10",
    "",
    "    ; j++",
    "    add  r2, r2, r51",
    "    cmp  r2, r52",
    "    jl   @middle",
    "",
    "    ; i++",
    "    add  r1, r1, r51",
    "    cmp  r1, r52",
    "    jl   @outer",
    "",
    "    ; --- Done ---",
    "    end  r11             ; prints 343474000000  (for N=200)",
    ""]

namespace Matmul

/-- The lines in front of the constant. -/
def before : List Line := [.load 50 0, .load 51 1]

/-- The lines behind it. -/
def after : List Line :=
  [.load 11 0,
   .load 1 0,
   .label "outer".toList,
   .load 2 0,
   .label "middle".toList,
   .load 10 0,
   .load 3 0,
   .label "inner".toList,
   .arith .add 20 1 3,
   .arith .add 21 3 2,
   .arith .mul 22 20 21,
   .arith .add 10 10 22,
   .arith .add 3 3 51,
   .cmp 3 52,
   .jump .opJl "inner".toList,
   .arith .add 11 11 10,
   .arith .add 2 2 51,
   .cmp 2 52,
   .jump .opJl "middle".toList,
   .arith .add 1 1 51,
   .cmp 1 52,
   .jump .opJl "outer".toList,
   .halt 11]

/-- The listing, with the bound. -/
def listing (N : Nat) : List Line := before ++ .load 52 N :: after

set_option maxRecDepth 4000 in
/-- How the file reads. -/
theorem reads : matmul.Reads "r52".toList 52 before after := by
  apply Template.Reads.of_chars
  case hcomment | hfront | hback =>
    repeat
      apply List.Forall₂.cons
      · rfl
    exact List.Forall₂.nil
  all_goals decide +kernel

/-- Its labels are there, each once. -/
theorem link (N : Nat) : ItemsLink (itemsIn (listing N)) where
  once := by
    show ["outer".toList, "middle".toList, "inner".toList].Nodup
    simp
  named := by
    show ∀ name ∈ ["inner".toList, "middle".toList, "outer".toList],
      name ∈ ["outer".toList, "middle".toList, "inner".toList]
    simp
  small := by
    show CODE_START + 168 < 2 ^ 32
    decide

/-! ## §2. The sums. -/

/-- The element of row `i` and column `j`, as far as `k`. -/
def dot (i j k : Nat) : Nat := ∑ x ∈ range k, (i + x) * (x + j)

/-- The elements of row `i` in front of column `j`. -/
def row (N i j : Nat) : Nat := ∑ y ∈ range j, dot i y N

/-- The rows in front of row `i`. -/
def total (N i : Nat) : Nat := ∑ x ∈ range i, row N x N

/-- `S` of the file's comment. -/
def S (N : Nat) : Nat := N * (N - 1) / 2

/-- `S₂` of the file's comment. -/
def S₂ (N : Nat) : Nat := N * (N - 1) * (2 * N - 1) / 6

/-- The checksum of the file's comment. -/
def checksum (N : Nat) : Nat := 3 * N * S N ^ 2 + N ^ 2 * S₂ N

section Sums

variable {N i j k : Nat}

theorem dot_succ : dot i j (k + 1) = dot i j k + (i + k) * (k + j) := sum_range_succ _ k

theorem row_succ : row N i (j + 1) = row N i j + dot i j N := sum_range_succ _ j

theorem total_succ : total N (i + 1) = total N i + row N i N := sum_range_succ _ i

/-- The sum of a linear term. -/
theorem sum_linear (a b N : Nat) : ∑ x ∈ range N, (a * x + b) = a * S N + N * b := by
  rw [sum_add_distrib, ← mul_sum, sum_range_id, sum_const, card_range]
  rfl

/-- The sum of the squares, without the division. -/
theorem six_mul_sum_squares (N : Nat) :
    6 * ∑ x ∈ range (N + 1), x ^ 2 = (N + 1) * N * (2 * N + 1) := by
  induction N with
  | zero => rfl
  | succ N ih =>
      rw [sum_range_succ, Nat.mul_add, ih]
      ring

/-- The sum of the squares below `N`. -/
theorem sum_squares (N : Nat) : ∑ x ∈ range N, x ^ 2 = S₂ N := by
  cases N with
  | zero => rfl
  | succ N =>
      have hsix := six_mul_sum_squares N
      unfold S₂
      rw [Nat.add_sub_cancel, show 2 * (N + 1) - 1 = 2 * N + 1 by omega, ← hsix]
      omega

/-- An element of the product. -/
theorem dot_eq (i j : Nat) : dot i j N = (i + j) * S N + N * (i * j) + S₂ N := by
  have hterm : ∀ x ∈ range N, (i + x) * (x + j) = ((i + j) * x + i * j) + x ^ 2 := by
    intro x _
    ring
  unfold dot
  rw [sum_congr rfl hterm, sum_add_distrib, sum_linear, sum_squares]

/-- A row of the product. -/
theorem row_eq (i : Nat) : row N i N = 2 * N * S N * i + (S N ^ 2 + N * S₂ N) := by
  have hterm : ∀ y ∈ range N, dot i y N = (S N + N * i) * y + (i * S N + S₂ N) := by
    intro y _
    rw [dot_eq]
    ring
  unfold row
  rw [sum_congr rfl hterm, sum_linear]
  ring

/-- **The sum in closed form.** -/
theorem total_eq (N : Nat) : total N N = checksum N := by
  have hterm : ∀ x ∈ range N, row N x N = 2 * N * S N * x + (S N ^ 2 + N * S₂ N) :=
    fun x _ => row_eq x
  unfold total checksum
  rw [sum_congr rfl hterm, sum_linear]
  ring

end Sums

/-! ## §3. The loops. -/

/-- In front of `outer`. -/
def atOuter (N i : Nat) : Known := ⟨[(1, i), (11, total N i), (51, 1), (52, N)], none⟩

/-- In front of `middle`. -/
def atMiddle (N i j : Nat) : Known :=
  ⟨[(2, j), (1, i), (11, total N i + row N i j), (51, 1), (52, N)], none⟩

/-- In front of `inner`. -/
def atInner (N i j k : Nat) : Known :=
  ⟨[(3, k), (10, dot i j k), (2, j), (1, i), (11, total N i + row N i j), (51, 1), (52, N)], none⟩

section Loops

variable {N i j k : Nat} {bytes : List Byte}

/-- **The innermost loop** adds the products up. -/
theorem inner_body (himage : ListingImage (itemsIn (listing N)) bytes) :
    Leads TypedVM.Goes (At (listing N) bytes 10 (atInner N i j k))
      (At (listing N) bytes 17 ((atInner N i j (k + 1)).compared (k + 1 : Nat) N)) := by
  apply leads_gives himage 7
  have hdot : (dot i j k : Int) + ((i : Int) + k) * ((k : Int) + j) = dot i j (k + 1) := by
    rw [dot_succ]
    rfl
  exact ⟨_, rfl, ⟨rfl, congrArg some hdot, rfl, rfl, rfl, rfl, rfl, trivial⟩, Or.inr rfl⟩

/-- **The inner loop adds up a dot product.** -/
theorem inner_loop (himage : ListingImage (itemsIn (listing N)) bytes) (hpos : 1 ≤ N)
    (hN : N < 2 ^ 47) :
    Leads TypedVM.Goes (At (listing N) bytes 10 (atInner N i j 0))
      (At (listing N) bytes 18 (atInner N i j N)) := by
  -- the counter stays below the bound, so `jl` compares small numbers
  refine Leads.doWhile (I := fun k => At (listing N) bytes 10 (atInner N i j k)) hpos ?_ ?_
  · intro k hk
    exact (inner_body himage).trans
      (leads_again himage (link N) rfl rfl rfl (signed48_lt hk (by omega)))
  · rintro k rfl
    exact (inner_body himage).trans (leads_leave himage rfl rfl rfl)

/-- **The loop over the columns** adds the elements up. -/
theorem middle_body (himage : ListingImage (itemsIn (listing N)) bytes) (hpos : 1 ≤ N)
    (hN : N < 2 ^ 47) :
    Leads TypedVM.Goes (At (listing N) bytes 7 (atMiddle N i j))
      (At (listing N) bytes 21 ((atMiddle N i (j + 1)).compared (j + 1 : Nat) N)) := by
  have hreset : Leads TypedVM.Goes (At (listing N) bytes 7 (atMiddle N i j))
      (At (listing N) bytes 10 (atInner N i j 0)) := by
    apply leads_gives himage 3
    exact ⟨_, rfl, ⟨rfl, rfl, rfl, rfl, rfl, rfl, rfl, trivial⟩, Or.inl rfl⟩
  have hfold : Leads TypedVM.Goes (At (listing N) bytes 18 (atInner N i j N))
      (At (listing N) bytes 21 ((atMiddle N i (j + 1)).compared (j + 1 : Nat) N)) := by
    apply leads_gives himage 3
    have hrow : (total N i : Int) + row N i j + dot i j N = total N i + row N i (j + 1) := by
      rw [row_succ, Int.add_assoc]
      rfl
    exact ⟨_, rfl, ⟨rfl, rfl, congrArg some hrow, rfl, rfl, trivial⟩, Or.inr rfl⟩
  exact (hreset.trans (inner_loop himage hpos hN)).trans hfold

/-- **The middle loop adds up a row.** -/
theorem middle_loop (himage : ListingImage (itemsIn (listing N)) bytes) (hpos : 1 ≤ N)
    (hN : N < 2 ^ 47) :
    Leads TypedVM.Goes (At (listing N) bytes 7 (atMiddle N i 0))
      (At (listing N) bytes 22 (atMiddle N i N)) := by
  refine Leads.doWhile (I := fun j => At (listing N) bytes 7 (atMiddle N i j)) hpos ?_ ?_
  · intro j hj
    exact (middle_body himage hpos hN).trans
      (leads_again himage (link N) rfl rfl rfl (signed48_lt hj (by omega)))
  · rintro j rfl
    exact (middle_body himage hpos hN).trans (leads_leave himage rfl rfl rfl)

/-- **The loop over the rows** adds the rows up. -/
theorem outer_body (himage : ListingImage (itemsIn (listing N)) bytes) (hpos : 1 ≤ N)
    (hN : N < 2 ^ 47) :
    Leads TypedVM.Goes (At (listing N) bytes 5 (atOuter N i))
      (At (listing N) bytes 24 ((atOuter N (i + 1)).compared (i + 1 : Nat) N)) := by
  have hreset : Leads TypedVM.Goes (At (listing N) bytes 5 (atOuter N i))
      (At (listing N) bytes 7 (atMiddle N i 0)) := by
    apply leads_gives himage 2
    exact ⟨_, rfl, ⟨rfl, rfl, rfl, rfl, rfl, trivial⟩, Or.inl rfl⟩
  have hnext : Leads TypedVM.Goes (At (listing N) bytes 22 (atMiddle N i N))
      (At (listing N) bytes 24 ((atOuter N (i + 1)).compared (i + 1 : Nat) N)) := by
    apply leads_gives himage 2
    have htotal : (total N i : Int) + row N i N = total N (i + 1) := by
      rw [total_succ]
      rfl
    exact ⟨_, rfl, ⟨rfl, congrArg some htotal, rfl, rfl, trivial⟩, Or.inr rfl⟩
  exact (hreset.trans (middle_loop himage hpos hN)).trans hnext

/-- **The outer loop adds up the rows.** -/
theorem outer_loop (himage : ListingImage (itemsIn (listing N)) bytes) (hpos : 1 ≤ N)
    (hN : N < 2 ^ 47) :
    Leads TypedVM.Goes (At (listing N) bytes 5 (atOuter N 0))
      (At (listing N) bytes 25 (atOuter N N)) := by
  refine Leads.doWhile (I := fun i => At (listing N) bytes 5 (atOuter N i)) hpos ?_ ?_
  · intro i hi
    exact (outer_body himage hpos hN).trans
      (leads_again himage (link N) rfl rfl rfl (signed48_lt hi (by omega)))
  · rintro i rfl
    exact (outer_body himage hpos hN).trans (leads_leave himage rfl rfl rfl)

/-- **The listing prints the checksum.** -/
theorem leads_checksum (himage : ListingImage (itemsIn (listing N)) bytes) (hpos : 1 ≤ N)
    (hN : N < 2 ^ 47) :
    Leads TypedVM.Goes (At (listing N) bytes 0 ⟨[], none⟩) (Printed (signed48 (checksum N))) := by
  have hstart : Leads TypedVM.Goes (At (listing N) bytes 0 ⟨[], none⟩)
      (At (listing N) bytes 5 (atOuter N 0)) := by
    apply leads_gives himage 5
    exact ⟨_, rfl, ⟨rfl, rfl, rfl, rfl, trivial⟩, Or.inl rfl⟩
  have hend : Leads TypedVM.Goes (At (listing N) bytes 25 (atOuter N N))
      (Printed (signed48 (checksum N))) := by
    rw [← total_eq]
    exact leads_halt himage rfl rfl
  exact (hstart.trans (outer_loop himage hpos hN)).trans hend

end Loops

end Matmul

/-! ## §4. What the file prints. -/

/-- **`matmul.asm` prints the checksum**, reduced to 48 bits; the checksum
itself where it has 48. -/
theorem matmul_prints (py : Python) (allocator : Allocator) (fpu : Fpu) (N : Nat) (hpos : 1 ≤ N)
    (hN : N < 2 ^ 47) :
    Prints py allocator fpu (matmul.text N) (signed48 (Matmul.checksum N)) ∧
      (Matmul.checksum N < 2 ^ 47 →
        Prints py allocator fpu (matmul.text N) (Matmul.checksum N)) := by
  have hprints : Prints py allocator fpu (matmul.text N) (signed48 (Matmul.checksum N)) := by
    apply Matmul.reads.prints hpos hN py allocator fpu (Matmul.link N)
    intro bytes himage
    exact Matmul.leads_checksum himage hpos hN
  refine ⟨hprints, ?_⟩
  intro hexact
  rw [signed48_small hexact] at hprints
  exact hprints

/-- With the bound of the file. -/
theorem matmul_prints_300 :
    Prints Python.ascii Allocator.ascending Fpu.quiet (matmul.text 300) 2616324750000 :=
  (matmul_prints Python.ascii Allocator.ascending Fpu.quiet 300 (by decide) (by decide)).2
    (by decide)

end SproutLang.Programs
