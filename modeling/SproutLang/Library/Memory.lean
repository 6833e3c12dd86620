/-
  SproutLang.Library.Memory
  ─────────────────────────
  **THE MEMORY OF A C PROGRAM, IN 64-BIT WORDS.**

  `malloc` hands out regions of bytes; a program may read and write the
  8-byte aligned words of a live region and nothing else.  Where a region
  lands and what its bytes hold at first is the allocator's choice
  (`Allocator`), for every call separately; the laws are what the C library
  promises.

    • `load`, `store`      — one word, `undefinedBehaviour` outside,
    • `malloc`, `free`     — regions come and go,
    • `copyWords`          — `memcpy`, word by word (`copyWords_ok`),
    • `fillWords`          — `memset`, word by word (`fillWords_ok`).
-/
import SproutLang.Library.Exec
import Mathlib.Algebra.Group.Nat.Defs
import Mathlib.Data.List.Basic
import Mathlib.Logic.Function.Basic

namespace SproutLang.Library

/-! ## §1. Regions and the allocator. -/

/-- The bytes `[base, base + size)`. -/
structure Region where
  base : Nat
  size : Nat
  deriving DecidableEq, Repr

/-- Two regions share no byte. -/
def Region.Apart (r r' : Region) : Prop :=
  r.base + r.size ≤ r'.base ∨ r'.base + r'.size ≤ r.base

instance (r r' : Region) : Decidable (r.Apart r') :=
  inferInstanceAs (Decidable (_ ∨ _))

theorem Region.Apart.symm {r r' : Region} (h : r.Apart r') : r'.Apart r := Or.symm h

/-- **What the C library provides.**  `place n size live` is where the
`n`-th call puts its region (`none` is a null pointer) and `fill n o` the
word it leaves at byte offset `o`. -/
structure Allocator where
  place : Nat → Nat → List Region → Option Nat
  fill : Nat → Nat → BitVec 64
  /-- A pointer from `malloc` is aligned for every scalar type. -/
  aligned : ∀ {n size live a}, place n size live = some a → a % 8 = 0
  /-- User addresses have 48 bits, the one past the end included. -/
  bounded : ∀ {n size live a}, place n size live = some a → a + size < 2 ^ 48
  /-- A new region shares no byte with a live one. -/
  apart : ∀ {n size live a}, place n size live = some a →
    ∀ r ∈ live, Region.Apart ⟨a, size⟩ r

/-- Fresh memory is zero. -/
def Allocator.ZeroFill (al : Allocator) : Prop := ∀ n o, al.fill n o = 0

/-- Behind every region of the list, and never at the null page. -/
def above (live : List Region) : Nat :=
  live.foldr (fun r a => max (r.base + r.size + 7) a / 8 * 8) 4096

/-- Every region ends at or below the highest end. -/
theorem le_above {live : List Region} {r : Region} (h : r ∈ live) :
    r.base + r.size ≤ above live := by
  induction live with
  | nil => exact absurd h List.not_mem_nil
  | cons r' live ih =>
      have hstep : above (r' :: live) = max (r'.base + r'.size + 7) (above live) / 8 * 8 := rfl
      have hal : above live % 8 = 0 := by
        cases live with
        | nil => rfl
        | cons r'' live => exact Nat.mul_mod_left _ _
      rcases List.mem_cons.1 h with rfl | h
      · omega
      · have := ih h
        omega

/-- The allocator that always puts the next region above all others and
hands out zeroes. -/
def Allocator.ascending : Allocator where
  place _ size live := if above live + size < 2 ^ 48 then some (above live) else none
  fill _ _ := 0
  aligned h := by
    obtain ⟨_, ⟨⟩⟩ := Option.ite_none_right_eq_some.1 h
    rename_i live _
    cases live with
    | nil => rfl
    | cons r live => exact Nat.mul_mod_left _ _
  bounded h := by
    obtain ⟨hlt, ⟨⟩⟩ := Option.ite_none_right_eq_some.1 h
    exact hlt
  apart h := by
    obtain ⟨_, ⟨⟩⟩ := Option.ite_none_right_eq_some.1 h
    exact fun r hr => Or.inr (le_above hr)

theorem Allocator.ascending_zeroFill : Allocator.ascending.ZeroFill := fun _ _ => rfl

/-- The allocator that has no memory left. -/
def Allocator.exhausted : Allocator where
  place _ _ _ := none
  fill _ _ := 0
  aligned h := absurd h (by simp)
  bounded h := absurd h (by simp)
  apart h := absurd h (by simp)

/-! ## §2. The store. -/

/-- The regions in use and the words they hold. -/
structure Store where
  allocator : Allocator
  live : List Region
  word : Nat → BitVec 64
  calls : Nat

namespace Store

/-- The 8 bytes at `a` are one aligned word of a live region. -/
def Mapped (s : Store) (a : Nat) : Prop :=
  a % 8 = 0 ∧ ∃ r ∈ s.live, r.base ≤ a ∧ a + 8 ≤ r.base + r.size

instance (s : Store) (a : Nat) : Decidable (s.Mapped a) :=
  inferInstanceAs (Decidable (_ ∧ _))

/-- The store with the word at `a` replaced. -/
def put (s : Store) (a : Nat) (w : BitVec 64) : Store :=
  { s with word := Function.update s.word a w }

@[simp] theorem put_live (s : Store) (a : Nat) (w : BitVec 64) :
    (s.put a w).live = s.live := rfl

@[simp] theorem put_word (s : Store) (a : Nat) (w : BitVec 64) :
    (s.put a w).word a = w := Function.update_self ..

/-- A write leaves the other words. -/
theorem put_word_of_ne {s : Store} {a b : Nat} {w : BitVec 64} (h : b ≠ a) :
    (s.put a w).word b = s.word b := Function.update_of_ne h ..

/-- Writing what is there already changes no word. -/
theorem put_word_of_imp {s : Store} {a b : Nat} {w : BitVec 64} (h : b = a → s.word a = w) :
    (s.put a w).word b = s.word b := by
  by_cases hba : b = a
  · rw [hba, put_word, h hba]
  · exact put_word_of_ne hba

@[simp] theorem put_mapped (s : Store) (a b : Nat) (w : BitVec 64) :
    (s.put a w).Mapped b ↔ s.Mapped b := Iff.rfl

end Store

/-- Read the word at `a`. -/
def load (a : Nat) : EStateM Fault Store (BitVec 64) := fun s =>
  if s.Mapped a then .ok (s.word a) s else .error .undefinedBehaviour s

/-- Write the word at `a`. -/
def store (a : Nat) (w : BitVec 64) : EStateM Fault Store Unit := fun s =>
  if s.Mapped a then .ok () (s.put a w) else .error .undefinedBehaviour s

theorem load_ok {s : Store} {a : Nat} (h : s.Mapped a) :
    load a s = .ok (s.word a) s := if_pos h

theorem store_ok {s : Store} {a : Nat} {w : BitVec 64} (h : s.Mapped a) :
    store a w s = .ok () (s.put a w) := if_pos h

/-- What is loaded is the word of a mapped address. -/
theorem load_eq_ok {s s' : Store} {a : Nat} {w : BitVec 64} (h : load a s = .ok w s') :
    s.Mapped a ∧ w = s.word a ∧ s' = s := by
  unfold load at h
  split at h
  · rename_i hmapped
    injection h with hw hs
    exact ⟨hmapped, hw.symm, hs.symm⟩
  · exact absurd h (by simp)

/-- A store changes the word of a mapped address. -/
theorem store_eq_ok {s s' : Store} {a : Nat} {w : BitVec 64} (h : store a w s = .ok () s') :
    s.Mapped a ∧ s' = s.put a w := by
  unfold store at h
  split at h
  · rename_i hmapped
    injection h with _ hs
    exact ⟨hmapped, hs.symm⟩
  · exact absurd h (by simp)

theorem load_neverThrows (a : Nat) : NeverThrows (load a) := by
  intro s e s' h
  unfold load at h
  split at h
  · exact absurd h (by simp)
  · injection h with he _
    subst he
    exact id

theorem store_neverThrows (a : Nat) (w : BitVec 64) : NeverThrows (store a w) := by
  intro s e s' h
  unfold store at h
  split at h
  · exact absurd h (by simp)
  · injection h with he _
    subst he
    exact id

/-! ## §3. `malloc` and `free`. -/

/-- The words of a new region are whatever the allocator left there. -/
def Store.afterMalloc (s : Store) (a size : Nat) : Store :=
  { s with
    live := ⟨a, size⟩ :: s.live
    calls := s.calls + 1
    word := fun p =>
      if a ≤ p ∧ p < a + size then s.allocator.fill s.calls (p - a) else s.word p }

/-- `malloc(size)`; `none` is the null pointer. -/
def malloc (size : Nat) : EStateM Fault Store (Option Nat) := fun s =>
  match s.allocator.place s.calls size s.live with
  | none => .ok none { s with calls := s.calls + 1 }
  | some a => .ok (some a) (s.afterMalloc a size)

/-- `free(a)`. -/
def free (a : Nat) : EStateM Fault Store Unit := fun s =>
  .ok () { s with live := s.live.filter (fun r => r.base ≠ a) }

/-- `malloc` writes only inside the new region. -/
theorem Store.afterMalloc_word_of_apart {s : Store} {a size p : Nat}
    (h : p < a ∨ a + size ≤ p) : (s.afterMalloc a size).word p = s.word p := by
  show (if a ≤ p ∧ p < a + size then _ else _) = _
  rw [if_neg (by omega)]

/-! ## §4. `memcpy` and `memset`. -/

/-- Copy `n` words from `src` to `dst`, lowest address first. -/
def copyWords (dst src : Nat) : Nat → EStateM Fault Store Unit
  | 0 => pure ()
  | n + 1 => do
      copyWords dst src n
      let w ← load (src + 8 * n)
      store (dst + 8 * n) w

/-- Set `n` words from `dst` on to `w`. -/
def fillWords (dst : Nat) (w : BitVec 64) : Nat → EStateM Fault Store Unit
  | 0 => pure ()
  | n + 1 => do
      fillWords dst w n
      store (dst + 8 * n) w

/-- `memcpy(dst, src, bytes)`: whole words, then the low bytes of the last
word that is copied in part. -/
def memcpy (dst src bytes : Nat) : EStateM Fault Store Unit := do
  copyWords dst src (bytes / 8)
  if bytes % 8 ≠ 0 then
    let old ← load (dst + 8 * (bytes / 8))
    let w ← load (src + 8 * (bytes / 8))
    let mask := BitVec.ofNat 64 (2 ^ (8 * (bytes % 8)) - 1)
    store (dst + 8 * (bytes / 8)) ((old &&& ~~~mask) ||| (w &&& mask))

theorem fillWords_neverThrows (dst : Nat) (w : BitVec 64) (n : Nat) :
    NeverThrows (fillWords dst w n) := by
  induction n with
  | zero => exact Raises.pure _
  | succ n ih => exact ih.bind fun _ => store_neverThrows _ _

/-- `s'` differs from `s` in the words alone, and there at `n` words from
`dst` on only. -/
structure Store.Wrote (s s' : Store) (dst n : Nat) : Prop where
  allocator : s'.allocator = s.allocator
  live : s'.live = s.live
  calls : s'.calls = s.calls
  frame : ∀ p, (p < dst ∨ dst + 8 * n ≤ p) → s'.word p = s.word p

namespace Store.Wrote

variable {s s' s'' : Store} {dst n : Nat}

theorem refl (s : Store) (dst : Nat) : s.Wrote s dst 0 :=
  ⟨rfl, rfl, rfl, fun _ _ => rfl⟩

/-- What is mapped stays mapped. -/
theorem mapped (h : s.Wrote s' dst n) (a : Nat) : s'.Mapped a ↔ s.Mapped a := by
  unfold Mapped
  rw [h.live]

/-- Writing the next word extends the range by one. -/
theorem put (h : s.Wrote s' dst n) (w : BitVec 64) :
    s.Wrote (s'.put (dst + 8 * n) w) dst (n + 1) where
  allocator := h.allocator
  live := h.live
  calls := h.calls
  frame p hp := by
    rw [put_word_of_ne (by omega)]
    exact h.frame p (by omega)

end Store.Wrote

/-- **`memcpy` between disjoint ranges**: the target holds the source's
words and nothing else changed. -/
theorem copyWords_ok {s : Store} {dst src : Nat} :
    ∀ n : Nat, (∀ k < n, s.Mapped (src + 8 * k)) → (∀ k < n, s.Mapped (dst + 8 * k)) →
      (src + 8 * n ≤ dst ∨ dst + 8 * n ≤ src) →
      ∃ s', copyWords dst src n s = .ok () s' ∧ s.Wrote s' dst n ∧
        ∀ k < n, s'.word (dst + 8 * k) = s.word (src + 8 * k) := by
  intro n
  induction n with
  | zero =>
      intro _ _ _
      exact ⟨s, rfl, Store.Wrote.refl s dst, fun k hk => absurd hk (by omega)⟩
  | succ n ih =>
      intro hsrc hdst hsep
      obtain ⟨s', hrun, hwrote, hcopy⟩ :=
        ih (fun k hk => hsrc k (by omega)) (fun k hk => hdst k (by omega)) (by omega)
      -- the source was not written on the way
      have hread : s'.word (src + 8 * n) = s.word (src + 8 * n) :=
        hwrote.frame _ (by omega)
      refine ⟨s'.put (dst + 8 * n) (s.word (src + 8 * n)), ?_, hwrote.put _, ?_⟩
      · show (copyWords dst src n >>= fun _ => _) s = _
        rw [bind_ok hrun, bind_ok (load_ok ((hwrote.mapped _).2 (hsrc n (by omega)))),
          hread]
        exact store_ok ((hwrote.mapped _).2 (hdst n (by omega)))
      · intro k hk
        by_cases hkn : k = n
        · subst hkn
          exact Store.put_word ..
        · rw [Store.put_word_of_ne (by omega)]
          exact hcopy k (by omega)

/-- **`memset`**: `n` words from `dst` on hold `w` and nothing else changed. -/
theorem fillWords_ok {s : Store} {dst : Nat} {w : BitVec 64} :
    ∀ n : Nat, (∀ k < n, s.Mapped (dst + 8 * k)) →
      ∃ s', fillWords dst w n s = .ok () s' ∧ s.Wrote s' dst n ∧
        ∀ k < n, s'.word (dst + 8 * k) = w := by
  intro n
  -- on the number of words
  induction n with
  | zero =>
      intro _
      exact ⟨s, rfl, Store.Wrote.refl s dst, fun k hk => absurd hk (by omega)⟩
  | succ n ih =>
      intro hdst
      obtain ⟨s', hrun, hwrote, hfill⟩ := ih (fun k hk => hdst k (by omega))
      refine ⟨s'.put (dst + 8 * n) w, ?_, hwrote.put _, ?_⟩
      · show (fillWords dst w n >>= fun _ => _) s = _
        rw [bind_ok hrun]
        exact store_ok ((hwrote.mapped _).2 (hdst n (by omega)))
      · intro k hk
        by_cases hkn : k = n
        · subst hkn
          exact Store.put_word ..
        · rw [Store.put_word_of_ne (by omega)]
          exact hfill k (by omega)

/-- A `memcpy` of whole words is `copyWords`. -/
theorem memcpy_words (dst src n : Nat) : memcpy dst src (8 * n) = copyWords dst src n := by
  have hdiv : 8 * n / 8 = n := by omega
  have hmod : 8 * n % 8 = 0 := by omega
  unfold memcpy
  rw [hdiv, hmod]
  funext s
  show (copyWords dst src n >>= fun _ => pure ()) s = _
  cases h : copyWords dst src n s with
  | ok a s' => rw [bind_ok h, pure_apply]
  | error e s' => rw [bind_error h]

/-! ## §5. User space. -/

/-- Every live region lies below `2^48`, as every one that `malloc` returned
does. -/
def Store.UserSpace (s : Store) : Prop := ∀ r ∈ s.live, r.base + r.size ≤ 2 ^ 48

/-- A mapped address has 48 bits. -/
theorem Store.UserSpace.mapped_lt {s : Store} (h : s.UserSpace) {a : Nat} (ha : s.Mapped a) :
    a < 2 ^ 48 := by
  obtain ⟨_, r, hr, _, hend⟩ := ha
  have := h r hr
  omega

/-- Before the first call there is nothing. -/
theorem Store.userSpace_of_empty {s : Store} (h : s.live = []) : s.UserSpace := by
  intro r hr
  rw [h] at hr
  cases hr

/-- `malloc` grants nothing above them. -/
theorem malloc_userSpace (size : Nat) : Preserves Store.UserSpace (malloc size) := by
  intro s hs
  unfold malloc
  split
  · exact hs
  · rename_i a hplace
    intro r hr
    -- the new region is where the allocator may put one, the others are old
    rcases List.mem_cons.1 hr with rfl | hold
    · exact Nat.le_of_lt (s.allocator.bounded hplace)
    · exact hs r hold

theorem free_userSpace (a : Nat) : Preserves Store.UserSpace (free a) :=
  fun _ hs r hr => hs r (List.mem_filter.1 hr).1

theorem load_userSpace (a : Nat) : Preserves Store.UserSpace (load a) := by
  intro s hs
  unfold load
  split
  · exact hs
  · exact hs

theorem store_userSpace (a : Nat) (w : BitVec 64) : Preserves Store.UserSpace (store a w) := by
  intro s hs
  unfold store
  split
  · exact hs
  · exact hs

end SproutLang.Library
