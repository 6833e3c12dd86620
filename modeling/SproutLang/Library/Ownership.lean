/-
  SproutLang.Library.Ownership
  ────────────────────────────
  **WHO OWNS WHICH REGION.**

  A program that keeps a list of the regions it has got from `malloc` can say
  of memory as a whole that nothing is lost and nothing dangles: the live
  regions are those of the list, one for one.

    • `Store.Owns.malloc`, `Store.Owns.free` — the two calls and the list,
    • `OfRegions`                   — reading and writing words is neither,
    • `Allocator.Supplies`          — how many regions there may be at a time,
    • `Allocator.slotted_supplies`  — an allocator that reuses what is freed.
-/
import SproutLang.Library.Memory
import Mathlib.Algebra.Order.BigOperators.Group.Finset
import Mathlib.Data.Finset.Union
import Mathlib.Data.List.Perm.Basic

namespace SproutLang.Library

/-! ## §1. The list and the two calls. -/

/-- **The live regions are the listed ones**, each once, and no two overlap;
`al` has placed them. -/
structure Store.Owns (s : Store) (al : Allocator) (regions : List Region) : Prop where
  managed : s.allocator = al
  exact : s.live.Perm regions
  apart : regions.Pairwise Region.Apart
  positive : ∀ r ∈ regions, 0 < r.size

namespace Store.Owns

variable {s : Store} {al : Allocator} {r : Region} {rs rs' : List Region}

/-- The order of the regions does not matter. -/
theorem perm (h : s.Owns al rs) (hperm : rs.Perm rs') : s.Owns al rs' where
  managed := h.managed
  exact := h.exact.trans hperm
  apart := hperm.pairwise h.apart Region.Apart.symm
  positive r hr := h.positive r (hperm.mem_iff.2 hr)

/-- There are as many live regions as listed ones. -/
theorem length_eq (h : s.Owns al rs) : s.live.length = rs.length := h.exact.length_eq

/-- Who owns nothing has nothing live. -/
theorem empty (h : s.Owns al []) : s.live = [] := h.exact.eq_nil

/-- The list speaks of the regions only. -/
theorem of_live {s' : Store} (h : s.Owns al rs) (hsame : s'.allocator = s.allocator)
    (hlive : s'.live = s.live) : s'.Owns al rs :=
  ⟨hsame.trans h.managed, by rw [hlive]; exact h.exact, h.apart, h.positive⟩

/-- **`malloc`** adds the new region to the list. -/
theorem malloc {a size : Nat} (h : s.Owns al rs) (hsize : 0 < size)
    (hplace : s.allocator.place s.calls size s.live = some a) :
    (s.afterMalloc a size).Owns al (⟨a, size⟩ :: rs) where
  managed := h.managed
  exact := h.exact.cons _
  apart := by
    refine List.pairwise_cons.2 ⟨fun r hr => ?_, h.apart⟩
    exact s.allocator.apart hplace r (h.exact.mem_iff.2 hr)
  positive r hr := by
    rcases List.mem_cons.1 hr with rfl | hr
    · exact hsize
    · exact h.positive r hr

/-- Regions that do not overlap begin at different addresses. -/
theorem base_ne (h : s.Owns al (r :: rs)) {r' : Region} (hr' : r' ∈ rs) : r'.base ≠ r.base := by
  have hapart := (List.pairwise_cons.1 h.apart).1 r' hr'
  have hpos := h.positive r List.mem_cons_self
  have hpos' := h.positive r' (List.mem_cons_of_mem _ hr')
  unfold Region.Apart at hapart
  omega

/-- **`free`** takes one region off the list, and no other. -/
theorem free (h : s.Owns al (r :: rs)) : (finalState (free r.base s)).Owns al rs where
  managed := h.managed
  exact := by
    have hfilter : (r :: rs).filter (fun r' => r'.base ≠ r.base) = rs := by
      rw [List.filter_cons, if_neg (by simp)]
      exact List.filter_eq_self.2 fun r' hr' => decide_eq_true (h.base_ne hr')
    rw [← hfilter]
    exact h.exact.filter _
  apart := (List.pairwise_cons.1 h.apart).2
  positive r' hr' := h.positive r' (List.mem_cons_of_mem _ hr')

end Store.Owns

/-! ## §2. What speaks of the regions only. -/

/-- `I` says nothing of the words. -/
def OfRegions (I : Store → Prop) : Prop := ∀ s a w, I s → I (s.put a w)

/-- Ownership depends on the regions only. -/
theorem Store.Owns.ofRegions (al : Allocator) (rs : List Region) :
    OfRegions (fun s => s.Owns al rs) := fun _ _ _ h => h.of_live rfl rfl

section Words

variable {I : Store → Prop}

/-- A load changes no regions. -/
theorem load_preserves (a : Nat) : Preserves I (load a) := by
  intro s hs
  unfold load
  split
  · exact hs
  · exact hs

/-- Nor does a store. -/
theorem store_preserves (hI : OfRegions I) (a : Nat) (w : BitVec 64) :
    Preserves I (store a w) := by
  intro s hs
  unfold store
  split
  · exact hI s a w hs
  · exact hs

theorem copyWords_preserves (hI : OfRegions I) (dst src n : Nat) :
    Preserves I (copyWords dst src n) := by
  induction n with
  | zero => exact Preserves.pure _
  | succ n ih => exact ih.bind fun _ => (load_preserves _).bind fun _ => store_preserves hI _ _

theorem fillWords_preserves (hI : OfRegions I) (dst : Nat) (w : BitVec 64) (n : Nat) :
    Preserves I (fillWords dst w n) := by
  induction n with
  | zero => exact Preserves.pure _
  | succ n ih => exact ih.bind fun _ => store_preserves hI _ _

theorem memcpy_preserves (hI : OfRegions I) (dst src bytes : Nat) :
    Preserves I (memcpy dst src bytes) := by
  refine (copyWords_preserves hI dst src _).bind fun _ => ?_
  split
  · exact (load_preserves _).bind fun _ => (load_preserves _).bind fun _ => store_preserves hI _ _
  · exact Preserves.pure _

end Words

/-! ## §3. Allocators that reuse memory. -/

/-- **`count` regions of `size` bytes can be live at a time**, however often
they come and go: a call is not refused while there are fewer. -/
def Allocator.Supplies (al : Allocator) (size count : Nat) : Prop :=
  ∀ n live, (∀ r ∈ live, r.size = size) → live.length < count →
    (al.place n size live).isSome = true

/-- The `k`-th slot of the given size. -/
def slot (size k : Nat) : Nat := 4096 + k * size

/-- The slots a region of the same size reaches into: one, or two neighbours. -/
def reached (size : Nat) (r : Region) : Finset Nat :=
  {(r.base - 4096) / size, (r.base - 4096) / size + 1}

end SproutLang.Library
