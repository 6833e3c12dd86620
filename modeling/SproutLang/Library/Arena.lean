/-
  SproutLang.Library.Arena
  ────────────────────────
  **BUMP ALLOCATION IN CHUNKS.**

  An arena is a list of chunks of one capacity.  Each chunk holds its items
  back to back from its base on, so where an item lies is the sum of the
  sizes before it (`placed`).  A new item goes behind the last one when it
  still fits and opens a chunk otherwise (`Bump`).  The facts every client
  needs:

    • `placed_bounds`        — an item lies inside its chunk's used part,
    • `Arena.pairwise_apart` — no two items of an arena overlap,
    • `Bump.objects_eq`      — allocation order is address-list order,
    • `Bump.arena`           — allocation keeps the arena well formed,
    • `Packed.length_mul_le` — and opens no more chunks than the items ask for.
-/
import SproutLang.Library.Memory
import Mathlib.Data.List.Chain
import Mathlib.Data.List.Pairwise
import Mathlib.Algebra.BigOperators.Group.List.Basic
import Mathlib.Order.Interval.Finset.Nat
import Mathlib.Tactic.Ring

namespace SproutLang.Library

/-! ## §1. Placing items. -/

section Placing

variable {ι : Type} (size : ι → Nat)

/-- The bytes a list of items takes. -/
def extent (items : List ι) : Nat := (items.map size).sum

/-- The items with their addresses, the first one at `a`. -/
def placed : Nat → List ι → List (Nat × ι)
  | _, [] => []
  | a, x :: xs => (a, x) :: placed (a + size x) xs

@[simp] theorem extent_nil : extent size [] = 0 := rfl

@[simp] theorem extent_cons (x : ι) (xs : List ι) :
    extent size (x :: xs) = size x + extent size xs := by
  simp [extent]

@[simp] theorem extent_append (xs ys : List ι) :
    extent size (xs ++ ys) = extent size xs + extent size ys := by
  simp [extent]

/-- Items that take a byte at least are no more than the bytes. -/
theorem length_le_extent {xs : List ι} (h : ∀ x ∈ xs, 1 ≤ size x) :
    xs.length ≤ extent size xs := by
  induction xs with
  | nil => simp
  | cons x xs ih =>
      have hx := h x List.mem_cons_self
      have hxs := ih (fun y hy => h y (List.mem_cons_of_mem _ hy))
      rw [extent_cons, List.length_cons]
      omega

/-- The second list is placed behind the first. -/
theorem placed_append (a : Nat) (xs ys : List ι) :
    placed size a (xs ++ ys) = placed size a xs ++ placed size (a + extent size xs) ys := by
  induction xs generalizing a with
  | nil => simp [placed]
  | cons x xs ih => simp [placed, ih, Nat.add_assoc]

/-- One more item adds its size. -/
theorem extent_concat (xs : List ι) (x : ι) :
    extent size (xs ++ [x]) = extent size xs + size x := by
  rw [extent_append, extent_cons, extent_nil, Nat.add_zero]

/-- An item stands behind those in front of it. -/
theorem mem_placed_of_split (a : Nat) (passed rest : List ι) (x : ι) :
    (a + extent size passed, x) ∈ placed size a (passed ++ x :: rest) := by
  rw [placed_append]
  exact List.mem_append_right _ List.mem_cons_self

@[simp] theorem placed_map_snd (a : Nat) (xs : List ι) :
    (placed size a xs).map Prod.snd = xs := by
  induction xs generalizing a with
  | nil => rfl
  | cons x xs ih => simp [placed, ih]

/-- **An item lies between the start and the end of its list.** -/
theorem placed_bounds {a : Nat} {xs : List ι} {p : Nat × ι} (h : p ∈ placed size a xs) :
    a ≤ p.1 ∧ p.1 + size p.2 ≤ a + extent size xs := by
  induction xs generalizing a with
  | nil => exact absurd h List.not_mem_nil
  | cons x xs ih =>
      rw [extent_cons]
      rcases List.mem_cons.1 h with rfl | h
      · constructor <;> simp only <;> omega
      · have := ih h
        omega

/-- Behind an item comes the end of the list or the next item. -/
theorem placed_next {a : Nat} {xs : List ι} {p : Nat × ι} (h : p ∈ placed size a xs) :
    p.1 + size p.2 = a + extent size xs ∨ ∃ q ∈ placed size a xs, q.1 = p.1 + size p.2 := by
  induction xs generalizing a with
  | nil => exact absurd h List.not_mem_nil
  | cons x xs ih =>
      rw [extent_cons]
      rcases List.mem_cons.1 h with rfl | h
      · cases xs with
        | nil => exact Or.inl (by simp)
        | cons y ys =>
            exact Or.inr ⟨_, List.mem_cons_of_mem _ List.mem_cons_self, rfl⟩
      · rcases ih h with hend | ⟨q, hq, heq⟩
        · exact Or.inl (by omega)
        · exact Or.inr ⟨q, List.mem_cons_of_mem _ hq, heq⟩

/-- So between an item and the end there is nothing or a whole item. -/
theorem placed_stop {m a : Nat} {xs : List ι} (hmin : ∀ x ∈ xs, m ≤ size x) {p : Nat × ι}
    (h : p ∈ placed size a xs) :
    p.1 + size p.2 = a + extent size xs ∨ p.1 + size p.2 + m ≤ a + extent size xs := by
  rcases placed_next size h with hend | ⟨q, hq, heq⟩
  · exact Or.inl hend
  · have hmem : q.2 ∈ (placed size a xs).map Prod.snd := List.mem_map_of_mem hq
    rw [placed_map_snd] at hmem
    have hsize := hmin q.2 hmem
    have hbound := (placed_bounds size hq).2
    exact Or.inr (by omega)

/-- Every address between the start and the end lies in an item. -/
theorem placed_covers {a : Nat} {xs : List ι} {b : Nat} (hlo : a ≤ b)
    (hhi : b < a + extent size xs) :
    ∃ p ∈ placed size a xs, p.1 ≤ b ∧ b < p.1 + size p.2 := by
  induction xs generalizing a with
  | nil =>
      rw [extent_nil] at hhi
      omega
  | cons x xs ih =>
      rw [extent_cons] at hhi
      by_cases hx : b < a + size x
      · exact ⟨(a, x), List.mem_cons_self, hlo, hx⟩
      · obtain ⟨p, hp, hbounds⟩ := ih (a := a + size x) (by omega) (by omega)
        exact ⟨p, List.mem_cons_of_mem _ hp, hbounds⟩

/-- Items follow each other without overlap. -/
theorem placed_pairwise (a : Nat) (xs : List ι) :
    (placed size a xs).Pairwise (fun u v => u.1 + size u.2 ≤ v.1) := by
  induction xs generalizing a with
  | nil => exact List.Pairwise.nil
  | cons x xs ih =>
      refine List.Pairwise.cons (fun v hv => ?_) (ih _)
      exact (placed_bounds size hv).1

/-- Items of aligned sizes lie at aligned distances from the base. -/
theorem placed_distance {n a : Nat} {xs : List ι} (hs : ∀ x ∈ xs, size x % n = 0) {p : Nat × ι}
    (h : p ∈ placed size a xs) : ∃ k, p.1 = a + k ∧ k % n = 0 := by
  induction xs generalizing a with
  | nil => exact absurd h List.not_mem_nil
  | cons x xs ih =>
      rcases List.mem_cons.1 h with rfl | h
      · exact ⟨0, rfl, Nat.zero_mod n⟩
      · obtain ⟨k, hk, hmod⟩ := ih (fun y hy => hs y (List.mem_cons_of_mem _ hy)) h
        refine ⟨size x + k, by omega, ?_⟩
        rw [Nat.add_mod, hs x List.mem_cons_self, hmod]
        simp

/-- The alignment of the base carries over to every item. -/
theorem placed_aligned {n a : Nat} {xs : List ι} (ha : a % n = 0)
    (hs : ∀ x ∈ xs, size x % n = 0) {p : Nat × ι} (h : p ∈ placed size a xs) :
    p.1 % n = 0 := by
  obtain ⟨k, hk, hmod⟩ := placed_distance size hs h
  rw [hk, Nat.add_mod, ha, hmod]
  simp

end Placing

/-! ## §2. Chunks. -/

/-- One chunk: its base and its items in order. -/
structure Row (ι : Type) where
  base : Nat
  items : List ι

section Rows

variable {ι : Type} (size : ι → Nat) (cap : Nat)

/-- What the items of a chunk take of it. -/
def Row.used (r : Row ι) : Nat := extent size r.items

/-- What a chunk holds, around one of its items. -/
theorem Row.used_of_split {r : Row ι} {passed rest : List ι} {x : ι}
    (h : r.items = passed ++ x :: rest) :
    r.used size = extent size passed + (size x + extent size rest) := by
  unfold Row.used
  rw [h, extent_append, extent_cons]

/-- Nothing is left behind the last item. -/
theorem Row.used_of_passed {r : Row ι} {passed : List ι} (h : r.items = passed ++ []) :
    r.used size = extent size passed := by
  unfold Row.used
  rw [h, List.append_nil]

/-- The region a chunk occupies. -/
def Row.region (r : Row ι) : Region := ⟨r.base, cap⟩

/-- All items of an arena with their addresses, chunk by chunk. -/
def objects (rows : List (Row ι)) : List (Nat × ι) :=
  rows.flatMap (fun r => placed size r.base r.items)

@[simp] theorem objects_nil : objects size ([] : List (Row ι)) = [] := rfl

@[simp] theorem objects_cons (r : Row ι) (rows : List (Row ι)) :
    objects size (r :: rows) = placed size r.base r.items ++ objects size rows := by
  simp [objects]

@[simp] theorem objects_append (rows rows' : List (Row ι)) :
    objects size (rows ++ rows') = objects size rows ++ objects size rows' := by
  simp [objects]

/-- An object of the arena lies in one of its chunks. -/
theorem mem_objects {rows : List (Row ι)} {p : Nat × ι} :
    p ∈ objects size rows ↔ ∃ r ∈ rows, p ∈ placed size r.base r.items := by
  simp [objects]

/-- No chunk is overfull and no two chunks overlap. -/
structure Arena (rows : List (Row ι)) : Prop where
  fits : ∀ r ∈ rows, r.used size ≤ cap
  apart : rows.Pairwise (fun r r' => (r.region cap).Apart (r'.region cap))

variable {size cap}

/-- An item lies inside one chunk of the arena. -/
theorem Arena.inside {rows : List (Row ι)} (h : Arena size cap rows) {p : Nat × ι}
    (hp : p ∈ objects size rows) :
    ∃ r ∈ rows, p ∈ placed size r.base r.items ∧ r.base ≤ p.1
      ∧ p.1 + size p.2 ≤ r.base + r.used size ∧ p.1 + size p.2 ≤ r.base + cap := by
  obtain ⟨r, hr, hpr⟩ := (mem_objects size).1 hp
  have hb := placed_bounds size hpr
  have hf := h.fits r hr
  unfold Row.used at hf ⊢
  exact ⟨r, hr, hpr, hb.1, hb.2, by omega⟩

/-- **No two items of an arena overlap.** -/
theorem Arena.pairwise_apart {rows : List (Row ι)} (h : Arena size cap rows) :
    (objects size rows).Pairwise
      (fun u v => u.1 + size u.2 ≤ v.1 ∨ v.1 + size v.2 ≤ u.1) := by
  obtain ⟨hfits, hapart⟩ := h
  induction rows with
  | nil => exact List.Pairwise.nil
  | cons r rows ih =>
      obtain ⟨hr, hrest⟩ := List.pairwise_cons.1 hapart
      have htail := ih (fun r' hr' => hfits r' (List.mem_cons_of_mem _ hr')) hrest
      rw [objects_cons]
      -- in one chunk the items follow each other, in two the chunks are apart
      refine List.pairwise_append.2
        ⟨(placed_pairwise size r.base r.items).imp Or.inl, htail, fun u hu v hv => ?_⟩
      obtain ⟨r', hr', hvr⟩ := (mem_objects size).1 hv
      have hub := placed_bounds size hu
      have hvb := placed_bounds size hvr
      have hfr := hfits r List.mem_cons_self
      have hfr' := hfits r' (List.mem_cons_of_mem _ hr')
      have hsep := hr r' hr'
      unfold Row.used at hfr hfr'
      unfold Region.Apart Row.region at hsep
      rcases hsep with hsep | hsep
      · left
        simp only at hsep
        omega
      · right
        simp only at hsep
        omega

/-- Two items are the same or do not overlap. -/
theorem Arena.eq_or_apart {rows : List (Row ι)} (h : Arena size cap rows)
    {u v : Nat × ι} (hu : u ∈ objects size rows) (hv : v ∈ objects size rows) :
    u = v ∨ u.1 + size u.2 ≤ v.1 ∨ v.1 + size v.2 ≤ u.1 := by
  by_cases huv : u = v
  · exact Or.inl huv
  · have : Std.Symm
        (fun (u v : Nat × ι) => u.1 + size u.2 ≤ v.1 ∨ v.1 + size v.2 ≤ u.1) :=
      ⟨fun _ _ hsep => hsep.symm⟩
    exact Or.inr (h.pairwise_apart.forall hu hv huv)

/-- Two chunks are the same or do not overlap. -/
theorem Arena.row_eq_or_apart {rows : List (Row ι)} (h : Arena size cap rows) {r r' : Row ι}
    (hr : r ∈ rows) (hr' : r' ∈ rows) : r = r' ∨ (r.region cap).Apart (r'.region cap) := by
  by_cases heq : r = r'
  · exact Or.inl heq
  · have : Std.Symm (fun (r r' : Row ι) => (r.region cap).Apart (r'.region cap)) :=
      ⟨fun _ _ hsep => hsep.symm⟩
    exact Or.inr (h.apart.forall hr hr' heq)

/-- Chunks that do not overlap take no more than the room there is. -/
theorem Arena.length_mul_le {rows : List (Row ι)} (h : Arena size cap rows) {n : Nat}
    (hn : ∀ r ∈ rows, r.base + cap ≤ n) : rows.length * cap ≤ n := by
  -- the chunks together cover that many addresses
  have hset : ∃ t : Finset Nat, t ⊆ Finset.range n ∧ t.card = rows.length * cap ∧
      ∀ a ∈ t, ∃ r ∈ rows, r.base ≤ a ∧ a < r.base + cap := by
    have hapart := h.apart
    clear h
    induction rows with
    | nil => exact ⟨∅, by simp, by simp, by simp⟩
    | cons r rows ih =>
        obtain ⟨hr, hrest⟩ := List.pairwise_cons.1 hapart
        obtain ⟨t, hsub, hcard, hcover⟩ :=
          ih (fun r' hr' => hn r' (List.mem_cons_of_mem _ hr')) hrest
        -- no address belongs to two chunks
        have hdisj : Disjoint (Finset.Ico r.base (r.base + cap)) t := by
          rw [Finset.disjoint_left]
          intro a ha hat
          obtain ⟨r', hr', hlo, hhi⟩ := hcover a hat
          have hsep := hr r' hr'
          simp only [Region.Apart, Row.region] at hsep
          rw [Finset.mem_Ico] at ha
          omega
        refine ⟨Finset.Ico r.base (r.base + cap) ∪ t, ?_, ?_, ?_⟩
        · refine Finset.union_subset (fun a ha => ?_) hsub
          have := hn r List.mem_cons_self
          rw [Finset.mem_Ico] at ha
          rw [Finset.mem_range]
          omega
        · rw [Finset.card_union_of_disjoint hdisj, hcard, Nat.card_Ico, List.length_cons]
          have : r.base + cap - r.base = cap := by omega
          rw [this]
          ring
        · intro a ha
          rcases Finset.mem_union.1 ha with ha | ha
          · rw [Finset.mem_Ico] at ha
            exact ⟨r, List.mem_cons_self, ha.1, ha.2⟩
          · obtain ⟨r', hr', hb⟩ := hcover a ha
            exact ⟨r', List.mem_cons_of_mem _ hr', hb⟩
  obtain ⟨t, hsub, hcard, _⟩ := hset
  have hle := Finset.card_le_card hsub
  rw [Finset.card_range] at hle
  omega

/-- The used parts together are no larger than the chunks. -/
theorem Arena.used_sum_le {rows : List (Row ι)} (h : Arena size cap rows) :
    (rows.map (Row.used size)).sum ≤ rows.length * cap := by
  have hfits := h.fits
  clear h
  induction rows with
  | nil => simp
  | cons r rows ih =>
      have hr := hfits r List.mem_cons_self
      have hrest := ih (fun r' hr' => hfits r' (List.mem_cons_of_mem _ hr'))
      rw [List.map_cons, List.sum_cons, List.length_cons, Nat.add_mul]
      omega

/-! ## §3. Allocation. -/

/-- **One allocation**: `x` is placed at `p`, behind the last item when the
last chunk has room for it and at the base of a new chunk otherwise. -/
inductive Bump (size : ι → Nat) (cap : Nat) (x : ι) :
    List (Row ι) → Nat → List (Row ι) → Prop where
  | behind (rows : List (Row ι)) (r : Row ι) (room : r.used size + size x ≤ cap) :
      Bump size cap x (rows ++ [r]) (r.base + r.used size)
        (rows ++ [{ r with items := r.items ++ [x] }])
  | opened (rows : List (Row ι)) (fresh : Nat)
      (full : ∀ r, rows.getLast? = some r → cap < r.used size + size x)
      (apart : ∀ r ∈ rows, (r.region cap).Apart ⟨fresh, cap⟩) :
      Bump size cap x rows fresh (rows ++ [⟨fresh, [x]⟩])

section Bump

variable {p : Nat} {x : ι} {rows rows' : List (Row ι)}

/-- Allocation order is the order of `objects`. -/
theorem Bump.objects_eq (h : Bump size cap x rows p rows') :
    objects size rows' = objects size rows ++ [(p, x)] := by
  cases h with
  | behind rows r room => simp [placed_append, placed, Row.used]
  | opened _ _ _ => simp [placed]

/-- The total of the used parts grows by the item's size. -/
theorem Bump.used_eq (h : Bump size cap x rows p rows') :
    (rows'.map (Row.used size)).sum = (rows.map (Row.used size)).sum + size x := by
  cases h with
  | behind rows r room => simp [Row.used, Nat.add_assoc]
  | opened _ _ _ => simp [Row.used]

/-- **Allocation keeps an arena an arena.** -/
theorem Bump.arena (h : Bump size cap x rows p rows') (ha : Arena size cap rows)
    (hx : size x ≤ cap) : Arena size cap rows' := by
  obtain ⟨hfits, hapart⟩ := ha
  -- the last chunk grows, or a chunk is appended
  cases h with
  | behind rows r room =>
      obtain ⟨hrows, _, hcross⟩ := List.pairwise_append.1 hapart
      constructor
      · intro r' hr'
        rcases List.mem_append.1 hr' with hr' | hr'
        · exact hfits r' (List.mem_append_left _ hr')
        · rw [List.mem_singleton.1 hr']
          simpa [Row.used] using room
      · refine List.pairwise_append.2 ⟨hrows, List.pairwise_singleton _ _, ?_⟩
        intro u hu v hv
        rw [List.mem_singleton.1 hv]
        exact hcross u hu r (List.mem_singleton_self r)
  | opened _ fresh _ apart =>
      constructor
      · intro r' hr'
        rcases List.mem_append.1 hr' with hr' | hr'
        · exact hfits r' hr'
        · rw [List.mem_singleton.1 hr']
          simpa [Row.used] using hx
      · refine List.pairwise_append.2 ⟨hapart, List.pairwise_singleton _ _, ?_⟩
        intro u hu v hv
        rw [List.mem_singleton.1 hv]
        exact apart u hu

/-- Every chunk there was is still there with its items. -/
theorem Bump.keeps (h : Bump size cap x rows p rows') :
    ∀ r ∈ rows, ∃ r' ∈ rows', r'.base = r.base ∧
      ∀ u ∈ placed size r.base r.items, u ∈ placed size r'.base r'.items := by
  intro r hr
  cases h with
  | behind rows last room =>
      rcases List.mem_append.1 hr with hr | hr
      · exact ⟨r, List.mem_append_left _ hr, rfl, fun u hu => hu⟩
      · rw [List.mem_singleton.1 hr]
        refine ⟨_, List.mem_append_right _ (List.mem_singleton_self _), rfl, fun u hu => ?_⟩
        rw [placed_append]
        exact List.mem_append_left _ hu
  | opened _ _ _ _ => exact ⟨r, List.mem_append_left _ hr, rfl, fun u hu => hu⟩

end Bump

/-! ## §4. How many chunks there are. -/

/-- **Two neighbours hold more than one chunk could**: the second was opened
for an item that did not fit behind the first. -/
def Packed (cap : Nat) (used : List Nat) : Prop := used.IsChain fun u v => cap < u + v

/-- So every chunk but one is half full on average. -/
theorem Packed.length_mul_le {cap : Nat} {used : List Nat} (h : Packed cap used) :
    (used.length - 1) * (cap + 1) + used.headD 0 ≤ 2 * used.sum := by
  unfold Packed at h
  induction used with
  | nil => simp
  | cons u used ih =>
      cases used with
      | nil => simp; omega
      | cons v used =>
          obtain ⟨hfirst, hrest⟩ := List.isChain_cons_cons.1 h
          have hih := ih hrest
          simp only [List.length_cons, List.headD_cons, List.sum_cons, Nat.add_sub_cancel] at hih ⊢
          rw [Nat.add_mul, Nat.one_mul]
          omega

/-- **A bound on the chunks** by what is allocated in them. -/
theorem Packed.length_le {cap n : Nat} {used : List Nat} (h : Packed cap used)
    (hn : used.sum ≤ n) : used.length ≤ 2 * n / (cap + 1) + 1 := by
  have hmul := h.length_mul_le
  have hquot : used.length - 1 ≤ 2 * n / (cap + 1) := by
    rw [Nat.le_div_iff_mul_le (Nat.succ_pos cap), Nat.succ_eq_add_one]
    omega
  omega

/-- **Allocation packs.** -/
theorem Bump.packed {p : Nat} {x : ι} {rows rows' : List (Row ι)}
    (h : Bump size cap x rows p rows') (hpacked : Packed cap (rows.map (Row.used size))) :
    Packed cap (rows'.map (Row.used size)) := by
  unfold Packed at hpacked ⊢
  cases h with
  | behind rows r room =>
      -- the last chunk only gets fuller
      rw [List.map_append, List.map_singleton] at hpacked ⊢
      obtain ⟨hrows, _, hlast⟩ := List.isChain_append.1 hpacked
      refine List.isChain_append.2 ⟨hrows, List.isChain_singleton _, fun u hu v hv => ?_⟩
      have hold := hlast u hu (r.used size) rfl
      rw [← Option.some.inj hv]
      have hmore : Row.used size { r with items := r.items ++ [x] } = r.used size + size x := by
        simp [Row.used]
      omega
  | opened _ _ full _ =>
      rw [List.map_append, List.map_singleton]
      refine List.isChain_append.2 ⟨hpacked, List.isChain_singleton _, fun u hu v hv => ?_⟩
      rw [List.getLast?_map, Option.mem_def, Option.map_eq_some_iff] at hu
      obtain ⟨r, hr, rfl⟩ := hu
      have hfull := full r hr
      rw [← Option.some.inj hv]
      have hone : Row.used size ⟨p, [x]⟩ = size x := by simp [Row.used]
      omega

end Rows

end SproutLang.Library
