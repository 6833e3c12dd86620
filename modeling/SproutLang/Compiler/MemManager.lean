/-
  SproutLang.Compiler.MemManager
  ──────────────────────────────
  **THE ARENA OF THE SYNTAX TREE** (`src/compiler/memManager.h`,
  `memManager.cpp`).

  The nodes of a tree are placed one behind the other in chunks of 4 MiB.  A
  run of the arena is any sequence of `allocateMemory` and `freeMemory`,
  between which the rest of the program uses the same `malloc`.

    • `allocateMemory_spec` — one allocation is one `Bump`,
    • `arena_blocks`        — where the blocks of a run lie.
-/
import SproutLang.Library.Arena
import SproutLang.Library.Runs
import SproutLang.VM.Heap.Layout

namespace SproutLang.Compiler.MemManager

open Library

/-! ## §1. Data (`memManager.h`). -/

/-- Capacity of a chunk. -/
def CHUNK_SIZE : Nat := 4 * 1024 * 1024

/-- Alignment of a block. -/
def ALIGN : Nat := 8

/-- `(n + (ALIGN - 1)) & ~(ALIGN - 1)` in `size_t`. -/
def align (n : Nat) : Nat :=
  (BitVec.ofNat 64 (n + (ALIGN - 1)) &&& ~~~(BitVec.ofNat 64 (ALIGN - 1))).toNat

/-- A chunk: where it is, and how much of it is used. -/
structure Chunk where
  mem : Nat
  used : Nat
  size : Nat
  deriving DecidableEq, Repr

/-- The arena: its chunks and its counters. -/
structure Memory where
  chunks : List Chunk
  allocated : Nat
  max : Nat
  deriving DecidableEq, Repr

/-- The arena and the memory it takes its chunks from. -/
structure Space where
  store : Store
  mem : Memory

/-! ## §2. Functions (`memManager.cpp`). -/

/-- Lift a computation on memory to one on memory and the arena. -/
def inStore {α : Type} (x : EStateM Fault Store α) : EStateM Fault Space α :=
  zoom Space.store (fun s sp => { sp with store := s }) x

/-- One chunk more, from `malloc`. -/
def allocChunk : EStateM Fault Space Unit := do
  match ← inStore (malloc CHUNK_SIZE) with
  | none => throw (.runtimeError "Faulty allocation!")
  | some mem =>
      modify fun sp =>
        { sp with mem.chunks := sp.mem.chunks ++ [{ mem, used := 0, size := CHUNK_SIZE }] }

/-- `mem.chunks.empty() || mem.chunks.back().used + total > CHUNK_SIZE`. -/
def needsChunk (mem : Memory) (total : Nat) : Bool :=
  match mem.chunks.getLast? with
  | none => true
  | some c => (c.used + total) % 2 ^ 64 > CHUNK_SIZE

/-- The second half of `allocateMemory`: the end of the last chunk, and the
counters. -/
def takeFromLast (total : Nat) : EStateM Fault Space Nat := do
  let mem := (← get).mem
  match mem.chunks.getLast? with
  -- `back()` of an empty vector
  | none => throw .undefinedBehaviour
  | some c =>
      modify fun sp =>
        { sp with
          mem :=
            { mem with
              chunks := mem.chunks.dropLast ++ [{ c with used := (c.used + total) % 2 ^ 64 }]
              allocated := (mem.allocated + total) % 2 ^ 64 } }
      return (c.mem + c.used) % 2 ^ 64

/-- The next block, in a new chunk if the last one has no room. -/
def allocateMemory (size : Nat) : EStateM Fault Space Nat := do
  let total := align size
  if needsChunk (← get).mem total then
    allocChunk
  takeFromLast total

/-- `std::free` of every chunk. -/
def freeChunks : List Chunk → EStateM Fault Store Unit
  | [] => pure ()
  | c :: cs => do
      free c.mem
      freeChunks cs

/-- All chunks are given back. -/
def freeMemory : EStateM Fault Space Unit := do
  inStore (freeChunks (← get).mem.chunks)
  modify fun sp => { sp with mem := { sp.mem with chunks := [], allocated := 0 } }

/-! ## §3. Sizes. -/

theorem align_eq (n : Nat) : align n = (n + 7) % 2 ^ 64 / 8 * 8 := SproutLang.align_eq n

/-- An aligned size is a multiple of 8. -/
theorem align_mod (n : Nat) : align n % 8 = 0 := SproutLang.align_mod n

/-- A size rounds up, and within 7 bytes of a chunk it still fits in one. -/
theorem align_bounds {n : Nat} (h : n ≤ CHUNK_SIZE - 7) : n ≤ align n ∧ align n ≤ CHUNK_SIZE := by
  unfold CHUNK_SIZE at h ⊢
  rw [align_eq]
  omega

/-! ## §4. What the arena holds. -/

/-- A chunk as its base and the sizes asked for in it. -/
def toChunk (r : Row Nat) : Chunk := ⟨r.base, r.used align, CHUNK_SIZE⟩

/-- **The arena's chunks are `rows`.** -/
structure Represents (sp : Space) (rows : List (Row Nat)) : Prop where
  chunks : sp.mem.chunks = rows.map toChunk
  allocated : sp.mem.allocated = (rows.map (Row.used align)).sum
  arena : Arena align CHUNK_SIZE rows
  live : ∀ r ∈ rows, r.region CHUNK_SIZE ∈ sp.store.live
  bounded : ∀ r ∈ rows, r.base + CHUNK_SIZE ≤ 2 ^ 48
  small : ∀ r ∈ rows, ∀ n ∈ r.items, n ≤ CHUNK_SIZE - 7

/-- An arena that starts. -/
theorem empty_represents {sp : Space} (hchunks : sp.mem.chunks = [])
    (hallocated : sp.mem.allocated = 0) : Represents sp [] where
  chunks := hchunks
  allocated := hallocated
  arena := ⟨by simp, List.Pairwise.nil⟩
  live := by simp
  bounded := by simp
  small := by simp

section Allocate

variable {sp : Space} {rows : List (Row Nat)} {size : Nat}

/-- No counter wraps: all chunks lie in user space. -/
theorem Represents.allocated_le (h : Represents sp rows) : sp.mem.allocated ≤ 2 ^ 48 := by
  have hlen := h.arena.length_mul_le h.bounded
  have hsum := h.arena.used_sum_le
  rw [h.allocated]
  omega

theorem inStore_ok {α : Type} {x : EStateM Fault Store α} {a : α} {s : Store}
    (h : x sp.store = .ok a s) : inStore x sp = .ok a { sp with store := s } :=
  zoom_ok h

/-- A chunk `malloc` grants is appended. -/
theorem allocChunk_ok {a : Nat}
    (h : sp.store.allocator.place sp.store.calls CHUNK_SIZE sp.store.live = some a) :
    allocChunk sp = .ok ()
      { store := sp.store.afterMalloc a CHUNK_SIZE
        mem :=
          { sp.mem with
            chunks := sp.mem.chunks ++ [{ mem := a, used := 0, size := CHUNK_SIZE }] } } := by
  have hmalloc : malloc CHUNK_SIZE sp.store
      = .ok (some a) (sp.store.afterMalloc a CHUNK_SIZE) := by
    unfold malloc
    rw [h]
  unfold allocChunk
  rw [bind_ok (inStore_ok hmalloc)]
  rfl

/-- A refused one is an exception. -/
theorem allocChunk_refused
    (h : sp.store.allocator.place sp.store.calls CHUNK_SIZE sp.store.live = none) :
    allocChunk sp = .error (.runtimeError "Faulty allocation!")
      { sp with store := { sp.store with calls := sp.store.calls + 1 } } := by
  have hmalloc : malloc CHUNK_SIZE sp.store
      = .ok none { sp.store with calls := sp.store.calls + 1 } := by
    unfold malloc
    rw [h]
  unfold allocChunk
  rw [bind_ok (inStore_ok hmalloc)]
  rfl

/-- The block is cut from the last chunk. -/
theorem takeFromLast_ok {cs : List Chunk} {c : Chunk} (total : Nat)
    (hc : sp.mem.chunks = cs ++ [c]) (hptr : c.mem + c.used < 2 ^ 64)
    (hused : c.used + total < 2 ^ 64) (htotal : sp.mem.allocated + total < 2 ^ 64) :
    takeFromLast total sp = .ok (c.mem + c.used)
      { sp with
        mem :=
          { sp.mem with
            chunks := cs ++ [{ c with used := c.used + total }]
            allocated := sp.mem.allocated + total } } := by
  have hlast : sp.mem.chunks.getLast? = some c := by rw [hc, List.getLast?_concat]
  have hdrop : sp.mem.chunks.dropLast = cs := by rw [hc, List.dropLast_concat]
  unfold takeFromLast
  rw [get_bind]
  simp only [hlast, hdrop, Nat.mod_eq_of_lt hptr, Nat.mod_eq_of_lt hused, Nat.mod_eq_of_lt htotal]
  rfl

/-- With room in the last chunk the block lies behind the ones before. -/
theorem takeFromLast_represents {r : Row Nat} (h : Represents sp (rows ++ [r]))
    (hsize : size ≤ CHUNK_SIZE - 7) (room : r.used align + align size ≤ CHUNK_SIZE) :
    ∃ sp', takeFromLast (align size) sp = .ok (r.base + r.used align) sp' ∧
      Represents sp' (rows ++ [{ r with items := r.items ++ [size] }]) := by
  have hr : r ∈ rows ++ [r] := List.mem_append_right _ (List.mem_singleton_self r)
  have hbound := h.bounded r hr
  have hallocated := h.allocated_le
  have hchunks : sp.mem.chunks = rows.map toChunk ++ [toChunk r] := by
    rw [h.chunks, List.map_append]
    rfl
  unfold CHUNK_SIZE at room hbound
  have hrun := takeFromLast_ok (align size) hchunks
    (show r.base + r.used align < 2 ^ 64 by omega) (show r.used align + align size < 2 ^ 64 by omega)
    (by omega)
  have hused : ({ r with items := r.items ++ [size] } : Row Nat).used align
      = r.used align + align size := extent_concat align r.items size
  -- the other chunks are as they were
  have hrows : ∀ r' ∈ rows ++ [{ r with items := r.items ++ [size] }],
      r' ∈ rows ∨ r' = { r with items := r.items ++ [size] } := by
    intro r' hr'
    simpa using hr'
  refine ⟨_, hrun, ?_, ?_, (Bump.behind rows r room).arena h.arena (align_bounds hsize).2, ?_, ?_, ?_⟩
  · rw [List.map_append, List.map_singleton]
    unfold toChunk
    rw [hused]
  · show sp.mem.allocated + align size = _
    rw [h.allocated]
    simp only [List.map_append, List.map_singleton, List.sum_append, List.sum_singleton, hused]
    omega
  · intro r' hr'
    rcases hrows r' hr' with hold | rfl
    · exact h.live r' (List.mem_append_left _ hold)
    · exact h.live r hr
  · intro r' hr'
    rcases hrows r' hr' with hold | rfl
    · exact h.bounded r' (List.mem_append_left _ hold)
    · exact h.bounded r hr
  · intro r' hr'
    rcases hrows r' hr' with hold | rfl
    · exact h.small r' (List.mem_append_left _ hold)
    · intro n hn
      rcases List.mem_append.1 hn with hn | hn
      · exact h.small r hr n hn
      · rw [List.mem_singleton.1 hn]
        exact hsize

/-- A new chunk is empty and apart from the others. -/
theorem allocChunk_represents (h : Represents sp rows) {a : Nat}
    (hplace : sp.store.allocator.place sp.store.calls CHUNK_SIZE sp.store.live = some a) :
    (∀ r ∈ rows, (r.region CHUNK_SIZE).Apart ⟨a, CHUNK_SIZE⟩) ∧
    ∃ sp', allocChunk sp = .ok () sp' ∧ Represents sp' (rows ++ [⟨a, []⟩]) := by
  have hapart : ∀ r ∈ rows, (r.region CHUNK_SIZE).Apart ⟨a, CHUNK_SIZE⟩ := by
    intro r hr
    exact (sp.store.allocator.apart hplace _ (h.live r hr)).symm
  -- the new row is the last one
  have hrows : ∀ r' ∈ rows ++ [(⟨a, []⟩ : Row Nat)], r' ∈ rows ∨ r' = ⟨a, []⟩ := by
    intro r' hr'
    simpa using hr'
  refine ⟨hapart, _, allocChunk_ok hplace, ?_, ?_, ?_, ?_, ?_, ?_⟩
  · rw [List.map_append, h.chunks]
    rfl
  · show sp.mem.allocated = _
    rw [h.allocated]
    simp [Row.used]
  · constructor
    · intro r' hr'
      rcases hrows r' hr' with hold | rfl
      · exact h.arena.fits r' hold
      · exact Nat.zero_le _
    · refine List.pairwise_append.2 ⟨h.arena.apart, List.pairwise_singleton _ _, ?_⟩
      intro r hr r' hr'
      rw [List.mem_singleton.1 hr']
      exact hapart r hr
  · intro r' hr'
    rcases hrows r' hr' with hold | rfl
    · exact List.mem_cons_of_mem _ (h.live r' hold)
    · exact List.mem_cons_self
  · intro r' hr'
    rcases hrows r' hr' with hold | rfl
    · exact h.bounded r' hold
    · exact Nat.le_of_lt (sp.store.allocator.bounded hplace)
  · intro r' hr'
    rcases hrows r' hr' with hold | rfl
    · exact h.small r' hold
    · intro n hn
      exact absurd hn List.not_mem_nil

/-- The turnover test, on the last chunk. -/
theorem needsChunk_concat {cs : List Chunk} {c : Chunk} {total : Nat}
    (hc : sp.mem.chunks = cs ++ [c]) (hused : c.used + total < 2 ^ 64) :
    needsChunk sp.mem total = decide (CHUNK_SIZE < c.used + total) := by
  unfold needsChunk
  rw [hc, List.getLast?_concat]
  simp only [Nat.mod_eq_of_lt hused]

/-- What a request ends in: `malloc` refuses a chunk and the arena is as before,
or the block is one `Bump` of the arena. -/
def Outcome (sp : Space) (rows : List (Row Nat)) (size : Nat) : Prop :=
  (∃ sp', allocateMemory size sp = .error (.runtimeError "Faulty allocation!") sp' ∧
    sp'.mem = sp.mem ∧ Represents sp' rows) ∨
  ∃ p sp' rows', allocateMemory size sp = .ok p sp' ∧
    Bump align CHUNK_SIZE size rows p rows' ∧ Represents sp' rows'

/-- A request for which a chunk is taken. -/
theorem allocateMemory_opened (h : Represents sp rows) (hsize : size ≤ CHUNK_SIZE - 7)
    (hneeds : needsChunk sp.mem (align size) = true)
    (hfull : ∀ r, rows.getLast? = some r → CHUNK_SIZE < r.used align + align size) :
    Outcome sp rows size := by
  have hfit := (align_bounds hsize).2
  have hbody : allocateMemory size sp = (allocChunk >>= fun _ => takeFromLast (align size)) sp := by
    unfold allocateMemory
    rw [get_bind, if_pos hneeds]
  cases hplace : sp.store.allocator.place sp.store.calls CHUNK_SIZE sp.store.live with
  | none =>
      left
      refine ⟨_, hbody.trans (bind_error (allocChunk_refused hplace)), rfl, ?_⟩
      exact ⟨h.chunks, h.allocated, h.arena, h.live, h.bounded, h.small⟩
  | some a =>
      right
      obtain ⟨hapart, sp₁, halloc, hrep⟩ := allocChunk_represents h hplace
      obtain ⟨sp₂, htake, hrep'⟩ :=
        takeFromLast_represents hrep hsize (by simpa [Row.used] using hfit)
      refine ⟨a, sp₂, rows ++ [⟨a, [size]⟩], ?_, .opened rows a hfull hapart, hrep'⟩
      rw [hbody, bind_ok halloc, htake]
      rfl

/-- **One allocation.** -/
theorem allocateMemory_spec (h : Represents sp rows) (hsize : size ≤ CHUNK_SIZE - 7) :
    Outcome sp rows size := by
  have hfit := (align_bounds hsize).2
  rcases List.eq_nil_or_concat rows with rfl | ⟨rows₀, r, rfl⟩
  · -- the first chunk
    refine allocateMemory_opened h hsize ?_ ?_
    · unfold needsChunk
      rw [h.chunks]
      rfl
    · intro r hr
      exact absurd hr (by simp)
  · rw [List.concat_eq_append] at h ⊢
    have hr : r ∈ rows₀ ++ [r] := List.mem_append_right _ (List.mem_singleton_self r)
    have hchunks : sp.mem.chunks = rows₀.map toChunk ++ [toChunk r] := by
      rw [h.chunks, List.map_append]
      rfl
    have hfits : r.used align ≤ CHUNK_SIZE := h.arena.fits r hr
    have hwrap : (toChunk r).used + align size < 2 ^ 64 := by
      show r.used align + align size < _
      unfold CHUNK_SIZE at hfits hfit
      omega
    have hneeds := needsChunk_concat hchunks hwrap
    by_cases hroom : r.used align + align size ≤ CHUNK_SIZE
    · -- behind the last block
      right
      obtain ⟨sp', hrun, hrep⟩ := takeFromLast_represents h hsize hroom
      refine ⟨_, sp', _, ?_, .behind rows₀ r hroom, hrep⟩
      unfold allocateMemory
      rw [get_bind, if_neg]
      · exact hrun
      · rw [hneeds, decide_eq_true_eq]
        show ¬ CHUNK_SIZE < r.used align + align size
        omega
    · refine allocateMemory_opened h hsize ?_ ?_
      · rw [hneeds, decide_eq_true_eq]
        show CHUNK_SIZE < r.used align + align size
        omega
      · intro r' hr'
        rw [List.getLast?_concat] at hr'
        obtain rfl := Option.some.inj hr'
        omega

/-- `freeMemory` leaves an arena without chunks. -/
theorem freeMemory_spec (sp : Space) :
    ∃ sp', freeMemory sp = .ok () sp' ∧ sp'.mem.chunks = [] ∧ sp'.mem.allocated = 0 := by
  have hfree : ∀ cs s, ∃ s', freeChunks cs s = .ok () s' := by
    intro cs
    induction cs with
    | nil => exact fun s => ⟨s, rfl⟩
    | cons c cs ih =>
        intro s
        obtain ⟨s', hs'⟩ := ih { s with live := s.live.filter (fun r => r.base ≠ c.mem) }
        exact ⟨s', hs'⟩
  obtain ⟨s', hs'⟩ := hfree sp.mem.chunks sp.store
  refine ⟨{ store := s', mem := { sp.mem with chunks := [], allocated := 0 } }, ?_, rfl, rfl⟩
  unfold freeMemory
  rw [get_bind, bind_ok (inStore_ok hs')]
  rfl

end Allocate

/-! ## §5. Runs. -/

/-- A call of the arena, or what else the program does with memory. -/
inductive Op where
  | allocate (size : Nat)
  | free
  /-- The rest of the program, with the same `malloc`. -/
  | elsewhere

/-- The arena with the blocks handed out since it was last freed: where each
lies and the size asked for. -/
structure Traced where
  space : Space
  blocks : List (Nat × Nat)

/-- **One step.**  What happens elsewhere leaves the arena's chunks alone. -/
inductive Step : Traced → Op → Traced → Prop
  | allocated {sp sp' : Space} {blocks : List (Nat × Nat)} {size p : Nat}
      (small : size ≤ CHUNK_SIZE - 7) (run : allocateMemory size sp = .ok p sp') :
      Step ⟨sp, blocks⟩ (.allocate size) ⟨sp', blocks ++ [(p, size)]⟩
  | refused {sp sp' : Space} {blocks : List (Nat × Nat)} {size : Nat} {e : Fault}
      (small : size ≤ CHUNK_SIZE - 7) (run : allocateMemory size sp = .error e sp') :
      Step ⟨sp, blocks⟩ (.allocate size) ⟨sp', blocks⟩
  | freed {sp sp' : Space} {blocks : List (Nat × Nat)} (run : freeMemory sp = .ok () sp') :
      Step ⟨sp, blocks⟩ .free ⟨sp', []⟩
  | elsewhere {sp : Space} {blocks : List (Nat × Nat)} {store : Store}
      (kept : ∀ c ∈ sp.mem.chunks, ⟨c.mem, c.size⟩ ∈ sp.store.live → ⟨c.mem, c.size⟩ ∈ store.live) :
      Step ⟨sp, blocks⟩ .elsewhere ⟨{ sp with store }, blocks⟩

/-- The last chunk grows, or a chunk is appended, or the chunks stay. -/
def OnlyLastGrows (cs cs' : List Chunk) : Prop :=
  cs' = cs ∨ (∃ c, cs' = cs ++ [c]) ∨
    ∃ before c n, cs = before ++ [c] ∧ cs' = before ++ [{ c with used := c.used + n }]

/-- **The invariant**: the blocks lie in the chunks as they were handed out. -/
def Inv (t : Traced) : Prop :=
  ∃ rows, Represents t.space rows ∧ t.blocks = objects align rows

section Runs

variable {t t' : Traced} {op : Op}

/-- **Every step keeps the invariant.** -/
theorem Step.inv (h : Step t op t') (hinv : Inv t) : Inv t' := by
  obtain ⟨rows, hrep, hblocks⟩ := hinv
  -- one case for each step
  cases h with
  | @allocated sp sp' blocks size p small run =>
      rcases allocateMemory_spec hrep small with ⟨sp₁, herror, -, -⟩ | ⟨q, sp₁, rows', hok, hbump, hrep'⟩
      · rw [run] at herror
        exact absurd herror (by simp)
      · rw [run] at hok
        injection hok with hp hsp
        subst hp hsp
        refine ⟨rows', hrep', ?_⟩
        rw [hbump.objects_eq]
        exact congrArg (· ++ [(p, size)]) hblocks
  | @refused sp sp' blocks size e small run =>
      rcases allocateMemory_spec hrep small with ⟨sp₁, herror, -, hrep'⟩ | ⟨q, sp₁, rows', hok, -, -⟩
      · rw [run] at herror
        injection herror with _ hsp
        subst hsp
        exact ⟨rows, hrep', hblocks⟩
      · rw [run] at hok
        exact absurd hok (by simp)
  | @freed sp sp' blocks run =>
      obtain ⟨sp₁, hok, hchunks, hallocated⟩ := freeMemory_spec sp
      rw [run] at hok
      injection hok with _ hsp
      subst hsp
      exact ⟨[], empty_represents hchunks hallocated, rfl⟩
  | @elsewhere sp blocks store kept =>
      refine ⟨rows, ⟨hrep.chunks, hrep.allocated, hrep.arena, ?_, hrep.bounded, hrep.small⟩, hblocks⟩
      intro r hr
      have hc : toChunk r ∈ sp.mem.chunks := by
        rw [hrep.chunks]
        exact List.mem_map_of_mem hr
      exact kept _ hc (hrep.live r hr)

/-- An allocation leaves all chunks but the last as they are. -/
theorem bump_onlyLastGrows {size p : Nat} {rows rows' : List (Row Nat)}
    (h : Bump align CHUNK_SIZE size rows p rows') :
    OnlyLastGrows (rows.map toChunk) (rows'.map toChunk) := by
  cases h with
  | behind rows r room =>
      refine Or.inr (Or.inr ⟨rows.map toChunk, toChunk r, align size, by simp, ?_⟩)
      rw [List.map_append, List.map_singleton]
      unfold toChunk Row.used
      rw [extent_concat]
  | opened => exact Or.inr (Or.inl ⟨toChunk ⟨p, [size]⟩, by simp⟩)

/-- No step but `freeMemory` touches a chunk before the last. -/
theorem Step.onlyLastGrows (h : Step t op t') (hinv : Inv t) :
    op = .free ∨ OnlyLastGrows t.space.mem.chunks t'.space.mem.chunks := by
  obtain ⟨rows, hrep, -⟩ := hinv
  cases h with
  | @allocated sp sp' blocks size p small run =>
      rcases allocateMemory_spec hrep small with ⟨sp₁, herror, -, -⟩ | ⟨q, sp₁, rows', hok, hbump, hrep'⟩
      · rw [run] at herror
        exact absurd herror (by simp)
      · rw [run] at hok
        injection hok with _ hsp
        subst hsp
        right
        rw [hrep.chunks, hrep'.chunks]
        exact bump_onlyLastGrows hbump
  | @refused sp sp' blocks size e small run =>
      rcases allocateMemory_spec hrep small with ⟨sp₁, herror, hmem, -⟩ | ⟨q, sp₁, rows', hok, -, -⟩
      · rw [run] at herror
        injection herror with _ hsp
        subst hsp
        exact Or.inr (Or.inl (by rw [hmem]))
      · rw [run] at hok
        exact absurd hok (by simp)
  | freed => exact Or.inl rfl
  | elsewhere => exact Or.inr (Or.inl rfl)

/-- Where a block of the invariant lies. -/
theorem Inv.inside (hinv : Inv t) {b : Nat × Nat} (hb : b ∈ t.blocks) :
    ∃ c ∈ t.space.mem.chunks, (⟨c.mem, CHUNK_SIZE⟩ : Region) ∈ t.space.store.live ∧
      c.mem ≤ b.1 ∧ (b.1 - c.mem) % 8 = 0 ∧
      b.2 ≤ align b.2 ∧ b.1 + align b.2 ≤ c.mem + c.used ∧ c.used ≤ CHUNK_SIZE := by
  obtain ⟨rows, hrep, hblocks⟩ := hinv
  rw [hblocks] at hb
  obtain ⟨r, hr, hplaced, hlo, hused, -⟩ := hrep.arena.inside hb
  obtain ⟨k, hk, hmod⟩ := placed_distance align (fun n _ => align_mod n) hplaced
  have hmem : b.2 ∈ (placed align r.base r.items).map Prod.snd := List.mem_map_of_mem hplaced
  rw [placed_map_snd] at hmem
  refine ⟨toChunk r, ?_, hrep.live r hr, hlo, ?_, (align_bounds (hrep.small r hr _ hmem)).1, hused,
    hrep.arena.fits r hr⟩
  · rw [hrep.chunks]
    exact List.mem_map_of_mem hr
  · show (b.1 - r.base) % 8 = 0
    rw [hk, Nat.add_sub_cancel_left]
    exact hmod

end Runs

/-- **The blocks of an arena**, after any sequence of steps from an empty one.
Chunk by chunk they are laid out back to back in allocation order; each lies in
the used part of one chunk at a multiple of 8 from its base; no two overlap;
only the last chunk grows; `allocated` is the total of the used parts. -/
theorem arena_blocks {sp : Space} {ops : List Op} {t : Traced} (hchunks : sp.mem.chunks = [])
    (hallocated : sp.mem.allocated = 0) (hrun : Steps Step ⟨sp, []⟩ ops t) :
    (∃ rows : List (Row Nat),
      t.space.mem.chunks = rows.map toChunk ∧ t.blocks = objects align rows) ∧
    (∀ b ∈ t.blocks, ∃ c ∈ t.space.mem.chunks,
      (⟨c.mem, CHUNK_SIZE⟩ : Region) ∈ t.space.store.live ∧
      c.mem ≤ b.1 ∧ (b.1 - c.mem) % 8 = 0 ∧
      b.2 ≤ align b.2 ∧ b.1 + align b.2 ≤ c.mem + c.used ∧ c.used ≤ CHUNK_SIZE) ∧
    t.blocks.Pairwise (fun b b' => Region.Apart ⟨b.1, align b.2⟩ ⟨b'.1, align b'.2⟩) ∧
    (∀ op t', Step t op t' →
      op = .free ∨ OnlyLastGrows t.space.mem.chunks t'.space.mem.chunks) ∧
    t.space.mem.allocated = (t.space.mem.chunks.map Chunk.used).sum := by
  have hinv : Inv t :=
    hrun.invariant Inv ⟨[], empty_represents hchunks hallocated, rfl⟩ fun _ _ _ h hs => hs.inv h
  obtain ⟨rows, hrep, hblocks⟩ := hinv
  refine ⟨⟨rows, hrep.chunks, hblocks⟩, ?_, ?_, ?_, ?_⟩
  · intro b hb
    exact Inv.inside ⟨rows, hrep, hblocks⟩ hb
  · rw [hblocks]
    exact hrep.arena.pairwise_apart
  · intro op t' hstep
    exact hstep.onlyLastGrows ⟨rows, hrep, hblocks⟩
  · rw [hrep.allocated, hrep.chunks, List.map_map]
    rfl

/-- Two blocks and a fresh start: the second one fills a chunk to its end. -/
theorem arena_blocks_ascending :
    ∃ t, Steps Step ⟨⟨⟨.ascending, [], fun _ => 0, 0⟩, ⟨[], 0, 0⟩⟩, []⟩
        [.allocate 5, .allocate (CHUNK_SIZE - 7), .free, .allocate 16] t ∧
      t.blocks.length = 1 ∧ t.space.mem.allocated = (t.space.mem.chunks.map Chunk.used).sum := by
  have hrun : Steps Step ⟨⟨⟨.ascending, [], fun _ => 0, 0⟩, ⟨[], 0, 0⟩⟩, []⟩
      ([] ++ [Op.allocate 5] ++ [Op.allocate (CHUNK_SIZE - 7)] ++ [Op.free] ++ [Op.allocate 16]) _ :=
    .snoc (.snoc (.snoc (.snoc (.nil _) (.allocated (by decide) rfl)) (.allocated (by decide) rfl))
      (.freed rfl)) (.allocated (by decide) rfl)
  exact ⟨_, hrun, rfl, (arena_blocks rfl rfl hrun).2.2.2.2⟩

end SproutLang.Compiler.MemManager
