/-
  SproutLang.VM.FunctionTable
  ───────────────────────────
  **THE LOADER ON ANY FILE.**

  `wordAt` is a word of the file as a number.  The loop of
  `loadFunctionTable` is followed word by word: it returns, throws, or leaves
  the file or the table.

    • `loadEntries_ok`    — the table a file inside the limits is loaded to,
    • `loader_safe_iff`   — the files on which nothing outside the file or the
                            table is touched.
-/
import SproutLang.VM.InstructionStream

namespace SproutLang

open Library

/-! ## §1. Words of a file. -/

/-- The four bytes at `i`, highest first. -/
def wordAt (bytes : List Byte) (i : Nat) : Nat := ofBytes ((bytes.drop i).take 4)

section Words

variable {bytes : List Byte} {i : Nat}

/-- Inside the file there is a word. -/
theorem readU32_inside (h : i + 4 ≤ bytes.length) :
    readU32 bytes i = some (BitVec.ofNat 32 (wordAt bytes i)) := by
  have hdrop : (bytes.drop i).take 4 = [bytes[i], bytes[i + 1], bytes[i + 2], bytes[i + 3]] := by
    rw [List.drop_eq_getElem_cons (by omega), List.drop_eq_getElem_cons (by omega),
      List.drop_eq_getElem_cons (by omega), List.drop_eq_getElem_cons (by omega)]
    rfl
  unfold readU32 wordAt
  rw [List.getElem?_eq_getElem (by omega), List.getElem?_eq_getElem (by omega),
    List.getElem?_eq_getElem (by omega), List.getElem?_eq_getElem (by omega), hdrop,
    ← toNat_joinBytes]
  show some _ = some _
  rw [BitVec.ofNat_toNat, BitVec.setWidth_eq]

/-- A word that is not inside the file is not there. -/
theorem readU32_outside (h : bytes.length < i + 4) : readU32 bytes i = none := by
  cases hread : readU32 bytes i with
  | none => rfl
  | some w =>
      have hbound := readU32_bound hread
      omega

/-- A word of the image has 32 bits. -/
theorem wordAt_lt (h : i + 4 ≤ bytes.length) : wordAt bytes i < 2 ^ 32 := by
  have hdrop : (bytes.drop i).take 4 = [bytes[i], bytes[i + 1], bytes[i + 2], bytes[i + 3]] := by
    rw [List.drop_eq_getElem_cons (by omega), List.drop_eq_getElem_cons (by omega),
      List.drop_eq_getElem_cons (by omega), List.drop_eq_getElem_cons (by omega)]
    rfl
  unfold wordAt
  rw [hdrop, ← toNat_joinBytes]
  exact BitVec.isLt _

end Words

/-! ## §2. The header. -/

/-- A header `loadHeader` lets pass. -/
def ValidHeader (bytes : List Byte) : Prop :=
  SIZEOF_BCHEADER ≤ bytes.length ∧ wordAt bytes 0 = SPROUT_LANG_MAGIC.toNat ∧
    wordAt bytes 4 = SPROUT_LANG_VERSION.toNat

instance (bytes : List Byte) : Decidable (ValidHeader bytes) := inferInstanceAs (Decidable (_ ∧ _))

/-- The fields of the header as they stand in the file. -/
def fileHeader (bytes : List Byte) : BCHeader where
  magic := BitVec.ofNat 32 (wordAt bytes 0)
  version := BitVec.ofNat 32 (wordAt bytes 4)
  flags := BitVec.ofNat 32 (wordAt bytes 8)
  importCount := BitVec.ofNat 32 (wordAt bytes 12)
  functionCount := BitVec.ofNat 32 (wordAt bytes 16)
  importOffset := BitVec.ofNat 32 (wordAt bytes 20)
  functionOffset := BitVec.ofNat 32 (wordAt bytes 24)
  codeOffset := BitVec.ofNat 32 (wordAt bytes 28)

/-- A word read is a constant if its number is. -/
theorem ofNat_wordAt_eq {bytes : List Byte} {i : Nat} {v : BitVec 32}
    (h : i + 4 ≤ bytes.length) : BitVec.ofNat 32 (wordAt bytes i) = v ↔ wordAt bytes i = v.toNat := by
  have hlt := wordAt_lt h
  rw [← BitVec.toNat_inj, BitVec.toNat_ofNat, Nat.mod_eq_of_lt hlt]

/-- A file shorter than its header is refused. -/
theorem loadHeader_short {bytes : List Byte} (h : bytes.length < SIZEOF_BCHEADER) :
    loadHeader bytes = .error (.runtimeError "Bytecode too small to contain a header") := by
  unfold loadHeader
  rw [if_pos h]
  rfl

/-- Behind the check of the length every field is inside the file. -/
theorem loadHeader_long {bytes : List Byte} (h : SIZEOF_BCHEADER ≤ bytes.length) :
    loadHeader bytes =
      if BitVec.ofNat 32 (wordAt bytes 0) ≠ SPROUT_LANG_MAGIC then
        .error (.runtimeError "Invalid bytecode file! SPRT Magic missing!")
      else if BitVec.ofNat 32 (wordAt bytes 4) ≠ SPROUT_LANG_VERSION then
        .error (.runtimeError "Unsupported bytecode version")
      else .ok (fileHeader bytes) := by
  have hlen : 32 ≤ bytes.length := h
  have hfield : ∀ i, i + 4 ≤ 32 →
      headerField bytes i = .ok (BitVec.ofNat 32 (wordAt bytes i)) := by
    intro i hi
    unfold headerField
    rw [readU32_inside (by omega)]
  have hbind : ∀ {α β : Type} (a : α) (f : α → Except Fault β), (Except.ok a >>= f) = f a :=
    fun _ _ => rfl
  unfold loadHeader
  rw [if_neg (Nat.not_lt.2 h)]
  simp only [hfield 0 (by decide), hfield 4 (by decide), hfield 8 (by decide),
    hfield 12 (by decide), hfield 16 (by decide), hfield 20 (by decide),
    hfield 24 (by decide), hfield 28 (by decide), hbind]
  by_cases hmagic : BitVec.ofNat 32 (wordAt bytes 0) ≠ SPROUT_LANG_MAGIC
  · rw [if_pos hmagic, if_pos hmagic]
    rfl
  · rw [if_neg hmagic, if_neg hmagic]
    by_cases hversion : BitVec.ofNat 32 (wordAt bytes 4) ≠ SPROUT_LANG_VERSION
    · rw [if_pos hversion, if_pos hversion]
      rfl
    · rw [if_neg hversion, if_neg hversion]
      rfl

/-- **`loadHeader`** throws, or returns the fields in the file. -/
theorem loadHeader_cases (bytes : List Byte) :
    (¬ ValidHeader bytes ∧ ∃ what, loadHeader bytes = .error (.runtimeError what)) ∨
      (ValidHeader bytes ∧ loadHeader bytes = .ok (fileHeader bytes)) := by
  by_cases hshort : bytes.length < SIZEOF_BCHEADER
  · refine Or.inl ⟨fun hvalid => ?_, _, loadHeader_short hshort⟩
    have hlen := hvalid.1
    omega
  · have hlong : SIZEOF_BCHEADER ≤ bytes.length := Nat.not_lt.1 hshort
    have hlen : 32 ≤ bytes.length := hlong
    rw [loadHeader_long hlong]
    by_cases hmagic : BitVec.ofNat 32 (wordAt bytes 0) = SPROUT_LANG_MAGIC
    · rw [if_neg (not_not.2 hmagic)]
      by_cases hversion : BitVec.ofNat 32 (wordAt bytes 4) = SPROUT_LANG_VERSION
      · rw [if_neg (not_not.2 hversion)]
        rw [ofNat_wordAt_eq (by omega)] at hmagic hversion
        exact Or.inr ⟨⟨hlong, hmagic, hversion⟩, rfl⟩
      · rw [if_pos hversion]
        rw [ofNat_wordAt_eq (by omega)] at hversion
        exact Or.inl ⟨fun hvalid => hversion hvalid.2.2, _, rfl⟩
    · rw [if_pos hmagic]
      rw [ofNat_wordAt_eq (by omega)] at hmagic
      exact Or.inl ⟨fun hvalid => hmagic hvalid.2.1, _, rfl⟩

/-! ## §3. The function table. -/

section Fetch

variable {vm : VM} {addr : BitVec 32}

/-- The check of `fetchAtAddr`. -/
theorem fetchAtAddr_end (h : vm.bytecode.bytes.length ≤ addr.toNat) :
    fetchAtAddr addr vm = .error (.runtimeError "Instruction pointer out of bounds") vm := if_pos h

/-- A word inside the image can be fetched. -/
theorem fetchAtAddr_inside (h : addr.toNat + 4 ≤ vm.bytecode.bytes.length) :
    fetchAtAddr addr vm = .ok (BitVec.ofNat 32 (wordAt vm.bytecode.bytes addr.toNat)) vm := by
  unfold fetchAtAddr
  rw [if_neg (by omega), readU32_inside h]

/-- A word of which only the first bytes are there passes the check. -/
theorem fetchAtAddr_cut (h : addr.toNat < vm.bytecode.bytes.length)
    (hcut : vm.bytecode.bytes.length < addr.toNat + 4) :
    fetchAtAddr addr vm = .error .undefinedBehaviour vm := by
  unfold fetchAtAddr
  rw [if_neg (by omega), readU32_outside hcut]

/-- An address that does not wrap. -/
theorem toNat_add_of_lt {n : Nat} (h : addr.toNat + n < 2 ^ 32) :
    (addr + BitVec.ofNat 32 n).toNat = addr.toNat + n := by
  rw [BitVec.toNat_add, BitVec.toNat_ofNat, Nat.mod_eq_of_lt (show n < 2 ^ 32 by omega),
    Nat.mod_eq_of_lt h]

end Fetch

/-- The entry that stands at `a`. -/
def entryAt (bytes : List Byte) (a : Nat) : FunctionInfo where
  entryIP := BitVec.ofNat 32 (wordAt bytes a)
  frameSize := (BitVec.ofNat 32 (wordAt bytes (a + 4))).setWidth 16

/-- An entry inside the file is read. -/
theorem fetchFuncMetadata_inside {vm : VM} {addr : BitVec 32}
    (h : addr.toNat + 8 ≤ vm.bytecode.bytes.length) (hwrap : addr.toNat + 4 < 2 ^ 32) :
    fetchFuncMetadata addr vm = .ok (entryAt vm.bytecode.bytes addr.toNat) vm := by
  have hsecond : (addr + 4).toNat = addr.toNat + 4 := toNat_add_of_lt hwrap
  unfold fetchFuncMetadata
  rw [bind_ok (fetchAtAddr_inside (by omega)), bind_ok (fetchAtAddr_inside (by omega)), hsecond]
  rfl

/-- An entry of the table can be set. -/
theorem setFunction_ok {i : Nat} (h : i < FUNCTION_TABLE_SIZE) (f : FunctionInfo) (vm : VM) :
    setFunction i f vm = .ok () { vm with functionTable := Function.update vm.functionTable i f } :=
  if_pos h

/-- One behind its end cannot. -/
theorem setFunction_outside {i : Nat} (h : FUNCTION_TABLE_SIZE ≤ i) (f : FunctionInfo) (vm : VM) :
    setFunction i f vm = .error .undefinedBehaviour vm := if_neg (by omega)

/-- **The table of a file that holds it.** -/
theorem loadEntries_ok (count : Nat) :
    ∀ (i : Nat) (addr : BitVec 32) (vm : VM), i + count ≤ FUNCTION_TABLE_SIZE →
      addr.toNat + 8 * count ≤ vm.bytecode.bytes.length → addr.toNat + 8 * count < 2 ^ 32 →
      ∃ table, loadEntries count i addr vm = .ok () { vm with functionTable := table } ∧
        (∀ k < count, table (i + k) = entryAt vm.bytecode.bytes (addr.toNat + 8 * k)) ∧
        ∀ j, j < i ∨ i + count ≤ j → table j = vm.functionTable j := by
  -- on the entries left; `i` and `addr` step together
  induction count with
  | zero =>
      intro i addr vm _ _ _
      exact ⟨vm.functionTable, rfl, fun k hk => absurd hk (by omega), fun j _ => rfl⟩
  | succ count ih =>
      intro i addr vm hi hfile hwrap
      have hnext : (addr + BitVec.ofNat 32 8).toNat = addr.toNat + 8 := toNat_add_of_lt (by omega)
      have hfetch := @fetchFuncMetadata_inside vm addr (by omega) (by omega)
      let f := entryAt vm.bytecode.bytes addr.toNat
      have hset := setFunction_ok (show i < FUNCTION_TABLE_SIZE by omega) f vm
      obtain ⟨table, hrest, hentries, hbefore⟩ := ih (i + 1) (addr + BitVec.ofNat 32 8)
        { vm with functionTable := Function.update vm.functionTable i f }
        (by omega) (by rw [hnext]; show _ ≤ vm.bytecode.bytes.length; omega) (by omega)
      refine ⟨table, ?_, fun k hk => ?_, fun j hj => ?_⟩
      · unfold loadEntries
        rw [bind_ok hfetch, bind_ok hset]
        exact hrest
      · -- the entry read first, or one of the rest
        cases k with
        | zero =>
            rw [Nat.add_zero, hbefore i (Or.inl (Nat.lt_succ_self i))]
            exact Function.update_self ..
        | succ k =>
            have hentry := hentries k (by omega)
            rw [hnext] at hentry
            rw [show i + (k + 1) = i + 1 + k by omega, hentry]
            show entryAt vm.bytecode.bytes _ = _
            rw [show addr.toNat + 8 + 8 * k = addr.toNat + 8 * (k + 1) by omega]
      · rw [hbefore j (by omega)]
        exact Function.update_of_ne (by omega) ..

/-! ## §4. What the loop does. -/

section Round

variable {vm : VM} {addr : BitVec 32} {i count : Nat}

/-- The file ends in front of one of the two words. -/
theorem loadEntries_end
    (h : vm.bytecode.bytes.length ≤ addr.toNat ∨
      (vm.bytecode.bytes.length = addr.toNat + 4 ∧ addr.toNat + 4 < 2 ^ 32)) :
    loadEntries (count + 1) i addr vm
      = .error (.runtimeError "Instruction pointer out of bounds") vm := by
  unfold loadEntries fetchFuncMetadata
  rcases h with hend | ⟨hend, hwrap⟩
  · rw [bind_error (bind_error (fetchAtAddr_end hend))]
  · have hsecond : (addr + 4).toNat = addr.toNat + 4 := toNat_add_of_lt hwrap
    rw [bind_error]
    rw [bind_ok (fetchAtAddr_inside (by omega)), bind_error (fetchAtAddr_end (by omega))]

/-- The file ends inside one of them. -/
theorem loadEntries_cut (hfile : vm.bytecode.bytes.length < 2 ^ 32)
    (h : addr.toNat < vm.bytecode.bytes.length)
    (hcut : vm.bytecode.bytes.length < addr.toNat + 8)
    (hend : vm.bytecode.bytes.length ≠ addr.toNat + 4) :
    loadEntries (count + 1) i addr vm = .error .undefinedBehaviour vm := by
  unfold loadEntries fetchFuncMetadata
  by_cases hfirst : vm.bytecode.bytes.length < addr.toNat + 4
  · rw [bind_error (bind_error (fetchAtAddr_cut h hfirst))]
  · have hwrap : addr.toNat + 4 < 2 ^ 32 := by omega
    have hsecond : (addr + 4).toNat = addr.toNat + 4 := toNat_add_of_lt hwrap
    rw [bind_error]
    rw [bind_ok (fetchAtAddr_inside (by omega)),
      bind_error (fetchAtAddr_cut (by omega) (by omega))]

/-- The table is full. -/
theorem loadEntries_full (h : addr.toNat + 8 ≤ vm.bytecode.bytes.length)
    (hwrap : addr.toNat + 4 < 2 ^ 32) (hfull : FUNCTION_TABLE_SIZE ≤ i) :
    loadEntries (count + 1) i addr vm = .error .undefinedBehaviour vm := by
  unfold loadEntries
  rw [bind_ok (fetchFuncMetadata_inside h hwrap), bind_error (setFunction_outside hfull _ _)]

/-- An entry is loaded, and the loop goes on. -/
theorem loadEntries_next (h : addr.toNat + 8 ≤ vm.bytecode.bytes.length)
    (hwrap : addr.toNat + 4 < 2 ^ 32) (htable : i < FUNCTION_TABLE_SIZE) :
    loadEntries (count + 1) i addr vm
      = loadEntries count (i + 1) (addr + BitVec.ofNat 32 8)
          { vm with functionTable := Function.update vm.functionTable i
                      (entryAt vm.bytecode.bytes addr.toNat) } := by
  conv_lhs => unfold loadEntries
  rw [bind_ok (fetchFuncMetadata_inside h hwrap), bind_ok (setFunction_ok htable _ _)]
  rfl

end Round

section Loop

variable {vm' : VM}

/-- A loop that returns has written entries of the table only. -/
theorem loadEntries_bound (count : Nat) :
    ∀ (i : Nat) (addr : BitVec 32) (vm : VM), i ≤ FUNCTION_TABLE_SIZE →
      loadEntries count i addr vm = .ok () vm' → i + count ≤ FUNCTION_TABLE_SIZE := by
  induction count with
  | zero =>
      intro i addr vm hi _
      exact hi
  | succ count ih =>
      intro i addr vm hi h
      unfold loadEntries at h
      obtain ⟨f, vm₁, hfetch, h⟩ := bind_eq_ok.1 h
      obtain ⟨_, vm₂, hset, hmore⟩ := bind_eq_ok.1 h
      by_cases htable : i < FUNCTION_TABLE_SIZE
      · have hbound := ih (i + 1) _ _ htable hmore
        omega
      · rw [setFunction_outside (Nat.not_lt.1 htable)] at hset
        exact absurd hset (by simp)

/-- In a file of `2^32` bytes no 32-bit address fails the check. -/
theorem loadEntries_large (count : Nat) :
    ∀ (i : Nat) (addr : BitVec 32) (vm : VM), 2 ^ 32 ≤ vm.bytecode.bytes.length →
      ∀ what, loadEntries count i addr vm ≠ .error (.runtimeError what) vm' := by
  -- with 2^32 bytes the check of `fetchAtAddr` never throws
  have hfetch : ∀ (addr : BitVec 32) (vm vm' : VM), 2 ^ 32 ≤ vm.bytecode.bytes.length →
      ∀ what, fetchAtAddr addr vm ≠ .error (.runtimeError what) vm' := by
    intro addr vm vm' hlarge what h
    have haddr := addr.isLt
    by_cases hcut : addr.toNat + 4 ≤ vm.bytecode.bytes.length
    · rw [fetchAtAddr_inside hcut] at h
      exact absurd h (by simp)
    · rw [fetchAtAddr_cut (by omega) (by omega)] at h
      exact absurd h (by simp)
  induction count with
  | zero =>
      intro i addr vm _ what h
      exact absurd h (by simp [loadEntries])
  | succ count ih =>
      intro i addr vm hlarge what h
      unfold loadEntries at h
      rcases bind_eq_error.1 h with hmetadata | ⟨f, vm₁, hmetadata, hrest⟩
      · unfold fetchFuncMetadata at hmetadata
        rcases bind_eq_error.1 hmetadata with hentry | ⟨_, vm₁, hentry, hframe⟩
        · exact hfetch addr vm vm' hlarge what hentry
        · obtain ⟨-, rfl⟩ := fetchAtAddr_effect hentry
          rcases bind_eq_error.1 hframe with hframe₁ | ⟨_, vm₂, -, hreturn⟩
          · exact hfetch _ vm₁ vm' hlarge what hframe₁
          · exact absurd hreturn (by simp)
      · obtain ⟨-, rfl⟩ := fetchFuncMetadata_effect hmetadata
        by_cases htable : i < FUNCTION_TABLE_SIZE
        · rw [bind_ok (setFunction_ok htable f vm₁)] at hrest
          refine ih _ _ { vm₁ with functionTable := Function.update vm₁.functionTable i f } ?_ what hrest
          exact hlarge
        · rw [bind_error (setFunction_outside (Nat.not_lt.1 htable) f vm₁)] at hrest
          exact absurd hrest (by simp)

end Loop

/-- **The files and tables the loop handles**: `count` entries from `addr` on,
to be written from entry `i` on.  They are all in the file and in the table;
or the file ends before them, between two words, and what comes before its
end fits into the table. -/
def EntriesSafe (length i count addr : Nat) : Prop :=
  (i + count ≤ FUNCTION_TABLE_SIZE ∧ addr + 8 * count ≤ length ∧ addr + 8 * count < 2 ^ 32) ∨
    (length < addr + 8 * count ∧ length < 2 ^ 32 ∧
      (length ≤ addr ∨ ((length - addr) % 4 = 0 ∧ i + (length - addr) / 8 ≤ FUNCTION_TABLE_SIZE)))

instance (length i count addr : Nat) : Decidable (EntriesSafe length i count addr) :=
  inferInstanceAs (Decidable (_ ∨ _))

/-- Thrown, or returned without a sum that wraps around. -/
def Handled {α : Type} (result : EStateM.Result Fault VM α) (noWrap : α → Prop) : Prop :=
  (∃ what vm', result = .error (.runtimeError what) vm') ∨ ∃ a vm', result = .ok a vm' ∧ noWrap a

/-- Undefined behaviour is not handled. -/
theorem not_handled_of_ub {α : Type} {result : EStateM.Result Fault VM α} {noWrap : α → Prop}
    {vm' : VM} (h : result = .error .undefinedBehaviour vm') : ¬ Handled result noWrap := by
  intro hcases
  rcases hcases with ⟨what, vm'', hthrow⟩ | ⟨a, vm'', hok, -⟩
  · rw [h] at hthrow
    exact absurd hthrow (by simp)
  · rw [h] at hok
    exact absurd hok (by simp)

/-- **The loop**, in a file of less than `2^32` bytes. -/
theorem loadEntries_small (count : Nat) :
    ∀ (i : Nat) (addr : BitVec 32) (vm : VM), i ≤ FUNCTION_TABLE_SIZE →
      vm.bytecode.bytes.length < 2 ^ 32 →
      (Handled (loadEntries count i addr vm) (fun _ => addr.toNat + 8 * count < 2 ^ 32) ↔
        EntriesSafe vm.bytecode.bytes.length i count addr.toNat) := by
  induction count with
  | zero =>
      intro i addr vm hi hsmall
      have haddr := addr.isLt
      unfold EntriesSafe
      refine ⟨fun _ => by omega, fun _ => Or.inr ⟨(), vm, rfl, by omega⟩⟩
  | succ count ih =>
      intro i addr vm hi hsmall
      have haddr := addr.isLt
      -- at the end of the file, where `fetchAtAddr` throws
      by_cases hend : vm.bytecode.bytes.length ≤ addr.toNat ∨
          (vm.bytecode.bytes.length = addr.toNat + 4 ∧ addr.toNat + 4 < 2 ^ 32)
      · unfold EntriesSafe
        exact ⟨fun _ => by omega, fun _ => Or.inl ⟨_, _, loadEntries_end hend⟩⟩
      · by_cases hentry : addr.toNat + 8 ≤ vm.bytecode.bytes.length
        · have hwrap : addr.toNat + 4 < 2 ^ 32 := by omega
          by_cases htable : i < FUNCTION_TABLE_SIZE
          · have hnext : (addr + BitVec.ofNat 32 8).toNat = addr.toNat + 8 :=
              toNat_add_of_lt (by omega)
            let f := entryAt vm.bytecode.bytes addr.toNat
            have hiff := ih (i + 1) (addr + BitVec.ofNat 32 8)
              { vm with functionTable := Function.update vm.functionTable i f } htable hsmall
            rw [hnext] at hiff
            rw [loadEntries_next hentry hwrap htable,
              show addr.toNat + 8 * (count + 1) = addr.toNat + 8 + 8 * count by omega, hiff]
            show EntriesSafe vm.bytecode.bytes.length _ _ _ ↔ _
            unfold EntriesSafe
            omega
          · -- `functionTable[2048]`
            have hub := @loadEntries_full vm addr i count hentry hwrap (Nat.not_lt.1 htable)
            unfold EntriesSafe
            exact ⟨fun h => absurd h (not_handled_of_ub hub), fun _ => by omega⟩
        · -- a word that is cut off
          have hub := @loadEntries_cut vm addr i count hsmall (by omega) (by omega) (by omega)
          unfold EntriesSafe
          exact ⟨fun h => absurd h (not_handled_of_ub hub), fun _ => by omega⟩

/-- **The loop** in any file. -/
theorem loadEntries_handled_iff (count i : Nat) (addr : BitVec 32) (vm : VM)
    (hi : i ≤ FUNCTION_TABLE_SIZE) :
    Handled (loadEntries count i addr vm) (fun _ => addr.toNat + 8 * count < 2 ^ 32) ↔
      EntriesSafe vm.bytecode.bytes.length i count addr.toNat := by
  by_cases hsmall : vm.bytecode.bytes.length < 2 ^ 32
  · exact loadEntries_small count i addr vm hi hsmall
  · have hlarge : 2 ^ 32 ≤ vm.bytecode.bytes.length := Nat.not_lt.1 hsmall
    constructor
    · intro hcases
      rcases hcases with ⟨what, vm', hthrow⟩ | ⟨_, vm', hok, hwrap⟩
      · exact absurd hthrow (loadEntries_large count i addr vm hlarge what)
      · exact Or.inl ⟨loadEntries_bound count i addr vm hi hok, by omega, hwrap⟩
    · intro hcases
      rcases hcases with ⟨htable, hfile, hwrap⟩ | ⟨-, hlt, -⟩
      · obtain ⟨table, hok, -⟩ := loadEntries_ok count i addr vm htable hfile hwrap
        exact Or.inr ⟨(), _, hok, hwrap⟩
      · exact absurd hlt hsmall

/-! ## §5. The loader. -/

/-- `loadHeader` and `loadFunctionTable`, as `init` calls them. -/
def loadTables : Exec BCHeader := do
  let vm ← get
  match loadHeader vm.bytecode.bytes with
  | .error fault => throw fault
  | .ok header => do
      modify fun vm => { vm with header := header }
      loadFunctionTable header
      return header

/-- Header and table are loaded one after the other. -/
theorem loadTables_eq_ok {vm vm' : VM} {header : BCHeader} :
    loadTables vm = .ok header vm' ↔
      loadHeader vm.bytecode.bytes = .ok header ∧
        loadFunctionTable header { vm with header := header } = .ok () vm' := by
  unfold loadTables
  rw [get_bind]
  -- the header decides first
  cases loadHeader vm.bytecode.bytes with
  | error e => exact ⟨fun h => absurd h (by simp), fun h => absurd h.1 (by simp)⟩
  | ok header₀ =>
      simp only
      rw [bind_ok (modify_apply _)]
      constructor
      · intro h
        obtain ⟨_, vm₁, htable, hreturn⟩ := bind_eq_ok.1 h
        injection hreturn with hheader hvm
        subst hheader hvm
        exact ⟨rfl, htable⟩
      · intro ⟨hheader, htable⟩
        injection hheader with hheader
        subst hheader
        rw [bind_ok htable]
        rfl

/-- `addr` after `k` rounds of the loop. -/
def addrAt (functionOffset : BitVec 32) : Nat → BitVec 32
  | 0 => functionOffset
  | k + 1 => addrAt functionOffset k + BitVec.ofNat 32 SIZEOF_FUNCTION_INFO

/-- **No address wraps around**: neither that of the second word of an entry
nor that of the next entry. -/
def NoWrap (header : BCHeader) : Prop :=
  ∀ k < header.functionCount.toNat,
    (addrAt header.functionOffset k + 4).toNat = (addrAt header.functionOffset k).toNat + 4 ∧
    (addrAt header.functionOffset (k + 1)).toNat
      = (addrAt header.functionOffset k).toNat + SIZEOF_FUNCTION_INFO

theorem toNat_addrAt {functionOffset : BitVec 32} {k : Nat}
    (h : functionOffset.toNat + 8 * k < 2 ^ 32) :
    (addrAt functionOffset k).toNat = functionOffset.toNat + 8 * k := by
  induction k with
  | zero => rfl
  | succ k ih =>
      have hk := ih (by omega)
      have hsum : (addrAt functionOffset k).toNat + 8 < 2 ^ 32 := by omega
      show (addrAt functionOffset k + BitVec.ofNat 32 8).toNat = _
      rw [toNat_add_of_lt hsum]
      omega

/-- It is the address behind the table that counts. -/
theorem noWrap_iff (header : BCHeader) :
    NoWrap header ↔ header.functionOffset.toNat + 8 * header.functionCount.toNat < 2 ^ 32 := by
  constructor
  · intro h
    -- without a wrap the addresses are those of a counter
    have haddr : ∀ k ≤ header.functionCount.toNat,
        (addrAt header.functionOffset k).toNat = header.functionOffset.toNat + 8 * k := by
      intro k hk
      induction k with
      | zero => rfl
      | succ k ih =>
          rw [(h k hk).2, ih (by omega)]
          show _ + 8 = _
          omega
    rw [← haddr _ (Nat.le_refl _)]
    exact BitVec.isLt _
  · intro hend k hk
    have hk₀ := @toNat_addrAt header.functionOffset k (by omega)
    have hk₁ := @toNat_addrAt header.functionOffset (k + 1) (by omega)
    have hsum : (addrAt header.functionOffset k).toNat + 4 < 2 ^ 32 := by omega
    refine ⟨toNat_add_of_lt hsum, ?_⟩
    rw [hk₀, hk₁]
    show _ = _ + 8
    omega

/-- **The files the loader handles**: those with a header it rejects, and
those whose header names a table that `EntriesSafe` describes. -/
def LoadSafe (bytes : List Byte) : Prop :=
  ValidHeader bytes → EntriesSafe bytes.length 0 (wordAt bytes 16) (wordAt bytes 24)

instance (bytes : List Byte) : Decidable (LoadSafe bytes) := inferInstanceAs (Decidable (_ → _))

/-- **The loader on any file**: it throws, or returns having read bytes of the
file and written entries of the table only, at addresses that do not wrap
around, if and only if the file is one of `LoadSafe`. -/
theorem loader_safe_iff (vm : VM) :
    Handled (loadTables vm) NoWrap ↔ LoadSafe vm.bytecode.bytes := by
  unfold LoadSafe
  rcases loadHeader_cases vm.bytecode.bytes with ⟨hinvalid, what, hheader⟩ | ⟨hvalid, hheader⟩
  · have hthrow : loadTables vm = .error (.runtimeError what) vm := by
      unfold loadTables
      rw [get_bind, hheader]
      rfl
    exact ⟨fun _ hvalid => absurd hvalid hinvalid, fun _ => Or.inl ⟨what, vm, hthrow⟩⟩
  · let header := fileHeader vm.bytecode.bytes
    let vm₁ : VM := { vm with header := header }
    have hlen : 32 ≤ vm.bytecode.bytes.length := hvalid.1
    -- the two fields of the header, as numbers
    have hcount : header.functionCount.toNat = wordAt vm.bytecode.bytes 16 := by
      show (BitVec.ofNat 32 _).toNat = _
      rw [BitVec.toNat_ofNat, Nat.mod_eq_of_lt (wordAt_lt (by omega))]
    have hoffset : header.functionOffset.toNat = wordAt vm.bytecode.bytes 24 := by
      show (BitVec.ofNat 32 _).toNat = _
      rw [BitVec.toNat_ofNat, Nat.mod_eq_of_lt (wordAt_lt (by omega))]
    have hload : loadTables vm = (loadFunctionTable header >>= fun _ => pure header) vm₁ := by
      unfold loadTables
      rw [get_bind, hheader]
      exact bind_ok (modify_apply _)
    have hloop := loadEntries_handled_iff header.functionCount.toNat 0 header.functionOffset vm₁
      (Nat.zero_le _)
    rw [hcount, hoffset] at hloop
    -- the loop decides: the header is returned as it was read
    have hhandled : Handled (loadTables vm) NoWrap ↔
        Handled (loadEntries (wordAt vm.bytecode.bytes 16) 0 header.functionOffset vm₁)
          (fun _ => wordAt vm.bytecode.bytes 24 + 8 * wordAt vm.bytecode.bytes 16 < 2 ^ 32) := by
      rw [hload, ← hcount, ← hoffset]
      constructor
      · intro hcases
        rcases hcases with ⟨what, vm', hthrow⟩ | ⟨a, vm', hok, hwrap⟩
        · rcases bind_eq_error.1 hthrow with hloop | ⟨_, _, -, hreturn⟩
          · exact Or.inl ⟨what, vm', hloop⟩
          · exact absurd hreturn (by simp)
        · obtain ⟨_, vm₂, hloop, hreturn⟩ := bind_eq_ok.1 hok
          injection hreturn with ha hvm
          rw [← ha, noWrap_iff] at hwrap
          exact Or.inr ⟨(), vm₂, hloop, hwrap⟩
      · intro hcases
        rcases hcases with ⟨what, vm', hthrow⟩ | ⟨_, vm', hok, hwrap⟩
        · exact Or.inl ⟨what, vm', bind_error hthrow⟩
        · exact Or.inr ⟨header, vm', bind_ok hok, (noWrap_iff header).2 hwrap⟩
    rw [hhandled, hloop]
    exact ⟨fun h _ => h, fun h => h hvalid⟩

/-- A file that names one function and ends two bytes behind its header. -/
def cutOff : Image where
  bytes := wordBytes [SPROUT_LANG_MAGIC.toNat, SPROUT_LANG_VERSION.toNat, 0, 0, 1, 32, 32, 40]
    ++ [0, 0]
  addressable := by decide

/-- **The first two bytes of its entry pass the check**, and the other two are
read behind the end of the file. -/
theorem cutOff_not_handled :
    ¬ Handled (loadTables (VM.zeroed cutOff Allocator.ascending Fpu.quiet)) NoWrap := by
  have hfault : fault (loadTables (VM.zeroed cutOff Allocator.ascending Fpu.quiet))
      = some .undefinedBehaviour := by decide
  exact not_handled_of_ub (error_of_fault hfault)

end SproutLang
