/-
  SproutLang.VM.Loader
  ────────────────────
  **LOADING A BYTECODE FILE** (`src/vm/bytecode.cpp`, `init` in `vm.cpp`).

  The struct `vm` is a global, so everything `init` does not set is zero.
-/
import SproutLang.VM.Execution
import SproutLang.Library.BigEndian

namespace SproutLang

open Library

/-! ## §1. The header and the function table. -/

/-- `readU32` of a header field, within the 32 bytes checked before. -/
def headerField (bytes : List Byte) (offset : Nat) : Except Fault (BitVec 32) :=
  match readU32 bytes offset with
  | some v => .ok v
  | none => .error .undefinedBehaviour

/-- Magic and version are checked, then the other fields are read. -/
def loadHeader (bytes : List Byte) : Except Fault BCHeader := do
  if bytes.length < SIZEOF_BCHEADER then
    throw (.runtimeError "Bytecode too small to contain a header")
  -- all fields are read before any of them is checked
  let magic ← headerField bytes 0
  let version ← headerField bytes 4
  let flags ← headerField bytes 8
  let importCount ← headerField bytes 12
  let functionCount ← headerField bytes 16
  let importOffset ← headerField bytes 20
  let functionOffset ← headerField bytes 24
  let codeOffset ← headerField bytes 28
  if magic ≠ SPROUT_LANG_MAGIC then
    throw (.runtimeError "Invalid bytecode file! SPRT Magic missing!")
  if version ≠ SPROUT_LANG_VERSION then
    throw (.runtimeError "Unsupported bytecode version")
  return { magic, version, flags, importCount, functionCount, importOffset,
           functionOffset, codeOffset }

/-- `vm.functionTable[i] = f`; the table is a fixed array. -/
def setFunction (i : Nat) (f : FunctionInfo) : Exec Unit := fun vm =>
  if i < FUNCTION_TABLE_SIZE then
    .ok () { vm with functionTable := Function.update vm.functionTable i f }
  else .error .undefinedBehaviour vm

/-- The loop of `loadFunctionTable` with `count` entries to go, the next one
`i`, read at `addr`. -/
def loadEntries : Nat → Nat → BitVec 32 → Exec Unit
  | 0, _, _ => return ()
  | count + 1, i, addr => do
      let f ← fetchFuncMetadata addr
      -- nothing compares `functionCount` with the size of the table
      setFunction i f
      loadEntries count (i + 1) (addr + BitVec.ofNat 32 SIZEOF_FUNCTION_INFO)

/-- The entries of the file's table are loaded one by one. -/
def loadFunctionTable (header : BCHeader) : Exec Unit :=
  loadEntries header.functionCount.toNat 0 header.functionOffset

/-! ## §2. The initial state. -/

/-- The limit `main` gives to each heap. -/
def HEAPSIZE : Nat := 512 * 1024 * 1024

/-- A header before it has been read. -/
def emptyHeader : BCHeader := ⟨0, 0, 0, 0, 0, 0, 0, 0⟩

/-- The global `vm` before `init`: zeroes, next to a C library that has
handed out nothing yet. -/
def VM.zeroed (bytecode : Image) (allocator : Allocator) (fpu : Fpu) : VM where
  header := emptyHeader
  reg _ := 0
  bytecode := bytecode
  ip := 0
  stack _ := 0
  sp := 0
  fp := 0
  heapA := ⟨[], 0, 0⟩
  heapB := ⟨[], 0, 0⟩
  jmpFlag := 0
  running := false
  heapAUsed := false
  functionTable _ := ⟨0, 0⟩
  store := { allocator, live := [], word := fun _ => 0, calls := 0 }
  fpu := fpu
  out := []

/-- `init` once the file's bytes are in `vm.bytecode`, for the heap limit
`max`. -/
def initWith (max : Nat) : Exec Unit := do
  let vm ← get
  match loadHeader vm.bytecode.bytes with
  | .error fault => throw fault
  | .ok header => do
      modify fun vm => { vm with header := header }
      loadFunctionTable header
      modify fun vm =>
        { vm with
          -- entry 0 of the table is not looked at
          ip := header.codeOffset.setWidth 64
          heapAUsed := true
          heapA := ⟨[], 0, max⟩
          heapB := ⟨[], 0, max⟩
          jmpFlag := 2
          running := true }

/-! ## §3. What loading changes. -/

section Inversion

variable {vm vm' : VM}

/-- A fetched word is one of the image. -/
theorem fetchAtAddr_effect {addr w : BitVec 32} (h : fetchAtAddr addr vm = .ok w vm') :
    readU32 vm.bytecode.bytes addr.toNat = some w ∧ vm' = vm := by
  unfold fetchAtAddr at h
  split at h
  · exact absurd h (by simp)
  · cases hword : readU32 vm.bytecode.bytes addr.toNat with
    | some v =>
        simp only [hword] at h
        injection h with hv hvm
        exact ⟨by rw [hv], hvm.symm⟩
    | none =>
        simp only [hword] at h
        exact absurd h (by simp)

/-- So is the entry point. -/
theorem fetchFuncMetadata_effect {addr : BitVec 32} {f : FunctionInfo}
    (h : fetchFuncMetadata addr vm = .ok f vm') :
    readU32 vm.bytecode.bytes addr.toNat = some f.entryIP ∧ vm' = vm := by
  unfold fetchFuncMetadata at h
  obtain ⟨entryIP, vm1, hentry, hrest⟩ := bind_eq_ok.1 h
  obtain ⟨hword, rfl⟩ := fetchAtAddr_effect hentry
  obtain ⟨frameSize, vm2, hframe, hreturn⟩ := bind_eq_ok.1 hrest
  obtain ⟨_, rfl⟩ := fetchAtAddr_effect hframe
  injection hreturn with hf hvm
  subst hf
  exact ⟨hword, hvm.symm⟩

/-- Loading the table changes the table. -/
theorem loadEntries_effect (count : Nat) :
    ∀ (i : Nat) (addr : BitVec 32) (vm : VM), loadEntries count i addr vm = .ok () vm' →
      ∃ table, vm' = { vm with functionTable := table } := by
  induction count with
  | zero =>
      intro i addr vm h
      injection h with _ hvm
      exact ⟨vm.functionTable, hvm.symm⟩
  | succ count ih =>
      intro i addr vm h
      unfold loadEntries at h
      obtain ⟨f, vm1, hfetch, hrest⟩ := bind_eq_ok.1 h
      obtain ⟨_, rfl⟩ := fetchFuncMetadata_effect hfetch
      obtain ⟨_, vm2, hset, hmore⟩ := bind_eq_ok.1 hrest
      unfold setFunction at hset
      split at hset
      · injection hset with _ hvm
        subst hvm
        obtain ⟨table, rfl⟩ := ih _ _ _ hmore
        exact ⟨table, rfl⟩
      · exact absurd hset (by simp)

/-- **The machine after `init`**: everything is as before but for the header,
the table, the two empty heaps and the flags. -/
theorem initWith_effect {max : Nat} (h : initWith max vm = .ok () vm') :
    ∃ header table, loadHeader vm.bytecode.bytes = .ok header ∧
      loadFunctionTable header { vm with header := header }
        = .ok () { vm with header := header, functionTable := table } ∧
      vm' = { vm with
        header := header
        functionTable := table
        ip := header.codeOffset.setWidth 64
        heapAUsed := true
        heapA := ⟨[], 0, max⟩
        heapB := ⟨[], 0, max⟩
        jmpFlag := 2
        running := true } := by
  unfold initWith at h
  rw [get_bind] at h
  cases hheader : loadHeader vm.bytecode.bytes with
  | error fault =>
      simp only [hheader] at h
      exact absurd h (by simp)
  | ok header =>
      simp only [hheader] at h
      rw [bind_ok (modify_apply _)] at h
      obtain ⟨_, vm1, htable, h⟩ := bind_eq_ok.1 h
      obtain ⟨table, rfl⟩ := loadEntries_effect _ _ _ _ htable
      injection h with _ hvm
      exact ⟨header, table, rfl, htable, hvm.symm⟩

end Inversion

/-! ## §4. A machine to start from. -/

/-- A machine as `init` leaves it, with the registers `reg`, an allocator that
always finds room and no code. -/
def VM.booted (reg : Byte → Word) : VM :=
  { VM.zeroed ⟨[], by decide⟩ Allocator.ascending Fpu.quiet with
    reg
    heapAUsed := true
    heapA := ⟨[], 0, HEAPSIZE⟩
    heapB := ⟨[], 0, HEAPSIZE⟩
    jmpFlag := 2
    running := true }

/-- The bytes of a list of 32-bit words. -/
def wordBytes (words : List Nat) : List Byte := words.flatMap (bigEndian 4)

/-- A file with a function table, entry address and frame size of each
function, and code. -/
def fileBytes (functions : List (Nat × Nat)) (code : List Nat) : List Byte :=
  wordBytes ([SPROUT_LANG_MAGIC.toNat, SPROUT_LANG_VERSION.toNat, 0, 0, functions.length,
      SIZEOF_BCHEADER, SIZEOF_BCHEADER, SIZEOF_BCHEADER + 8 * functions.length]
    ++ functions.flatMap (fun f => [f.1, f.2]) ++ code)

/-- The machine `init` makes of a file, with an allocator that always finds
room. -/
def VM.loaded (max : Nat) (file : Image) : VM :=
  finalState (initWith max (VM.zeroed file Allocator.ascending Fpu.quiet))

/-- `init`. -/
def init : Exec Unit := initWith HEAPSIZE

end SproutLang
