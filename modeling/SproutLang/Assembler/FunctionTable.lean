/-
  SproutLang.Assembler.FunctionTable
  ──────────────────────────────────
  **THE FUNCTION TABLE IN AN IMAGE.**

  The assembler writes an entry as two words of 32 bits, the VM keeps an
  address of 32 bits and a frame size of 16, in a table of 2048 entries.

    • `functionTable_agrees_iff` — the table the VM loads is that of the
                                   source's blocks, for the sources of
                                   `TableFits`.
-/
import SproutLang.Assembler.Agreement
import SproutLang.VM.FunctionTable

namespace SproutLang.Assembler

open Library

/-! ## §1. Blocks and their code. -/

/-- Bytes the lines of a block take. -/
def Block.size (py : Python) (b : Block) : Nat := (b.lines.map (lineWidth py)).sum

/-- `code` is what the lines of a block say, with some addresses for its
labels. -/
def Block.CodeIs (py : Python) (b : Block) (code : List Byte) : Prop :=
  ∃ said address, List.Forall₂ (fun toks s => readLine py toks = some s) b.lines said ∧
    code = said.flatMap (SourceInstr.bytes address)

section Sizes

variable {py : Python} {b : Block} {fs : List Func} {codes : List (List SourceInstr)}
  {blocks : List Block}

/-- What a block says has the size of the block. -/
theorem Block.Says.size {code : List SourceInstr} (h : b.Says py code) : sizeOf code = b.size py :=
  (sum_lineWidth h).symm

/-- So has the code of a block. -/
theorem Block.CodeIs.length {code : List Byte} (h : b.CodeIs py code) : code.length = b.size py := by
  obtain ⟨said, address, hsaid, rfl⟩ := h
  rw [length_flatMap_bytes]
  exact (sum_lineWidth hsaid).symm

/-- The code of a function takes the bytes of its block. -/
theorem sizes_eq (hfs : List.Forall₂ FuncHolds fs codes)
    (hsaid : List.Forall₂ (Block.Says py) blocks codes) :
    fs.map (fun f => f.raw.length) = blocks.map (Block.size py) := by
  induction hfs generalizing blocks with
  | nil =>
      rw [List.forall₂_nil_right_iff.1 hsaid]
      rfl
  | cons hf _ ih =>
      obtain ⟨b, blocks, hb, hrest, rfl⟩ := List.forall₂_cons_right_iff.1 hsaid
      rw [List.map_cons, List.map_cons, ih hrest, hf.length_raw, hb.size]

/-- The pieces of the code have the sizes of the blocks. -/
theorem chunks_sizes {chunks : List (List Byte)}
    (h : List.Forall₂ (Block.CodeIs py) blocks chunks) :
    chunks.map List.length = blocks.map (Block.size py) := by
  induction h with
  | nil => rfl
  | cons hfirst _ ih => rw [List.map_cons, List.map_cons, ih, hfirst.length]

/-- A block's code starts behind that of the blocks in front of it. -/
theorem take_chunks_length {chunks : List (List Byte)}
    (h : List.Forall₂ (Block.CodeIs py) blocks chunks) (i : Nat) :
    (chunks.take i).flatten.length = ((blocks.take i).map (Block.size py)).sum := by
  rw [List.length_flatten, List.map_take, chunks_sizes h, ← List.map_take]

/-- The code section is the code of the blocks, one behind the other. -/
theorem linkedBytes_chunks (hfs : List.Forall₂ FuncHolds fs codes)
    (hsaid : List.Forall₂ (Block.Says py) blocks codes) :
    ∀ pos, ∃ chunks, linkedBytes pos fs codes = chunks.flatten ∧
      List.Forall₂ (Block.CodeIs py) blocks chunks := by
  induction hfs generalizing blocks with
  | nil =>
      rw [List.forall₂_nil_right_iff.1 hsaid]
      exact fun _ => ⟨[], rfl, List.Forall₂.nil⟩
  | @cons f code fs codes _ _ ih =>
      intro pos
      obtain ⟨b, blocks, hb, hrest, rfl⟩ := List.forall₂_cons_right_iff.1 hsaid
      obtain ⟨chunks, hchunks, hcodes⟩ := ih hrest (pos + sizeOf code)
      refine ⟨code.flatMap (SourceInstr.bytes (address pos f)) :: chunks, ?_,
        List.Forall₂.cons ⟨code, _, hb, rfl⟩ hcodes⟩
      rw [List.flatten_cons, ← hchunks]
      rfl

end Sizes

/-! ## §2. The words of the table. -/

/-- The two words of an entry. -/
theorem tableWords_entry (fs : List Func) :
    ∀ (pos i : Nat) (f : Func), fs[i]? = some f →
      (tableWords pos fs)[2 * i]? = some (pos + ((fs.take i).map fun f => f.raw.length).sum) ∧
      (tableWords pos fs)[2 * i + 1]? = some (f.frameSize % 2 ^ 32).toNat := by
  induction fs with
  | nil => exact fun _ i f h => absurd h (by simp)
  | cons g fs ih =>
      intro pos i f h
      cases i with
      | zero =>
          injection h with h
          subst h
          exact ⟨rfl, rfl⟩
      | succ i =>
          -- the entries behind the first one count from its end
          obtain ⟨hentry, hframe⟩ := ih (pos + g.raw.length) i f h
          rw [List.take_succ_cons, List.map_cons, List.sum_cons, ← Nat.add_assoc]
          exact ⟨hentry, hframe⟩

section Image

variable {py : Python} {text : Str} {bytes : List Byte} {functions : List Func}
  {codes : List (List SourceInstr)}

/-- **An entry of the table in the image.** -/
theorem Assembled.entryAt (h : Assembled py text bytes functions codes) {i : Nat} {f : Func}
    (hi : functions[i]? = some f) :
    SproutLang.entryAt bytes (HEADER_SIZE + 8 * i) =
      { entryIP := BitVec.ofNat 32
          (codeOffset functions + ((functions.take i).map fun f => f.raw.length).sum)
        frameSize := (BitVec.ofNat 32 (f.frameSize % 2 ^ 32).toNat).setWidth 16 } := by
  obtain ⟨hentry, hframe⟩ := tableWords_entry functions (codeOffset functions) i f hi
  have hwords : bytes
      = wordBytes (headerWords functions.length (codeOffset functions)
          ++ tableWords (codeOffset functions) functions)
        ++ linkedBytes (codeOffset functions) functions codes := by
    rw [h.bytes_eq]
    unfold wordBytes
    rw [List.flatMap_append]
  have hread : ∀ {k w : Nat}, (tableWords (codeOffset functions) functions)[k]? = some w →
      BitVec.ofNat 32 (wordAt bytes (HEADER_SIZE + 4 * k)) = BitVec.ofNat 32 w := by
    intro k w hk
    have hget : (headerWords functions.length (codeOffset functions)
        ++ tableWords (codeOffset functions) functions)[8 + k]? = some w := by
      rw [List.getElem?_append_right (Nat.le_add_right 8 k)]
      show (tableWords _ _)[8 + k - 8]? = _
      rw [Nat.add_sub_cancel_left]
      exact hk
    -- the table follows the eight words of the header
    have hword := readU32_wordBytes _ (linkedBytes (codeOffset functions) functions codes) hget
    rw [← hwords, show 4 * (8 + k) = HEADER_SIZE + 4 * k by unfold HEADER_SIZE; omega] at hword
    rw [readU32_inside (readU32_bound hword)] at hword
    exact Option.some.inj hword
  have hentry' := hread hentry
  have hframe' := hread hframe
  unfold SproutLang.entryAt
  rw [show HEADER_SIZE + 8 * i = HEADER_SIZE + 4 * (2 * i) by omega,
    show HEADER_SIZE + 4 * (2 * i) + 4 = HEADER_SIZE + 4 * (2 * i + 1) by omega, hentry', hframe']

end Image

/-! ## §3. What the VM loads. -/

/-- Every `call` names a function that exists. -/
def CallsFit (py : Python) (text : Str) : Prop :=
  ∀ toks ∈ instrLines py text, ∀ index, readLine py toks = some (.call index) →
    index < (blocksOf py text).length

/-- **The loaded table is that of the source.**  `vm'` and `header` are what
loading the image of `vm` gives, `chunks` is the code of the blocks. -/
structure TableAgrees (py : Python) (text : Str) (vm : VM) (header : BCHeader) (vm' : VM)
    (front : List Byte) (chunks : List (List Byte)) : Prop where
  loads : loadTables vm = .ok header vm'
  functionCount : header.functionCount.toNat = (blocksOf py text).length
  codeOffset : header.codeOffset.toNat = front.length
  cover : vm.bytecode.bytes = front ++ chunks.flatten
  code : List.Forall₂ (Block.CodeIs py) (blocksOf py text) chunks
  entryIP : ∀ i < (blocksOf py text).length,
    (vm'.functionTable i).entryIP.toNat = front.length + (chunks.take i).flatten.length
  frameSize : ∀ i b, (blocksOf py text)[i]? = some b →
    frameSizeOf py (b.directive.drop 2) 0 = .ok ((vm'.functionTable i).frameSize.toNat : Int)
  calls : CallsFit py text

/-- Where the code of block `i` starts. -/
def entryOffset (py : Python) (text : Str) (i : Nat) : Nat :=
  HEADER_SIZE + 8 * (blocksOf py text).length
    + (((blocksOf py text).take i).map (Block.size py)).sum

/-- **The sources whose table is loaded as it is written**: no more than 2048
blocks, frame sizes of 16 bits, code that starts below `2^32`, and calls of
functions that exist. -/
structure TableFits (py : Python) (text : Str) : Prop where
  blocks : (blocksOf py text).length ≤ FUNCTION_TABLE_SIZE
  frames : ∀ b ∈ blocksOf py text, ∀ n, frameSizeOf py (b.directive.drop 2) 0 = .ok n →
    0 ≤ n ∧ n < 2 ^ 16
  entries : ∀ i < (blocksOf py text).length, entryOffset py text i < 2 ^ 32
  calls : CallsFit py text

section Loaded

variable {py : Python} {text : Str} {functions : List Func} {codes : List (List SourceInstr)}
  {vm : VM}

/-- The offset in the image at which block `i` starts. -/
theorem Assembled.entryOffset_eq {bytes : List Byte} (h : Assembled py text bytes functions codes)
    (hsaid : List.Forall₂ (Block.Says py) (blocksOf py text) codes) (i : Nat) :
    codeOffset functions + ((functions.take i).map fun f => f.raw.length).sum
      = entryOffset py text i := by
  have hlen : functions.length = (blocksOf py text).length :=
    h.holds.length_eq.trans hsaid.length_eq.symm
  unfold entryOffset
  rw [List.map_take, sizes_eq h.holds hsaid, ← List.map_take, ← hlen]
  unfold codeOffset FUNC_ENTRY_SIZE
  omega

/-- **The table the VM loads**, if it has room for the blocks. -/
theorem Assembled.loadTables (h : Assembled py text vm.bytecode.bytes functions codes)
    (hroom : functions.length ≤ FUNCTION_TABLE_SIZE) :
    ∃ header table, SproutLang.loadTables vm
        = .ok header { vm with header := header, functionTable := table } ∧
      header.functionCount.toNat = functions.length ∧
      header.codeOffset.toNat = codeOffset functions ∧
      (∀ i < functions.length,
        table i = SproutLang.entryAt vm.bytecode.bytes (HEADER_SIZE + 8 * i)) ∧
      ∀ i, functions.length ≤ i → table i = vm.functionTable i := by
  obtain ⟨header, hheader, hcode, hcount, hoffset⟩ := h.loadHeader
  have hroom' : functions.length ≤ 2048 := hroom
  have hcount' : header.functionCount.toNat = functions.length := by
    rw [hcount, BitVec.toNat_ofNat, Nat.mod_eq_of_lt (by omega)]
  -- the file has room for the whole table
  have hfile : HEADER_SIZE + 8 * functions.length ≤ vm.bytecode.bytes.length := by
    rw [h.bytes_eq, List.length_append, Assembled.length_front]
    unfold codeOffset FUNC_ENTRY_SIZE
    omega
  have hsmall : HEADER_SIZE + 8 * functions.length < 2 ^ 32 := by
    unfold HEADER_SIZE
    omega
  obtain ⟨table, hload, hentries, hrest⟩ := loadEntries_ok functions.length 0 header.functionOffset
    { vm with header := header } (by omega) (by rw [hoffset]; exact hfile) (by rw [hoffset]; exact hsmall)
  refine ⟨header, table, loadTables_eq_ok.2 ⟨hheader, ?_⟩, hcount', hcode, fun i hi => ?_,
    fun i hi => hrest i (Or.inr (by omega))⟩
  · unfold loadFunctionTable
    rw [hcount']
    exact hload
  · have hentry := hentries i hi
    rw [Nat.zero_add, hoffset] at hentry
    exact hentry

end Loaded

section Agreement

variable {py : Python} {text : Str} {vm : VM}

/-- A table that agrees has room for the blocks and their values. -/
theorem TableAgrees.fits {header : BCHeader} {vm' : VM} {front : List Byte}
    {chunks : List (List Byte)} (hagrees : TableAgrees py text vm header vm' front chunks)
    (h : assemble py text = .ok vm.bytecode.bytes) : TableFits py text := by
  obtain ⟨functions, codes, himage, hsaid, hdeclared⟩ := assemble_blocks h
  have hlen : functions.length = (blocksOf py text).length := hdeclared.length_eq
  have hload := (loadTables_eq_ok.1 hagrees.loads).2
  unfold loadFunctionTable at hload
  rw [hagrees.functionCount] at hload
  have hroom := loadEntries_bound _ _ _ _ (Nat.zero_le _) hload
  rw [Nat.zero_add] at hroom
  obtain ⟨header', table, hloads, -, hcode, -⟩ := himage.loadTables (hlen ▸ hroom)
  rw [hagrees.loads] at hloads
  injection hloads with hheader hvm
  subst hheader hvm
  refine ⟨hroom, fun b hb n hn => ?_, fun i hi => ?_, hagrees.calls⟩
  · -- a frame size that is in the table has 16 bits
    obtain ⟨i, hi⟩ := List.mem_iff_getElem?.1 hb
    have hframe := hagrees.frameSize i b hi
    rw [hn] at hframe
    injection hframe with hframe
    have hlt := (table i).frameSize.isLt
    have hn : n = ((table i).frameSize.toNat : Int) := hframe
    omega
  · -- and an offset 32
    have hentry := hagrees.entryIP i hi
    have hfront : front.length = HEADER_SIZE + 8 * (blocksOf py text).length := by
      rw [← hagrees.codeOffset, hcode, ← hlen]
      unfold Assembler.codeOffset FUNC_ENTRY_SIZE
      omega
    have hlt := (table i).entryIP.isLt
    unfold entryOffset
    rw [← hfront, ← take_chunks_length hagrees.code, ← hentry]
    exact hlt

/-- The frame size of a declared block survives its two casts. -/
theorem frameSize_casts {n : Int} (hlow : 0 ≤ n) (hhigh : n < 2 ^ 16) :
    (((BitVec.ofNat 32 (n % 2 ^ 32).toNat).setWidth 16).toNat : Int) = n := by
  rw [BitVec.toNat_setWidth, BitVec.toNat_ofNat]
  omega

/-- **Where the table fits, the loaded one agrees with the text.** -/
theorem TableFits.agrees (hfits : TableFits py text)
    (h : assemble py text = .ok vm.bytecode.bytes) :
    ∃ header vm' front chunks, TableAgrees py text vm header vm' front chunks := by
  obtain ⟨functions, codes, himage, hsaid, hdeclared⟩ := assemble_blocks h
  have hlen : functions.length = (blocksOf py text).length := hdeclared.length_eq
  obtain ⟨header, table, hloads, hcount, hcode, htable, -⟩ :=
    himage.loadTables (hlen ▸ hfits.blocks)
  obtain ⟨chunks, hchunks, hcodes⟩ := linkedBytes_chunks himage.holds hsaid (codeOffset functions)
  -- the entry of each function, as the file has it
  have hentry : ∀ {i : Nat} {f : Func}, functions[i]? = some f →
      table i = { entryIP := BitVec.ofNat 32 (entryOffset py text i)
                  frameSize := (BitVec.ofNat 32 (f.frameSize % 2 ^ 32).toNat).setWidth 16 } := by
    intro i f hi
    rw [htable i (List.getElem?_eq_some_iff.1 hi).1, himage.entryAt hi,
      himage.entryOffset_eq hsaid i]
  refine ⟨header, _, wordBytes (headerWords functions.length (codeOffset functions))
      ++ wordBytes (tableWords (codeOffset functions) functions), chunks, hloads,
    by rw [hcount, hlen], ?_, ?_, hcodes, ?_, ?_, hfits.calls⟩
  · rw [hcode, Assembled.length_front]
  · rw [himage.bytes_eq, hchunks]
  · intro i hi
    obtain ⟨f, hf⟩ : ∃ f, functions[i]? = some f := ⟨_, List.getElem?_eq_getElem (hlen ▸ hi)⟩
    show (table i).entryIP.toNat = _
    rw [hentry hf, Assembled.length_front, take_chunks_length hcodes]
    show (BitVec.ofNat 32 _).toNat = _
    -- the offset is below 2^32, so no bit of it is lost
    rw [BitVec.toNat_ofNat, Nat.mod_eq_of_lt (hfits.entries i hi)]
    unfold entryOffset codeOffset FUNC_ENTRY_SIZE
    omega
  · intro i b hb
    have hi : i < functions.length := by
      rw [hlen]
      exact (List.getElem?_eq_some_iff.1 hb).1
    obtain ⟨f, hf⟩ : ∃ f, functions[i]? = some f := ⟨_, List.getElem?_eq_getElem hi⟩
    -- the declared size is kept by both casts
    obtain ⟨b', hb', hdecl⟩ := forall₂_getElem? hdeclared hf
    obtain rfl : b' = b := Option.some.inj (hb'.symm.trans hb)
    obtain ⟨hlow, hhigh⟩ := hfits.frames b' (List.mem_of_getElem? hb) _ hdecl
    show _ = Except.ok (((table i).frameSize.toNat : Nat) : Int)
    rw [hentry hf, hdecl]
    exact congrArg Except.ok (frameSize_casts hlow hhigh).symm

end Agreement

/-- **The function table agrees with the source if and only if the source is
one of `TableFits`.** -/
theorem functionTable_agrees_iff {py : Python} {text : Str} {vm : VM}
    (h : assemble py text = .ok vm.bytecode.bytes) :
    (∃ header vm' front chunks, TableAgrees py text vm header vm' front chunks) ↔
      TableFits py text := by
  constructor
  · intro ⟨header, vm', front, chunks, hagrees⟩
    exact hagrees.fits h
  · intro hfits
    exact hfits.agrees h

/-- A text with one function, of the frame size `size`. -/
def frameText (size : String) : Str :=
  ".func main frameSize=".toList ++ size.toList ++ "\nend r0\n.endfunc\n".toList

/-- A machine with the image of a text that is accepted. -/
def machineOf (text : Str) (h : (imageOf text).length < 2 ^ 48) : VM :=
  VM.zeroed ⟨imageOf text, h⟩ Allocator.ascending Fpu.quiet

/-- Both sides hold of a function with two slots. -/
theorem functionTable_agrees_iff_two :
    (∃ header vm' front chunks, TableAgrees Python.ascii (frameText "2")
        (machineOf (frameText "2") (by decide +kernel)) header vm' front chunks) ↔
      TableFits Python.ascii (frameText "2") :=
  functionTable_agrees_iff (by rfl)

/-- **A frame of 65536 slots is loaded as one of none.** -/
theorem frameSize_65536_lost :
    assemble Python.ascii (frameText "65536")
        = .ok (machineOf (frameText "65536") (by decide +kernel)).bytecode.bytes ∧
      (blocksOf Python.ascii (frameText "65536")).map
          (fun b => (frameSizeOf Python.ascii (b.directive.drop 2) 0).toOption) = [some 65536] ∧
      ((finalState (loadTables (machineOf (frameText "65536") (by decide +kernel)))).functionTable
        0).frameSize = 0 ∧
      ¬ ∃ header vm' front chunks, TableAgrees Python.ascii (frameText "65536")
        (machineOf (frameText "65536") (by decide +kernel)) header vm' front chunks := by
  have hdeclared : (blocksOf Python.ascii (frameText "65536")).map
      (fun b => (frameSizeOf Python.ascii (b.directive.drop 2) 0).toOption) = [some 65536] := by
    decide +kernel
  have hloaded : ((finalState (loadTables (machineOf (frameText "65536")
      (by decide +kernel)))).functionTable 0).frameSize = 0 := by decide +kernel
  refine ⟨by rfl, hdeclared, hloaded, ?_⟩
  intro ⟨header, vm', front, chunks, hagrees⟩
  have hvm : finalState (loadTables (machineOf (frameText "65536") (by decide +kernel))) = vm' := by
    rw [hagrees.loads]
    rfl
  rw [hvm] at hloaded
  cases hblocks : blocksOf Python.ascii (frameText "65536") with
  | nil =>
      rw [hblocks] at hdeclared
      exact absurd hdeclared (by simp)
  | cons b blocks =>
      rw [hblocks, List.map_cons] at hdeclared
      -- the table would have to hold what the directive declares
      have hframe := hagrees.frameSize 0 b (by rw [hblocks]; rfl)
      rw [hframe, hloaded] at hdeclared
      exact absurd (List.cons.inj hdeclared).1 (by decide)

end SproutLang.Assembler
