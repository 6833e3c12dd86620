/-
  SproutLang.Assembler.Linking
  ────────────────────────────
  **THE SECOND PASS.**

  The functions' code is laid out one behind the other, behind the header and
  the function table, and each branch gets the address of its label:

    • `patchFunc_bytes` — patching a function encodes its lines with their
                          labels resolved,
    • `assemble_image`  — the image of an accepted text.
-/
import SproutLang.Assembler.Emission

namespace SproutLang.Assembler

open Library

/-! ## §1. Patching. -/

/-- The address of a label in a function whose code starts at `base`. -/
def address (base : Nat) (f : Func) (label : Str) : Nat :=
  base + (f.labels.lookup label).getD 0

/-- Every branch names a label of its function, at an address of 32 bits. -/
def LabelsFound (base : Nat) (f : Func) (code : List SourceInstr) : Prop :=
  ∀ op label, SourceInstr.branch op label ∈ code →
    ∃ target, f.labels.lookup label = some target ∧ base + target < 2 ^ 32

section Patch

variable {base : Nat} {f : Func} {raw raw' : List Byte}

/-- Packing four bytes over four others. -/
theorem packInto_eq_ok {before old after : List Byte} {off n : Nat}
    (hraw : raw = before ++ old ++ after) (hold : old.length = 4) (hoff : off = before.length)
    (h : packInto raw off n = .ok raw') :
    n < 2 ^ 32 ∧ raw' = before ++ bigEndian 4 n ++ after := by
  unfold packInto at h
  split at h
  · rename_i hlt
    injection h with h
    refine ⟨hlt, ?_⟩
    have htake : raw.take off = before := by
      rw [hraw, hoff, List.append_assoc, List.take_left]
    have hdrop : raw.drop (off + 4) = after := by
      have hlen : off + 4 = (before ++ old).length := by
        rw [List.length_append, hold, hoff]
      rw [hraw, hlen, List.drop_left]
    rw [← h, htake, hdrop]
  · exact absurd h (by simp)

/-- The patch of one branch packs its label's address, which has to fit. -/
theorem patchFunc_branch {patches : List (Nat × Str)} {before after : List Byte} {op : Opcode}
    {label : Str}
    (h : patchFunc base f ((before.length, label) :: patches)
      (before ++ (SourceInstr.branch op label).bytes (fun _ => 0) ++ after) = .ok raw') :
    (∃ target, f.labels.lookup label = some target ∧ base + target < 2 ^ 32) ∧
    patchFunc base f patches
      (before ++ (SourceInstr.branch op label).bytes (address base f) ++ after) = .ok raw' := by
  unfold patchFunc at h
  cases hlookup : f.labels.lookup label with
  | none =>
      -- an unknown label ends the assembler
      simp only [hlookup] at h
      exact absurd h (by simp)
  | some target =>
      simp only [hlookup] at h
      obtain ⟨raw1, hpack, hrest⟩ := except_bind_eq_ok h
      have haddress : address base f label = base + target := by
        unfold address
        rw [hlookup]
        rfl
      -- the operand stands behind the four bytes of the word
      have hraw : before ++ (SourceInstr.branch op label).bytes (fun _ => 0) ++ after
          = (before ++ bigEndian 4 (packed op 0 0 0)) ++ bigEndian 4 0 ++ after := by
        show before ++ (bigEndian 4 (packed op 0 0 0) ++ bigEndian 4 0) ++ after = _
        simp only [List.append_assoc]
      have hoff : before.length + 4 = (before ++ bigEndian 4 (packed op 0 0 0)).length := by
        rw [List.length_append, length_bigEndian]
      obtain ⟨hlt, hraw1⟩ := packInto_eq_ok hraw (length_bigEndian 4 0) hoff hpack
      have hbytes : raw1
          = before ++ (SourceInstr.branch op label).bytes (address base f) ++ after := by
        rw [hraw1, ← haddress]
        show _ = before ++ (bigEndian 4 (packed op 0 0 0)
          ++ bigEndian 4 (address base f label)) ++ after
        simp only [List.append_assoc]
      rw [hbytes] at hrest
      exact ⟨⟨target, rfl, hlt⟩, hrest⟩

/-- **One line**: its patch, if it has one, puts its final bytes in place. -/
theorem patchFunc_line (s : SourceInstr) {patches : List (Nat × Str)} {before after : List Byte}
    (h : patchFunc base f (s.patch before.length ++ patches)
      (before ++ s.bytes (fun _ => 0) ++ after) = .ok raw') :
    LabelsFound base f [s] ∧
    patchFunc base f patches (before ++ s.bytes (address base f) ++ after) = .ok raw' := by
  have hnone : (∀ op label, s ≠ .branch op label) → LabelsFound base f [s] := by
    intro hne op label hmem
    exact absurd (List.mem_singleton.1 hmem).symm (hne op label)
  cases s with
  | regs op rs => exact ⟨hnone (by simp), h⟩
  | load dst literal => exact ⟨hnone (by simp), h⟩
  | call i => exact ⟨hnone (by simp), h⟩
  | mov dst src flag => exact ⟨hnone (by simp), h⟩
  | branch op label =>
      obtain ⟨hfound, hrest⟩ := patchFunc_branch h
      refine ⟨fun op' label' hmem => ?_, hrest⟩
      injection List.mem_singleton.1 hmem with _ heq
      rw [heq]
      exact hfound

/-- **Patching resolves the labels**: the lines behind `before` are encoded
with the addresses of the labels they name. -/
theorem patchFunc_bytes (code : List SourceInstr) :
    ∀ before raw', patchFunc base f (patchesOf before.length code)
        (before ++ code.flatMap (SourceInstr.bytes fun _ => 0)) = .ok raw' →
      raw' = before ++ code.flatMap (SourceInstr.bytes (address base f)) ∧
      LabelsFound base f code := by
  induction code with
  | nil =>
      intro before raw' h
      injection h with h
      exact ⟨h.symm, fun op label hmem => absurd hmem List.not_mem_nil⟩
  | cons s code ih =>
      intro before raw' h
      -- one line further: what is patched already is part of `before`
      unfold patchesOf at h
      rw [List.flatMap_cons, ← List.append_assoc] at h
      obtain ⟨hline, hrest⟩ := patchFunc_line s h
      have hlen : before.length + s.width = (before ++ s.bytes (address base f)).length := by
        rw [List.length_append, SourceInstr.length_bytes]
      rw [hlen] at hrest
      obtain ⟨hraw', hfound⟩ := ih _ _ hrest
      rw [hraw', List.flatMap_cons, List.append_assoc]
      refine ⟨rfl, fun op label hmem => ?_⟩
      rcases List.mem_cons.1 hmem with heq | hmem
      · exact hline op label (List.mem_singleton.2 heq)
      · exact hfound op label hmem

/-- Patching succeeds where every patch finds its label, at an address that
fits. -/
theorem patchFunc_runs (patches : List (Nat × Str)) :
    (∀ p ∈ patches, ∃ target, f.labels.lookup p.2 = some target ∧ base + target < 2 ^ 32) →
      ∀ raw, ∃ raw', patchFunc base f patches raw = .ok raw' := by
  induction patches with
  | nil => exact fun _ raw => ⟨raw, rfl⟩
  | cons p patches ih =>
      intro hfound raw
      obtain ⟨off, label⟩ := p
      obtain ⟨⟨target, hlookup, hlt⟩, hrest⟩ := List.forall_mem_cons.1 hfound
      have hpack : packInto raw (off + 4) (base + target)
          = .ok (raw.take (off + 4) ++ bigEndian 4 (base + target) ++ raw.drop (off + 4 + 4)) :=
        if_pos hlt
      simp only [patchFunc, hlookup, except_bind_ok hpack]
      exact ih hrest _

/-- A patch belongs to a branch. -/
theorem mem_patchesOf {p : Nat × Str} (code : List SourceInstr) :
    ∀ offset, p ∈ patchesOf offset code → ∃ op, SourceInstr.branch op p.2 ∈ code := by
  induction code with
  | nil => exact fun _ h => absurd h List.not_mem_nil
  | cons s code ih =>
      intro offset h
      unfold patchesOf at h
      rcases List.mem_append.1 h with h | h
      · cases s with
        | branch op label =>
            rw [List.mem_singleton.1 h]
            exact ⟨op, List.mem_cons_self⟩
        | regs | load | call | mov => exact absurd h List.not_mem_nil
      · obtain ⟨op, hmem⟩ := ih _ h
        exact ⟨op, List.mem_cons_of_mem _ hmem⟩

end Patch

/-! ## §2. The code section. -/

/-- The bytes of the functions' lines, the first function's code at `pos`. -/
def linkedBytes : Nat → List Func → List (List SourceInstr) → List Byte
  | pos, f :: fs, code :: codes =>
      code.flatMap (SourceInstr.bytes (address pos f)) ++ linkedBytes (pos + sizeOf code) fs codes
  | _, _, _ => []

/-- The VM's instructions of these lines. -/
def linked : Nat → List Func → List (List SourceInstr) → List Instr
  | pos, f :: fs, code :: codes =>
      code.map (SourceInstr.instr (address pos f)) ++ linked (pos + sizeOf code) fs codes
  | _, _, _ => []

/-- Every branch of every function names a label of its own. -/
def Resolved : Nat → List Func → List (List SourceInstr) → Prop
  | pos, f :: fs, code :: codes =>
      LabelsFound pos f code ∧ Resolved (pos + sizeOf code) fs codes
  | _, _, _ => True

section Linked

variable {fs : List Func} {codes : List (List SourceInstr)}

/-- **The second pass writes the code with every label at its address.** -/
theorem patchAll_bytes (hfs : List.Forall₂ FuncHolds fs codes) :
    ∀ pos raws, patchAll pos fs = .ok raws →
      raws.flatten = linkedBytes pos fs codes ∧ Resolved pos fs codes := by
  induction hfs with
  | nil =>
      intro pos raws h
      injection h with h
      subst h
      exact ⟨rfl, trivial⟩
  | @cons f code fs codes hf _ ih =>
      intro pos raws h
      unfold patchAll at h
      obtain ⟨raw, hpatch, h⟩ := except_bind_eq_ok h
      obtain ⟨raws', hmore, h⟩ := except_bind_eq_ok h
      injection h with h
      rw [hf.length_raw] at hmore
      -- the patches and the zeros are those of the function's lines
      rw [hf.patches, hf.raw] at hpatch
      obtain ⟨hraw, hfound⟩ := patchFunc_bytes code [] raw hpatch
      obtain ⟨hraws, hresolved⟩ := ih _ _ hmore
      rw [← h, List.flatten_cons, hraws, hraw]
      exact ⟨rfl, hfound, hresolved⟩

/-- **Patching succeeds where every branch finds its label.** -/
theorem patchAll_runs (hfs : List.Forall₂ FuncHolds fs codes) :
    ∀ pos, Resolved pos fs codes → ∃ raws, patchAll pos fs = .ok raws := by
  induction hfs with
  | nil => exact fun _ _ => ⟨[], rfl⟩
  | @cons f code fs codes hf _ ih =>
      intro pos hresolved
      obtain ⟨hfound, hrest⟩ := hresolved
      obtain ⟨raw, hpatch⟩ := patchFunc_runs f.patches (fun p hp => by
        rw [hf.patches] at hp
        obtain ⟨op, hmem⟩ := mem_patchesOf code 0 hp
        exact hfound op p.2 hmem) f.raw
      obtain ⟨raws, hmore⟩ := ih _ hrest
      rw [← hf.length_raw] at hmore
      simp only [patchAll, except_bind_ok hpatch, except_bind_ok hmore]
      exact ⟨raw :: raws, rfl⟩

/-- What every function has resolved. -/
theorem resolved_iff : ∀ (fs : List Func) (codes : List (List SourceInstr)) (pos : Nat),
    Resolved pos fs codes ↔ ∀ (i : Nat) f code, fs[i]? = some f → codes[i]? = some code →
      LabelsFound (pos + sizeOf (codes.take i).flatten) f code := by
  intro fs
  induction fs with
  | nil => exact fun _ _ => ⟨fun _ i f code hf => absurd hf (by simp), fun _ => trivial⟩
  | cons f fs ih =>
      intro codes pos
      cases codes with
      | nil => exact ⟨fun _ i f code _ hcode => absurd hcode (by simp), fun _ => trivial⟩
      | cons code codes =>
          -- the code in front of the next function
          have hsize : ∀ i, pos + sizeOf code + sizeOf (codes.take i).flatten
              = pos + sizeOf ((code :: codes).take (i + 1)).flatten := by
            intro i
            unfold sizeOf
            rw [List.take_succ_cons, List.flatten_cons, List.map_append, List.sum_append,
              Nat.add_assoc]
          constructor
          · intro h i
            cases i with
            | zero =>
                intro f' code' hf hcode
                injection hf with hf
                injection hcode with hcode
                rw [← hf, ← hcode]
                exact h.1
            | succ i =>
                intro f' code' hf hcode
                rw [← hsize]
                exact (ih codes _).1 h.2 i f' code' hf hcode
          · intro h
            refine ⟨h 0 f code rfl rfl, (ih codes _).2 fun i f' code' hf hcode => ?_⟩
            rw [hsize]
            exact h (i + 1) f' code' hf hcode

/-- **Where a function stands**: behind the functions before it. -/
theorem linkedBytes_function (hfs : List.Forall₂ FuncHolds fs codes) :
    ∀ (pos i : Nat) (f : Func) (code : List SourceInstr), fs[i]? = some f → codes[i]? = some code →
      ∃ before after, linkedBytes pos fs codes = before
          ++ code.flatMap (SourceInstr.bytes (address (pos + sizeOf (codes.take i).flatten) f))
          ++ after ∧ before.length = sizeOf (codes.take i).flatten := by
  induction hfs with
  | nil => exact fun pos i f code hf => absurd hf (by simp)
  | @cons f code fs codes hf _ ih =>
      intro pos i f' code' hf' hcode'
      cases i with
      | zero =>
          injection hf' with hf'
          injection hcode' with hcode'
          subst hf' hcode'
          exact ⟨[], linkedBytes (pos + sizeOf code) fs codes, rfl, rfl⟩
      | succ i =>
          obtain ⟨before, after, hbytes, hlen⟩ := ih (pos + sizeOf code) i f' code' hf' hcode'
          -- the functions in front of it are the first one and those of the rest
          have hsize : sizeOf ((code :: codes).take (i + 1)).flatten
              = sizeOf code + sizeOf (codes.take i).flatten := by
            unfold sizeOf
            rw [List.take_succ_cons, List.flatten_cons, List.map_append, List.sum_append]
          rw [hsize, ← Nat.add_assoc]
          refine ⟨code.flatMap (SourceInstr.bytes (address pos f)) ++ before, after, ?_, ?_⟩
          · show code.flatMap _ ++ linkedBytes (pos + sizeOf code) fs codes = _
            rw [hbytes]
            simp only [List.append_assoc]
          · rw [List.length_append, length_flatMap_bytes, hlen]

/-- **Where the flags fit, the code section is the VM's instructions.** -/
theorem linkedBytes_eq (hfs : List.Forall₂ FuncHolds fs codes) :
    ∀ pos, (∀ s ∈ codes.flatten, s.FlagFits) →
      linkedBytes pos fs codes = (linked pos fs codes).flatMap Instr.bytes := by
  induction hfs with
  | nil => exact fun _ _ => rfl
  | @cons f code fs codes hf _ ih =>
      intro pos hfit
      -- where every flag is a byte, the words are the VM's
      have hcode : code.flatMap (SourceInstr.bytes (address pos f))
          = (code.map (SourceInstr.instr (address pos f))).flatMap Instr.bytes := by
        rw [List.flatMap_map]
        refine List.flatMap_congr fun s hs => ?_
        exact SourceInstr.bytes_eq _ (hf.checked s hs)
          (hfit s (List.mem_flatten.2 ⟨code, List.mem_cons_self, hs⟩))
      show _ ++ linkedBytes _ fs codes
        = (code.map (SourceInstr.instr (address pos f)) ++ linked _ fs codes).flatMap Instr.bytes
      rw [List.flatMap_append, hcode, ih]
      intro s hs
      refine hfit s ?_
      rw [List.flatten_cons, List.mem_append]
      exact Or.inr hs

/-- The VM's instructions say what the lines say. -/
theorem linked_agrees (hfs : List.Forall₂ FuncHolds fs codes) :
    ∀ pos, (∀ s ∈ codes.flatten, s.FlagFits) →
      List.Forall₂ SourceInstr.Agrees codes.flatten (linked pos fs codes) := by
  induction hfs with
  | nil => exact fun _ _ => List.Forall₂.nil
  | @cons f code fs codes hf _ ih =>
      intro pos hfit
      rw [List.flatten_cons]
      refine List.rel_append ?_ (ih _ fun s hs => hfit s ?_)
      · rw [List.forall₂_map_right_iff, List.forall₂_same]
        intro s hs
        exact SourceInstr.agrees_instr _ (hf.checked s hs)
          (hfit s (List.mem_flatten.2 ⟨code, List.mem_cons_self, hs⟩))
      · rw [List.flatten_cons, List.mem_append]
        exact Or.inr hs

/-- Every instruction of the code section has the operand its opcode takes. -/
theorem linked_fits (hfs : List.Forall₂ FuncHolds fs codes) :
    ∀ pos, ∀ instr ∈ linked pos fs codes, instr.operand.Fits instr.opcode := by
  induction hfs with
  | nil => exact fun _ instr hmem => absurd hmem List.not_mem_nil
  | @cons f code fs codes hf _ ih =>
      intro pos instr hmem
      rcases List.mem_append.1 hmem with hmem | hmem
      · obtain ⟨s, hs, rfl⟩ := List.mem_map.1 hmem
        exact SourceInstr.fits_instr _ (hf.checked s hs)
      · exact ih _ instr hmem

/-- **Where a line stands**: behind the lines before it. -/
theorem linkedBytes_split (hfs : List.Forall₂ FuncHolds fs codes) :
    ∀ (pos : Nat) {k : Nat} {s : SourceInstr}, codes.flatten[k]? = some s →
      ∃ before after base f, f ∈ fs ∧
        linkedBytes pos fs codes = before ++ s.bytes (address base f) ++ after ∧
        before.length = sizeOf (codes.flatten.take k) := by
  induction hfs with
  | nil => exact fun pos k s h => absurd h (by simp)
  | @cons f code fs codes hf _ ih =>
      intro pos k s h
      rw [List.flatten_cons] at h ⊢
      by_cases hk : k < code.length
      · -- the instruction is one of the first function
        rw [List.getElem?_append_left hk] at h
        obtain ⟨hk, hget⟩ := List.getElem?_eq_some_iff.1 h
        have hsplit : code = code.take k ++ s :: code.drop (k + 1) := by
          rw [← hget, ← List.drop_eq_getElem_cons hk, List.take_append_drop]
        refine ⟨(code.take k).flatMap (SourceInstr.bytes (address pos f)),
          (code.drop (k + 1)).flatMap (SourceInstr.bytes (address pos f))
            ++ linkedBytes (pos + sizeOf code) fs codes, pos, f, List.mem_cons_self, ?_, ?_⟩
        · show code.flatMap _ ++ linkedBytes (pos + sizeOf code) fs codes = _
          conv_lhs => arg 1; rw [hsplit]
          rw [List.flatMap_append, List.flatMap_cons]
          simp only [List.append_assoc]
        · rw [length_flatMap_bytes, List.take_append_of_le_length (Nat.le_of_lt hk)]
      · -- it is one of the others, which start behind the first
        rw [List.getElem?_append_right (by omega)] at h
        obtain ⟨before, after, base, g, hg, hbytes, hlen⟩ := ih (pos + sizeOf code) h
        refine ⟨code.flatMap (SourceInstr.bytes (address pos f)) ++ before, after, base, g,
          List.mem_cons_of_mem _ hg, ?_, ?_⟩
        · show code.flatMap _ ++ linkedBytes (pos + sizeOf code) fs codes = _
          rw [hbytes]
          simp only [List.append_assoc]
        · rw [List.length_append, length_flatMap_bytes, hlen, List.take_append,
            List.take_of_length_le (Nat.le_of_not_lt hk)]
          unfold sizeOf
          rw [List.map_append, List.sum_append]

end Linked

/-! ## §3. The image. -/

/-- The words of the function table. -/
def tableWords : Nat → List Func → List Nat
  | _, [] => []
  | pos, f :: fs =>
      pos :: (f.frameSize % 2 ^ 32).toNat :: tableWords (pos + f.raw.length) fs

/-- The function table as words. -/
theorem funcTable_eq (fs : List Func) : ∀ pos, funcTable pos fs = wordBytes (tableWords pos fs) := by
  induction fs with
  | nil => exact fun _ => rfl
  | cons f fs ih =>
      intro pos
      have hpos : pack_u32 pos = bigEndian 4 pos := by
        unfold pack_u32
        rw [← bigEndian_mod 4 pos]
        congr 1
      show pack_u32 pos ++ pack_u32 f.frameSize ++ funcTable (pos + f.raw.length) fs = _
      rw [hpos, ih, List.append_assoc]
      rfl

/-- Two words for each function. -/
theorem length_tableWords (fs : List Func) : ∀ pos, (tableWords pos fs).length = 2 * fs.length := by
  induction fs with
  | nil => exact fun _ => rfl
  | cons f fs ih =>
      intro pos
      show (tableWords (pos + f.raw.length) fs).length + 1 + 1 = _
      rw [ih, List.length_cons]
      omega

/-- The words of the header. -/
def headerWords (functionCount code : Nat) : List Nat :=
  [SPROUT_LANG_MAGIC.toNat, SPROUT_LANG_VERSION.toNat, 0, 0, functionCount, HEADER_SIZE,
    HEADER_SIZE, code]

/-- **An image**: header, function table, and the lines of the functions. -/
structure Assembled (py : Python) (text : Str) (bytes : List Byte) (functions : List Func)
    (codes : List (List SourceInstr)) : Prop where
  said : List.Forall₂ (fun toks s => readLine py toks = some s) (instrLines py text) codes.flatten
  holds : List.Forall₂ FuncHolds functions codes
  resolved : Resolved (codeOffset functions) functions codes
  small : codeOffset functions < 2 ^ 32
  bytes_eq : bytes = wordBytes (headerWords functions.length (codeOffset functions))
    ++ wordBytes (tableWords (codeOffset functions) functions)
    ++ linkedBytes (codeOffset functions) functions codes

section Image

variable {py : Python} {text : Str} {bytes : List Byte} {functions : List Func}
  {codes : List (List SourceInstr)}

/-- What blocks say, line by line. -/
theorem says_flatten {blocks : List Block} (h : List.Forall₂ (Block.Says py) blocks codes) :
    List.Forall₂ (fun toks s => readLine py toks = some s) (instrLinesIn blocks) codes.flatten := by
  induction h with
  | nil => exact List.Forall₂.nil
  | cons hfirst _ ih => exact List.rel_append hfirst ih

/-- A header field that is written fits in 32 bits. -/
theorem packHeaderWord_eq_ok {n : Nat} {data : List Byte} (h : packHeaderWord n = .ok data) :
    n < 2 ^ 32 ∧ data = bigEndian 4 n := by
  unfold packHeaderWord at h
  split at h
  · rename_i hlt
    injection h with h
    exact ⟨hlt, h.symm⟩
  · exact absurd h (by simp)

/-- **The image of functions**: header, function table and linked code. -/
theorem emit_binary_effect (hfs : List.Forall₂ FuncHolds functions codes)
    (h : _emit_binary functions = .ok bytes) :
    Resolved (codeOffset functions) functions codes ∧ codeOffset functions < 2 ^ 32 ∧
      bytes = wordBytes (headerWords functions.length (codeOffset functions))
        ++ wordBytes (tableWords (codeOffset functions) functions)
        ++ linkedBytes (codeOffset functions) functions codes := by
  unfold _emit_binary at h
  obtain ⟨raws, hpatch, h⟩ := except_bind_eq_ok h
  obtain ⟨header, hheader, h⟩ := except_bind_eq_ok h
  injection h with h
  -- two fields of the header have to fit, the others are constants
  unfold packHeader at hheader
  obtain ⟨count, hcount, hheader⟩ := except_bind_eq_ok hheader
  obtain ⟨code, hcode, hheader⟩ := except_bind_eq_ok hheader
  injection hheader with hheader
  obtain ⟨hlinked, hresolved⟩ := patchAll_bytes hfs _ _ hpatch
  obtain ⟨hsmall, hcode⟩ := packHeaderWord_eq_ok hcode
  refine ⟨hresolved, hsmall, ?_⟩
  rw [← h, ← hheader, hlinked, funcTable_eq, (packHeaderWord_eq_ok hcount).2, hcode]
  unfold headerWords wordBytes
  simp only [List.flatMap_cons, List.flatMap_nil, List.append_nil, List.append_assoc]

/-- There is one where the labels are found and the code starts at an address
that fits. -/
theorem emit_binary_runs (hfs : List.Forall₂ FuncHolds functions codes)
    (hresolved : Resolved (codeOffset functions) functions codes)
    (hsmall : codeOffset functions < 2 ^ 32) : ∃ bytes, _emit_binary functions = .ok bytes := by
  obtain ⟨raws, hpatch⟩ := patchAll_runs hfs _ hresolved
  have hcode : packHeaderWord (codeOffset functions) = .ok (bigEndian 4 (codeOffset functions)) :=
    if_pos hsmall
  have hcount : packHeaderWord functions.length = .ok (bigEndian 4 functions.length) := by
    refine if_pos ?_
    unfold codeOffset HEADER_SIZE FUNC_ENTRY_SIZE at hsmall
    omega
  simp only [_emit_binary, packHeader, except_bind_ok hpatch, except_bind_ok hcount,
    except_bind_ok hcode]
  exact ⟨_, rfl⟩

/-- **The image of what the first pass leaves.** -/
theorem assembled_of_pass {a : Asm} (hpass : _pass1 py (readlines text) = .ok a)
    (h : _emit_binary a.functions = .ok bytes) :
    ∃ codes, Assembled py text bytes a.functions codes ∧
      List.Forall₂ (Block.Says py) (blocksOf py text) codes ∧
      List.Forall₂ (Func.Declared py) a.functions (blocksOf py text) := by
  obtain ⟨codes, htracks, hlines⟩ := pass1_tracks hpass
  obtain ⟨hresolved, hsmall, hbytes⟩ := emit_binary_effect htracks.holds h
  have hsaid := says_flatten htracks.said
  rw [hlines] at hsaid
  exact ⟨codes, ⟨hsaid, htracks.holds, hresolved, hsmall, hbytes⟩, htracks.said, htracks.declared⟩

/-- **What the assembler makes of an accepted text**: a function for each
block. -/
theorem assemble_blocks (h : assemble py text = .ok bytes) :
    ∃ functions codes, Assembled py text bytes functions codes ∧
      List.Forall₂ (Block.Says py) (blocksOf py text) codes ∧
      List.Forall₂ (Func.Declared py) functions (blocksOf py text) := by
  unfold assemble at h
  obtain ⟨a, hpass, h⟩ := except_bind_eq_ok h
  obtain ⟨codes, himage⟩ := assembled_of_pass hpass h
  exact ⟨a.functions, codes, himage⟩

/-- **What an assembled file consists of.** -/
theorem assemble_image (h : assemble py text = .ok bytes) :
    ∃ functions codes, Assembled py text bytes functions codes := by
  obtain ⟨functions, codes, himage, -⟩ := assemble_blocks h
  exact ⟨functions, codes, himage⟩

/-- The code starts behind the function table. -/
theorem Assembled.length_front :
    (wordBytes (headerWords functions.length (codeOffset functions))
      ++ wordBytes (tableWords (codeOffset functions) functions)).length = codeOffset functions := by
  rw [List.length_append, length_wordBytes, length_wordBytes, length_tableWords]
  show 4 * 8 + 4 * (2 * functions.length) = 32 + functions.length * 8
  omega

/-- **The header the VM reads.** -/
theorem Assembled.loadHeader (h : Assembled py text bytes functions codes) :
    ∃ header, SproutLang.loadHeader bytes = .ok header ∧
      header.codeOffset.toNat = codeOffset functions ∧
      header.functionCount = BitVec.ofNat 32 functions.length ∧
      header.functionOffset.toNat = HEADER_SIZE := by
  have hheader := loadHeader_wordBytes 0 0 functions.length HEADER_SIZE HEADER_SIZE
    (codeOffset functions) (wordBytes (tableWords (codeOffset functions) functions)
      ++ linkedBytes (codeOffset functions) functions codes)
  have hbytes := h.bytes_eq
  rw [List.append_assoc] at hbytes
  unfold headerWords at hbytes
  rw [hbytes]
  refine ⟨_, hheader, ?_, rfl, ?_⟩
  · rw [BitVec.toNat_ofNat, Nat.mod_eq_of_lt h.small]
  · rw [BitVec.toNat_ofNat]
    rfl

/-- The bytes of an instruction line. -/
def lineWidth (py : Python) (toks : List Str) : Nat :=
  match mnemonicOf py toks with
  | some op => op.width
  | none => 0

/-- Where the code section of an image starts. -/
def codeStart (bytes : List Byte) : Nat :=
  match SproutLang.loadHeader bytes with
  | .ok header => header.codeOffset.toNat
  | .error _ => 0

/-- **The image offset of the `k`-th instruction line.** -/
def lineOffset (py : Python) (text : Str) (bytes : List Byte) (k : Nat) : Nat :=
  codeStart bytes + (((instrLines py text).take k).map (lineWidth py)).sum

/-- A line that says an instruction has a mnemonic and operands for it. -/
theorem readLine_eq_some {toks : List Str} {s : SourceInstr} (h : readLine py toks = some s) :
    ∃ op, mnemonicOf py toks = some op ∧ readInstr py op toks = .ok s := by
  unfold readLine at h
  cases hop : mnemonicOf py toks with
  | none =>
      simp only [hop] at h
      exact absurd h (by simp)
  | some op =>
      simp only [hop] at h
      cases hread : readInstr py op toks with
      | error e =>
          rw [hread] at h
          exact absurd h (by simp [Except.toOption])
      | ok s' =>
          rw [hread] at h
          injection h with h
          subst h
          exact ⟨op, rfl, hread⟩

/-- A line that says an instruction has its width. -/
theorem lineWidth_of_readLine {toks : List Str} {s : SourceInstr} (h : readLine py toks = some s) :
    lineWidth py toks = s.width := by
  obtain ⟨op, hop, hread⟩ := readLine_eq_some h
  unfold lineWidth
  rw [hop]
  exact (readInstr_effect hread).2.1.symm

/-- A line with the mnemonic `call` says a call. -/
theorem readLine_call {toks : List Str} {s : SourceInstr} (h : readLine py toks = some s)
    (hcall : s.opcode = .opCall) : ∃ index, s = .call index := by
  obtain ⟨op, -, hread⟩ := readLine_eq_some h
  obtain rfl : s.opcode = op := (readInstr_effect hread).1
  rw [hcall] at hread
  obtain ⟨tok, -, hread⟩ := except_bind_eq_ok hread
  obtain ⟨index, -, hread⟩ := except_bind_eq_ok hread
  injection hread with hread
  exact ⟨index, hread.symm⟩

/-- The lines take the bytes of what they say. -/
theorem sum_lineWidth {lines : List (List Str)} {said : List SourceInstr}
    (h : List.Forall₂ (fun toks s => readLine py toks = some s) lines said) :
    (lines.map (lineWidth py)).sum = sizeOf said := by
  induction h with
  | nil => rfl
  | cons hread _ ih =>
      unfold sizeOf at *
      rw [List.map_cons, List.map_cons, List.sum_cons, List.sum_cons, ih,
        lineWidth_of_readLine hread]

/-- Members at one position of two related lists are related. -/
theorem forall₂_getElem? {α β : Type} {R : α → β → Prop} {xs : List α} {ys : List β}
    (h : List.Forall₂ R xs ys) {k : Nat} {x : α} (hx : xs[k]? = some x) :
    ∃ y, ys[k]? = some y ∧ R x y := by
  induction h generalizing k with
  | nil => exact absurd hx (by simp)
  | cons hfirst _ ih =>
      cases k with
      | zero =>
          injection hx with hx
          subst hx
          exact ⟨_, rfl, hfirst⟩
      | succ k => exact ih hx

/-- What is checked of every function is checked of every line. -/
theorem checked_of_mem {s : SourceInstr} (hfs : List.Forall₂ FuncHolds functions codes)
    (hs : s ∈ codes.flatten) : s.Checked := by
  induction hfs with
  | nil => exact absurd hs (by simp)
  | @cons f code fs codes hf _ ih =>
      rw [List.flatten_cons] at hs
      rcases List.mem_append.1 hs with hs | hs
      · exact hf.checked s hs
      · exact ih hs

/-- The file says where its code starts. -/
theorem Assembled.codeStart (h : Assembled py text bytes functions codes) :
    codeStart bytes = codeOffset functions := by
  obtain ⟨header, hheader, hoffset, -, -⟩ := h.loadHeader
  unfold SproutLang.Assembler.codeStart
  rw [hheader]
  exact hoffset

/-- **An instruction line in the image**: what it says, at its offset. -/
theorem Assembled.line (h : Assembled py text bytes functions codes) {k : Nat} {toks : List Str}
    (hk : (instrLines py text)[k]? = some toks) :
    ∃ s base f, readLine py toks = some s ∧ s.Checked ∧ f ∈ functions ∧
      ∃ before after, bytes = before ++ s.bytes (address base f) ++ after ∧
        before.length = lineOffset py text bytes k := by
  obtain ⟨s, hs, hread⟩ := forall₂_getElem? h.said hk
  obtain ⟨before, after, base, f, hf, hbytes, hlen⟩ :=
    linkedBytes_split h.holds (codeOffset functions) hs
  refine ⟨s, base, f, hread, checked_of_mem h.holds (List.mem_of_getElem? hs), hf,
    wordBytes (headerWords functions.length (codeOffset functions))
      ++ wordBytes (tableWords (codeOffset functions) functions) ++ before, after, ?_, ?_⟩
  · rw [h.bytes_eq, hbytes]
    simp only [List.append_assoc]
  · unfold lineOffset
    rw [List.length_append, Assembled.length_front, hlen, h.codeStart,
      sum_lineWidth (List.forall₂_take k h.said)]

/-- An instruction is at least a byte. -/
theorem length_le_flatMap_bytes (instrs : List Instr) :
    instrs.length ≤ (instrs.flatMap Instr.bytes).length := by
  induction instrs with
  | nil => exact Nat.le_refl 0
  | cons instr instrs ih =>
      rw [List.flatMap_cons, List.length_append, List.length_cons]
      have hword : 4 ≤ instr.bytes.length := by
        unfold Instr.bytes
        rw [List.length_append, length_bigEndian]
        omega
      omega

/-- **Decoding the code section** gives the VM's instructions of the lines. -/
theorem Assembled.decodeCode (h : Assembled py text bytes functions codes)
    (hfit : ∀ s ∈ codes.flatten, s.FlagFits) :
    decodeCode bytes = some (linked (codeOffset functions) functions codes) := by
  obtain ⟨header, hheader, hoffset, -, -⟩ := h.loadHeader
  have hbytes := h.bytes_eq
  rw [linkedBytes_eq h.holds _ hfit] at hbytes
  unfold SproutLang.decodeCode
  rw [hheader]
  show instrsFrom bytes bytes.length header.codeOffset.toNat = _
  have hcount := length_le_flatMap_bytes (linked (codeOffset functions) functions codes)
  rw [hoffset, hbytes]
  -- the code section starts behind the header and the table
  have hread := instrsFrom_bytes (linked (codeOffset functions) functions codes)
    (wordBytes (headerWords functions.length (codeOffset functions))
      ++ wordBytes (tableWords (codeOffset functions) functions)) bytes.length
    (linked_fits h.holds _) (by
      rw [hbytes, List.length_append]
      omega)
  rw [Assembled.length_front, hbytes] at hread
  exact hread

end Image

end SproutLang.Assembler
