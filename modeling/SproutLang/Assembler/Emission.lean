/-
  SproutLang.Assembler.Emission
  ─────────────────────────────
  **THE FIRST PASS.**

  What one line does to the assembler's object (`LineEffect`), and what the
  pass makes of a text: the functions in order, each with the bytes of its
  instruction lines, a patch for each branch and labels that name offsets of
  lines (`FuncHolds`).
-/
import SproutLang.Assembler.Lines
import Mathlib.Data.List.Forall2

namespace SproutLang.Assembler

open Library

/-! ## §1. One line. -/

/-- **What a line that is handled has done**: opened or closed a function,
defined a label, or emitted what an instruction line says. -/
inductive LineEffect (py : Python) (toks : List Str) (a : Asm) : Asm → Prop where
  | func {name : Str} {frameSize : Int} (closed : a.inFunc = false)
      (mnemonic : mnemonicOf py toks = none) (head : isFuncLine py toks = true)
      (declared : frameSizeOf py (toks.drop 2) 0 = .ok frameSize) :
      LineEffect py toks a (a.openFunc name frameSize)
  | endfunc (opened : a.inFunc = true) (mnemonic : mnemonicOf py toks = none)
      (head : isFuncLine py toks = false) : LineEffect py toks a { a with inFunc := false }
  | label {name : Str} (opened : a.inFunc = true) (mnemonic : mnemonicOf py toks = none)
      (head : isFuncLine py toks = false) :
      LineEffect py toks a (a.modifyLast fun f => f.addLabel name)
  | instr {op : Opcode} {s : SourceInstr} (opened : a.inFunc = true)
      (mnemonic : mnemonicOf py toks = some op) (read : readInstr py op toks = .ok s)
      (checked : s.Checked) : LineEffect py toks a (a.emit s)

section Line

variable {py : Python} {toks : List Str} {a a' : Asm}

/-- What is left behind a line that is not refused is its effect. -/
theorem after_effect (h : refusal py a.inFunc toks = none) :
    LineEffect py toks a (a.after py toks) := by
  unfold Asm.after
  cases hkind : lineKind py toks with
  | func =>
      obtain ⟨hclosed, n, hdeclared⟩ := refusal_func hkind h
      simp only [hdeclared]
      exact LineEffect.func hclosed (mnemonicOf_directive (by rw [hkind]; decide))
        (isFuncLine_iff.2 hkind) hdeclared
  | endfunc =>
      exact LineEffect.endfunc (refusal_inside (by rw [hkind]; decide) h)
        (mnemonicOf_directive (by rw [hkind]; decide)) (isFuncLine_other (by rw [hkind]; decide))
  | label =>
      exact LineEffect.label (refusal_inside (by rw [hkind]; decide) h)
        (mnemonicOf_directive (by rw [hkind]; decide)) (isFuncLine_other (by rw [hkind]; decide))
  | instr =>
      obtain ⟨op, s, hop, hread, hchecked⟩ := refusal_instr hkind h
      simp only [readLine_of hop hread]
      exact LineEffect.instr (refusal_inside (by rw [hkind]; decide) h) hop hread hchecked

/-- **Every line that is handled has its effect.** -/
theorem handle_tokens_effect (h : _handle_tokens py toks a = .ok () a') :
    LineEffect py toks a a' := by
  rw [handle_tokens_eq] at h
  cases hrefusal : refusal py a.inFunc toks with
  | some e =>
      rw [outcome_some hrefusal] at h
      cases h
  | none =>
      rw [outcome_none hrefusal] at h
      injection h with _ ha
      rw [← ha]
      exact after_effect hrefusal

end Line

/-! ## §2. The pass. -/

/-- The bytes a list of lines takes. -/
def sizeOf (code : List SourceInstr) : Nat := (code.map SourceInstr.width).sum

/-- The patches of lines whose first byte is at `offset`. -/
def patchesOf : Nat → List SourceInstr → List (Nat × Str)
  | _, [] => []
  | offset, s :: code => s.patch offset ++ patchesOf (offset + s.width) code

/-- **A function as the pass leaves it**: `code` are its instruction lines. -/
structure FuncHolds (f : Func) (code : List SourceInstr) : Prop where
  checked : ∀ s ∈ code, s.Checked
  raw : f.raw = code.flatMap (SourceInstr.bytes fun _ => 0)
  patches : f.patches = patchesOf 0 code
  labels : ∀ p ∈ f.labels, ∃ before after, code = before ++ after ∧ p.2 = sizeOf before

section Pass

variable {py : Python} {toks : List Str} {a a' : Asm} {f : Func} {code : List SourceInstr}
  {s : SourceInstr}

/-- Code is as long as the widths of its instructions add up to. -/
theorem length_flatMap_bytes (address : Str → Nat) (code : List SourceInstr) :
    (code.flatMap (SourceInstr.bytes address)).length = sizeOf code := by
  rw [List.length_flatMap]
  congr 1
  exact List.map_congr_left fun s _ => SourceInstr.length_bytes address s

/-- One more instruction adds its patch, at the offset the code has reached. -/
theorem patchesOf_append (offset : Nat) (code : List SourceInstr) (s : SourceInstr) :
    patchesOf offset (code ++ [s]) = patchesOf offset code ++ s.patch (offset + sizeOf code) := by
  induction code generalizing offset with
  | nil => simp [patchesOf, sizeOf]
  | cons t code ih =>
      show t.patch offset ++ patchesOf (offset + t.width) (code ++ [s]) = _
      rw [ih, ← List.append_assoc]
      have hsize : offset + t.width + sizeOf code = offset + sizeOf (t :: code) := by
        simp only [sizeOf, List.map_cons, List.sum_cons]
        omega
      rw [hsize]
      rfl

/-- A function's bytes are as many as its code says. -/
theorem FuncHolds.length_raw (h : FuncHolds f code) : f.raw.length = sizeOf code := by
  rw [h.raw, length_flatMap_bytes]

/-- Emitting a line adds it to the function's lines. -/
theorem FuncHolds.emit (h : FuncHolds f code) (hs : s.Checked) :
    FuncHolds (f.emit s) (code ++ [s]) where
  checked t ht := by
    rcases List.mem_append.1 ht with ht | ht
    · exact h.checked t ht
    · rw [List.mem_singleton.1 ht]
      exact hs
  raw := by
    show f.raw ++ _ = _
    rw [h.raw, List.flatMap_append, List.flatMap_singleton]
  patches := by
    show f.patches ++ s.patch f.raw.length = _
    rw [h.patches, h.length_raw, patchesOf_append, Nat.zero_add]
  labels p hp := by
    obtain ⟨before, after, hcode, hoffset⟩ := h.labels p hp
    exact ⟨before, after ++ [s], by rw [hcode, List.append_assoc], hoffset⟩

/-- A label names the end of the lines so far. -/
theorem FuncHolds.addLabel (h : FuncHolds f code) (name : Str) :
    FuncHolds (f.addLabel name) code where
  checked := h.checked
  raw := h.raw
  patches := h.patches
  labels p hp := by
    rcases List.mem_cons.1 hp with rfl | hp
    · exact ⟨code, [], by rw [List.append_nil], h.length_raw⟩
    · exact h.labels p hp

/-- A function that has just been opened holds no code. -/
theorem FuncHolds.empty (name : Str) (frameSize : Int) :
    FuncHolds { name, frameSize, labels := [], patches := [], raw := [] } [] :=
  ⟨by simp, rfl, rfl, by simp⟩

/-- What a block says. -/
def Block.Says (py : Python) (b : Block) (code : List SourceInstr) : Prop :=
  List.Forall₂ (fun toks s => readLine py toks = some s) b.lines code

/-- A function has the frame size its block declares. -/
def Func.Declared (py : Python) (f : Func) (b : Block) : Prop :=
  frameSizeOf py (b.directive.drop 2) 0 = .ok f.frameSize

/-- **The object after some lines**: its functions are those of the blocks. -/
structure Tracks (py : Python) (a : Asm) (codes : List (List SourceInstr)) (blocks : List Block) :
    Prop where
  holds : List.Forall₂ FuncHolds a.functions codes
  said : List.Forall₂ (Block.Says py) blocks codes
  declared : List.Forall₂ (Func.Declared py) a.functions blocks
  opened : a.inFunc = true → a.functions ≠ []

/-- A list relation to a list with a last element. -/
theorem forall₂_snoc {α β : Type} {R : α → β → Prop} {xs : List α} {x : α} :
    ∀ {ys : List β}, List.Forall₂ R (xs ++ [x]) ys →
      ∃ ys' y, ys = ys' ++ [y] ∧ List.Forall₂ R xs ys' ∧ R x y := by
  induction xs with
  | nil =>
      intro ys h
      obtain ⟨y, rest, hy, hnil, rfl⟩ := List.forall₂_cons_left_iff.1 h
      rw [List.forall₂_nil_left_iff.1 hnil]
      exact ⟨[], y, rfl, List.Forall₂.nil, hy⟩
  | cons x' xs ih =>
      intro ys h
      obtain ⟨y', rest, hy', hrest, rfl⟩ := List.forall₂_cons_left_iff.1 h
      obtain ⟨ys', y, rfl, hys', hy⟩ := ih hrest
      exact ⟨y' :: ys', y, rfl, List.Forall₂.cons hy' hys', hy⟩

/-- An instruction line belongs to the last block. -/
theorem addLine_instr {blocks : List Block} {b : Block} (hop : (mnemonicOf py toks).isSome = true) :
    addLine py (blocks ++ [b]) toks = blocks ++ [{ b with lines := b.lines ++ [toks] }] := by
  have hno : isFuncLine py toks = false := by
    rw [Bool.eq_false_iff]
    intro hfunc
    rw [mnemonicOf_eq_none (Or.inl (of_decide_eq_true hfunc))] at hop
    exact absurd hop (by decide)
  unfold addLine
  rw [hno, if_neg Bool.false_ne_true, if_pos hop, List.getLast?_concat, List.dropLast_concat]

/-- A line without a mnemonic that opens no block is of no block. -/
theorem addLine_other {blocks : List Block} (hno : isFuncLine py toks = false)
    (hop : mnemonicOf py toks = none) : addLine py blocks toks = blocks := by
  unfold addLine
  rw [hno, if_neg Bool.false_ne_true, hop, if_neg (by decide)]

theorem addLine_func {blocks : List Block} (hfunc : isFuncLine py toks = true) :
    addLine py blocks toks = blocks ++ [⟨toks, []⟩] := if_pos hfunc

section Step

variable {codes : List (List SourceInstr)} {blocks : List Block}

/-- A change of the open function that keeps to its lines and its frame size,
and adds `more`. -/
theorem Tracks.modifyLast (h : Tracks py a codes blocks) (hopen : a.inFunc = true)
    {more : List SourceInstr} {lines : List (List Str)}
    (hmore : List.Forall₂ (fun toks s => readLine py toks = some s) lines more) {g : Func → Func}
    (hg : ∀ f code, FuncHolds f code → FuncHolds (g f) (code ++ more))
    (hframe : ∀ f, (g f).frameSize = f.frameSize) :
    ∃ before b, blocks = before ++ [b] ∧ ∃ codes',
      Tracks py (a.modifyLast g) codes' (before ++ [{ b with lines := b.lines ++ lines }]) := by
  rcases a.functions_cases with hnil | ⟨fs, f, hsnoc⟩
  · exact absurd hnil (h.opened hopen)
  · have hholds := h.holds
    have hdeclared := h.declared
    rw [hsnoc] at hholds hdeclared
    obtain ⟨codes, code, rfl, hfs, hf⟩ := forall₂_snoc hholds
    obtain ⟨blocks, b, rfl, hbs, hb⟩ := forall₂_snoc hdeclared
    obtain ⟨codes', code', heq, hsaid, hsay⟩ := forall₂_snoc h.said
    obtain ⟨rfl, hcode⟩ := List.append_inj' heq rfl
    obtain rfl : code = code' := List.singleton_inj.1 hcode
    refine ⟨blocks, b, rfl, codes ++ [code ++ more], ?_, ?_, ?_, fun _ => ?_⟩
    · rw [Asm.modifyLast_snoc hsnoc]
      exact List.rel_append hfs (List.Forall₂.cons (hg f code hf) List.Forall₂.nil)
    · exact List.rel_append hsaid
        (List.Forall₂.cons (List.rel_append hsay hmore) List.Forall₂.nil)
    · rw [Asm.modifyLast_snoc hsnoc]
      -- the frame size is that of the directive still
      have hdecl : Func.Declared py (g f) { b with lines := b.lines ++ lines } := by
        unfold Func.Declared
        rw [hframe]
        exact hb
      exact List.rel_append hbs (List.Forall₂.cons hdecl List.Forall₂.nil)
    · rw [Asm.modifyLast_snoc hsnoc]
      simp

/-- The instruction lines of blocks. -/
def instrLinesIn (blocks : List Block) : List (List Str) := blocks.flatMap Block.lines

/-- **One line more.** -/
theorem LineEffect.tracks (heffect : LineEffect py toks a a') (h : Tracks py a codes blocks) :
    (∃ codes', Tracks py a' codes' (addLine py blocks toks)) ∧
      instrLinesIn (addLine py blocks toks)
        = instrLinesIn blocks ++ if (mnemonicOf py toks).isSome then [toks] else [] := by
  cases heffect with
  | @func name frameSize closed mnemonic head declared =>
      rw [addLine_func head, mnemonic, if_neg (by decide)]
      -- a new function, empty so far
      refine ⟨⟨codes ++ [[]], ?_, ?_, ?_, fun _ => by simp [Asm.openFunc]⟩, ?_⟩
      · exact List.rel_append h.holds
          (List.Forall₂.cons (FuncHolds.empty name frameSize) List.Forall₂.nil)
      · exact List.rel_append h.said (List.Forall₂.cons List.Forall₂.nil List.Forall₂.nil)
      · exact List.rel_append h.declared (List.Forall₂.cons declared List.Forall₂.nil)
      · unfold instrLinesIn
        rw [List.flatMap_append, List.flatMap_singleton]
  | endfunc opened mnemonic head =>
      rw [addLine_other head mnemonic, mnemonic, if_neg (by decide), List.append_nil]
      exact ⟨⟨codes, h.holds, h.said, h.declared, fun hopen => absurd hopen Bool.false_ne_true⟩,
        rfl⟩
  | @label name opened mnemonic head =>
      rw [addLine_other head mnemonic, mnemonic, if_neg (by decide), List.append_nil]
      refine ⟨?_, rfl⟩
      obtain ⟨before, b, rfl, codes', htracks⟩ := h.modifyLast opened List.Forall₂.nil
        (g := fun f => f.addLabel name)
        (fun f code hf => by rw [List.append_nil]; exact hf.addLabel name) fun _ => rfl
      rw [List.append_nil] at htracks
      exact ⟨codes', htracks⟩
  | @instr op s opened mnemonic read checked =>
      have hsome : (mnemonicOf py toks).isSome = true := by rw [mnemonic]; rfl
      have hread := readLine_of mnemonic read
      obtain ⟨before, b, rfl, codes', htracks⟩ := h.modifyLast opened
        (List.Forall₂.cons hread List.Forall₂.nil) (g := fun f => f.emit s)
        (fun f code hf => hf.emit checked) fun _ => rfl
      rw [addLine_instr hsome, if_pos hsome]
      refine ⟨⟨codes', htracks⟩, ?_⟩
      unfold instrLinesIn
      simp only [List.flatMap_append, List.flatMap_singleton, List.append_assoc]

end Step

/-- The instruction lines among lines. -/
def instrLinesOf (py : Python) (lines : List Str) : List (List Str) :=
  (lines.map tokenise_line).filter fun toks => (mnemonicOf py toks).isSome

/-- **The first pass** emits what each instruction line of each block says, in
order. -/
theorem passLines_tracks (lines : List Str) :
    ∀ (lineno : Nat) (a : Asm) (codes : List (List SourceInstr)) (blocks : List Block),
      passLines py lineno lines a = .ok a' → Tracks py a codes blocks →
      (∃ codes', Tracks py a' codes' ((lines.map tokenise_line).foldl (addLine py) blocks)) ∧
        instrLinesIn ((lines.map tokenise_line).foldl (addLine py) blocks)
          = instrLinesIn blocks ++ instrLinesOf py lines := by
  induction lines with
  | nil =>
      intro lineno a codes blocks h htracks
      injection h with h
      subst h
      exact ⟨⟨codes, htracks⟩, (List.append_nil _).symm⟩
  | cons raw lines ih =>
      intro lineno a codes blocks h htracks
      unfold passLines at h
      simp only at h
      have hcons : instrLinesOf py (raw :: lines)
          = (if (mnemonicOf py (tokenise_line raw)).isSome then [tokenise_line raw] else [])
            ++ instrLinesOf py lines := by
        unfold instrLinesOf
        rw [List.map_cons, List.filter_cons]
        split <;> rfl
      rw [hcons, List.map_cons, List.foldl_cons]
      split at h
      · -- a blank line is of no block
        rename_i hblank
        have hno : isFuncLine py [] = false := by
          have hlower : py.lower [] = [] := py.lower_ascii [] (by simp)
          unfold isFuncLine
          rw [List.headD_nil, hlower]
          rfl
        rw [hblank, addLine_other hno mnemonicOf_nil, mnemonicOf_nil, if_neg (by decide)]
        exact ih _ _ _ _ h htracks
      · cases hrun : _handle_tokens py (tokenise_line raw) a with
        | error e a1 =>
            simp only [hrun] at h
            split at h
            · exact absurd h (by simp)
            · exact absurd h (by simp)
        | ok _ a1 =>
            simp only [hrun] at h
            -- what the line has done, and then the lines behind it
            have heffect := handle_tokens_effect hrun
            obtain ⟨⟨codes1, htracks1⟩, hlines⟩ := heffect.tracks htracks
            obtain ⟨htracks', hlines'⟩ := ih _ _ _ _ h htracks1
            refine ⟨htracks', ?_⟩
            rw [hlines', hlines, List.append_assoc]

/-- **What the first pass makes of a text.** -/
theorem pass1_tracks {text : Str} (h : _pass1 py (readlines text) = .ok a) :
    ∃ codes, Tracks py a codes (blocksOf py text) ∧
      instrLinesIn (blocksOf py text) = instrLines py text := by
  unfold _pass1 at h
  obtain ⟨a1, hpass, h⟩ := except_bind_eq_ok h
  have hstart : Tracks py { functions := [], inFunc := false } [] [] :=
    ⟨List.Forall₂.nil, List.Forall₂.nil, List.Forall₂.nil,
      fun hopen => absurd hopen Bool.false_ne_true⟩
  obtain ⟨⟨codes, htracks⟩, hlines⟩ := passLines_tracks (readlines text) 1 _ [] [] hpass hstart
  split at h
  · obtain ⟨_, hthrow, _⟩ := except_bind_eq_ok h
    injection hthrow
  · injection h with h
    subst h
    exact ⟨codes, htracks, hlines⟩

end Pass

end SproutLang.Assembler
