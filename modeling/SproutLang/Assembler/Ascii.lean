/-
  SproutLang.Assembler.Ascii
  ──────────────────────────
  **TEXTS WHOSE TOKENS ARE ASCII.**

  The interpreter's tables are looked at for the characters of a token only,
  never for those of a comment.  On ASCII tokens all interpreters agree, up to
  `float()`, which is asked where no integer is read.  So a text that the
  interpreter without floats assembles has one image (`assemble_ascii`).
-/
import SproutLang.Assembler.Lines

namespace SproutLang.Assembler

open Library

/-- Tokens of ASCII characters. -/
def AsciiTokens (toks : List Str) : Prop := ∀ tok ∈ toks, ∀ c ∈ tok, isAscii c = true

-- not by going through all characters
instance (toks : List Str) : Decidable (AsciiTokens toks) :=
  @List.decidableBAll _ _ (fun tok => List.decidableBAll (fun c => isAscii c = true) tok) toks

/-! ## §1. One token. -/

section Token

variable (py : Python) {tok : Str}

theorem lower_agrees (h : ∀ c ∈ tok, isAscii c = true) : py.lower tok = Python.ascii.lower tok := by
  rw [py.lower_ascii tok h, Python.ascii.lower_ascii tok h]

theorem toAsciiDigits_ascii (h : ∀ c ∈ tok, isAscii c = true) : py.toAsciiDigits tok = tok := by
  unfold Python.toAsciiDigits
  conv_rhs => rw [← List.map_id tok]
  apply List.map_congr_left
  intro c hc
  exact if_pos (h c hc)

/-- An ASCII token is the same decimal number to every interpreter. -/
theorem int10_agrees (h : ∀ c ∈ tok, isAscii c = true) : py.int10 tok = Python.ascii.int10 tok := by
  unfold Python.int10
  rw [toAsciiDigits_ascii py h, toAsciiDigits_ascii Python.ascii h]

theorem int0_agrees (h : ∀ c ∈ tok, isAscii c = true) : py.int0 tok = Python.ascii.int0 tok := by
  unfold Python.int0
  rw [toAsciiDigits_ascii py h, toAsciiDigits_ascii Python.ascii h]

theorem intOf_agrees (h : ∀ c ∈ tok, isAscii c = true) : intOf py tok = intOf Python.ascii tok := by
  unfold intOf
  rw [int0_agrees py h]

theorem parse_reg_agrees (h : ∀ c ∈ tok, isAscii c = true) :
    parse_reg py tok = parse_reg Python.ascii tok := by
  have hnumber : ∀ c ∈ tok.drop 1, isAscii c = true := fun c hc => h c (List.mem_of_mem_drop hc)
  unfold parse_reg
  rw [lower_agrees py h, int10_agrees py hnumber]

/-- A literal without floats is the same everywhere. -/
theorem encode_value_agrees (h : ∀ c ∈ tok, isAscii c = true) {v : Nat}
    (hv : encode_value Python.ascii tok = .ok v) : encode_value py tok = .ok v := by
  unfold encode_value at hv ⊢
  rw [int0_agrees py h]
  cases hint : Python.ascii.int0 tok with
  | some n =>
      rw [hint] at hv
      exact hv
  | none =>
      rw [hint] at hv
      -- no integer: only the keywords and the quotes are left
      split_ifs at hv ⊢ with hnull hbool hquoted
      · exact hv
      · exact hv
      · exact hv
      · cases hv

end Token

/-! ## §2. One line. -/

section Line

variable (py : Python) {toks : List Str} {op : Opcode} {inFunc : Bool} {a : Asm}

theorem AsciiTokens.head (h : AsciiTokens toks) : ∀ c ∈ toks.headD [], isAscii c = true := by
  cases toks with
  | nil => exact fun c hc => absurd hc List.not_mem_nil
  | cons tok toks => exact h tok List.mem_cons_self

theorem lineHead_agrees (h : AsciiTokens toks) : lineHead py toks = lineHead Python.ascii toks :=
  lower_agrees py h.head

/-- An ASCII line is of one kind for every interpreter. -/
theorem lineKind_agrees (h : AsciiTokens toks) : lineKind py toks = lineKind Python.ascii toks := by
  unfold lineKind
  rw [lineHead_agrees py h]

theorem mnemonicOf_agrees (h : AsciiTokens toks) :
    mnemonicOf py toks = mnemonicOf Python.ascii toks :=
  congrArg (OPCODES.lookup ·) (lineHead_agrees py h)

/-- Token `i`, handed to functions that agree on it. -/
theorem tokAt_agrees {α : Type} {f g : Str → Except PyError α} (i : Nat)
    (hfg : ∀ tok ∈ toks, f tok = g tok) : tokAt toks i >>= f = tokAt toks i >>= g := by
  unfold tokAt
  cases htok : toks[i]? with
  | none => rfl
  | some tok => exact hfg tok (List.mem_of_getElem? htok)

/-- An ASCII operand is one register for every interpreter. -/
theorem regAt_agrees (h : AsciiTokens toks) (i : Nat) :
    regAt py toks i = regAt Python.ascii toks i :=
  tokAt_agrees i fun tok htok => parse_reg_agrees py (h tok htok)

/-- **What a line says does not depend on the interpreter.** -/
theorem readInstr_agrees (h : AsciiTokens toks) {s : SourceInstr}
    (hread : readInstr Python.ascii op toks = .ok s) : readInstr py op toks = .ok s := by
  -- a register, a number or a literal, each read by a function that agrees
  have hreg := regAt_agrees py h
  unfold readInstr at hread ⊢
  cases op with
  | opAdd | opSub | opMul | opDiv | opInsertIntoStack | opReadFromStack | opArrInit | opArrInsert
  | opArrRead | opCmp | opPush | opPop | opEnd | opDebugReturn =>
      simp only [hreg]
      exact hread
  | opRet | opJe | opJne | opJl | opJg => exact hread
  | opLoad64 =>
      obtain ⟨dst, hdst, hread⟩ := except_bind_eq_ok hread
      obtain ⟨tok, htok, hread⟩ := except_bind_eq_ok hread
      obtain ⟨literal, hliteral, hread⟩ := except_bind_eq_ok hread
      have htoks : tok ∈ toks := List.mem_of_getElem? (tokAt_eq_ok htok)
      simp only [hreg, hdst, except_bind_ok rfl, htok,
        encode_value_agrees py (h tok htoks) hliteral]
      exact hread
  | opCall =>
      rw [← hread]
      apply tokAt_agrees
      intro tok htok
      rw [intOf_agrees py (h tok htok)]
  | opMov =>
      simp only [hreg]
      rw [← hread]
      cases htok : toks[3]? with
      | none => rfl
      | some tok =>
          simp only
          rw [intOf_agrees py (h tok (List.mem_of_getElem? htok))]

theorem mem_of_afterSep {sep c : Char} {tok v : Str} (h : afterSep sep tok = some v) (hc : c ∈ v) :
    c ∈ tok := by
  induction tok with
  | nil => cases h
  | cons d ds ih =>
      unfold afterSep at h
      split at h
      · injection h with h
        rw [h]
        exact List.mem_cons_of_mem _ hc
      · exact List.mem_cons_of_mem _ (ih h)

/-- The frame size of an ASCII `.func` line is the same for every
interpreter. -/
theorem frameSizeOf_agrees (h : AsciiTokens toks) :
    ∀ n, frameSizeOf py toks n = frameSizeOf Python.ascii toks n := by
  induction toks with
  | nil => exact fun n => rfl
  | cons tok toks ih =>
      intro n
      have htok := h tok List.mem_cons_self
      have hrest : AsciiTokens toks := fun t ht => h t (List.mem_cons_of_mem _ ht)
      unfold frameSizeOf
      rw [lower_agrees py htok]
      cases hsep : afterSep '=' tok with
      | none => simp only [ih hrest]
      | some v =>
          -- what stands behind the sign is part of the token
          have hv : ∀ c ∈ v, isAscii c = true := fun c hc => htok c (mem_of_afterSep hsep hc)
          simp only [intOf_agrees py hv, ih hrest]

/-- A line that one interpreter accepts is accepted by all. -/
theorem instrRefusal_agrees (h : AsciiTokens toks)
    (hrefusal : instrRefusal Python.ascii op toks = none) :
    instrRefusal py op toks = none ∧
      ∃ s, readInstr py op toks = .ok s ∧ readInstr Python.ascii op toks = .ok s := by
  unfold instrRefusal at hrefusal ⊢
  cases hread : readInstr Python.ascii op toks with
  | error e =>
      rw [hread] at hrefusal
      cases hrefusal
  | ok s =>
      rw [hread] at hrefusal
      rw [readInstr_agrees py h hread]
      exact ⟨hrefusal, s, rfl, rfl⟩

/-- An ASCII line accepted with one interpreter's tables is accepted with
all. -/
theorem refusal_agrees (h : AsciiTokens toks) (hrefusal : refusal Python.ascii inFunc toks = none) :
    refusal py inFunc toks = none := by
  have hsize : AsciiTokens (toks.drop 2) := fun tok htok => h tok (List.mem_of_mem_drop htok)
  unfold refusal at hrefusal ⊢
  rw [lineKind_agrees py h]
  cases hkind : lineKind Python.ascii toks with
  | func =>
      simp only [hkind] at hrefusal ⊢
      rw [frameSizeOf_agrees py hsize]
      exact hrefusal
  | endfunc | label =>
      simp only [hkind] at hrefusal ⊢
      exact hrefusal
  | instr =>
      simp only [hkind] at hrefusal ⊢
      rw [mnemonicOf_agrees py h]
      cases inFunc with
      | false => cases hrefusal
      | true =>
          cases hop : mnemonicOf Python.ascii toks with
          | none =>
              rw [hop] at hrefusal
              cases hrefusal
          | some op =>
              rw [hop] at hrefusal
              exact (instrRefusal_agrees py h hrefusal).1

/-- And leaves the same object. -/
theorem after_agrees (h : AsciiTokens toks)
    (hrefusal : refusal Python.ascii a.inFunc toks = none) :
    a.after py toks = a.after Python.ascii toks := by
  have hsize : AsciiTokens (toks.drop 2) := fun tok htok => h tok (List.mem_of_mem_drop htok)
  unfold Asm.after
  rw [lineKind_agrees py h]
  cases hkind : lineKind Python.ascii toks with
  | func =>
      simp only
      rw [frameSizeOf_agrees py hsize]
  | endfunc => rfl
  | label =>
      simp only
      unfold labelKey
      rw [lineHead_agrees py h]
  | instr =>
      obtain ⟨op, s, hop, hread, -⟩ := refusal_instr hkind hrefusal
      have hop' : mnemonicOf py toks = some op := (mnemonicOf_agrees py h).trans hop
      simp only
      rw [readLine_of hop hread, readLine_of hop' (readInstr_agrees py h hread)]

end Line

/-! ## §3. The image. -/

/-- Every line of a text has ASCII tokens. -/
def AsciiLines (lines : List Str) : Prop := ∀ raw ∈ lines, AsciiTokens (tokenise_line raw)

section Image

variable (py : Python) {lines : List Str}

/-- The first pass, line by line. -/
theorem passLines_agrees : ∀ (lines : List Str) (n : Nat) (a a' : Asm), AsciiLines lines →
    passLines Python.ascii n lines a = .ok a' → passLines py n lines a = .ok a' := by
  intro lines
  induction lines with
  | nil => exact fun n a a' _ h => h
  | cons raw lines ih =>
      intro n a a' hascii h
      have hraw := hascii raw List.mem_cons_self
      have hrest : AsciiLines lines := fun l hl => hascii l (List.mem_cons_of_mem _ hl)
      rw [passLines] at h ⊢
      by_cases hblank : tokenise_line raw = []
      · simp only [hblank, if_pos] at h ⊢
        exact ih (n + 1) a a' hrest h
      · simp only [if_neg hblank, handle_tokens_eq] at h ⊢
        cases hrefusal : refusal Python.ascii a.inFunc (tokenise_line raw) with
        | some e =>
            -- a line that is refused ends the pass
            simp only [outcome_some hrefusal] at h
            split at h <;> cases h
        | none =>
            simp only [outcome_none hrefusal] at h
            simp only [outcome_none (refusal_agrees py hraw hrefusal), after_agrees py hraw hrefusal]
            exact ih (n + 1) _ a' hrest h

/-- **All interpreters make the same image.** -/
theorem assemble_ascii {text : Str} {bytes : List Byte} (hascii : AsciiLines (readlines text))
    (h : assemble Python.ascii text = .ok bytes) : assemble py text = .ok bytes := by
  unfold assemble at h ⊢
  obtain ⟨a, hpass, hemit⟩ := except_bind_eq_ok h
  have hpass' : _pass1 py (readlines text) = .ok a := by
    unfold _pass1 at hpass ⊢
    obtain ⟨a₁, hlines, hend⟩ := except_bind_eq_ok hpass
    rw [except_bind_ok (passLines_agrees py _ 1 _ a₁ hascii hlines)]
    exact hend
  rw [except_bind_ok hpass']
  exact hemit

end Image

end SproutLang.Assembler
