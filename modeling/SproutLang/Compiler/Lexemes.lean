/-
  SproutLang.Compiler.Lexemes
  ───────────────────────────
  **WHAT THE LEXER CUTS.**

  `Lexeme type w` lists the texts a token may have.  `nextToken` cuts a lexeme
  off the text behind the white space and the comments
  (`nextToken_lexeme`), and it cuts the same lexeme off any text that goes on
  with a blank or ends (`Lexeme.again`).  From these two follow the laws of
  whole texts:

    • `tokenize_lossless`  — the tokens are the text without comments and
      white space,
    • `tokenize_rejoined`  — the tokens, joined by blanks, are lexed again to
      the same tokens.
-/
import SproutLang.Compiler.Lexer
import SproutLang.Library.Lexing

namespace SproutLang.Compiler.Lexer

open Library

/-! ## §1. Classes of characters. -/

section Classes

variable {c : Char}

/-- White space by its codes. -/
theorem isSpace_iff : isSpace c = true ↔ c.toNat = 32 ∨ (9 ≤ c.toNat ∧ c.toNat ≤ 13) := by
  have hspace : c = ' ' ↔ c.toNat = 32 := by
    constructor
    · intro h
      rw [h]
      rfl
    · intro h
      exact Char.toNat_inj.1 h
  unfold isSpace
  rw [Bool.or_eq_true, Bool.and_eq_true, decide_eq_true_eq, decide_eq_true_eq, decide_eq_true_eq,
    hspace]
  exact Iff.rfl

/-- Letters and digits by their codes. -/
theorem isAlphanum_iff : c.isAlphanum = true ↔
    (65 ≤ c.toNat ∧ c.toNat ≤ 90 ∨ 97 ≤ c.toNat ∧ c.toNat ≤ 122) ∨
      48 ≤ c.toNat ∧ c.toNat ≤ 57 := by
  unfold Char.isAlphanum Char.isAlpha Char.isUpper Char.isLower
  rw [Bool.or_eq_true, Bool.or_eq_true, Char.isDigit_iff_toNat]
  simp only [Bool.and_eq_true, decide_eq_true_eq]
  exact Iff.rfl

/-- A character of a word or a number is no white space. -/
theorem isSpace_of_alphanum (h : c.isAlphanum = true) : isSpace c = false := by
  rw [isAlphanum_iff] at h
  rw [Bool.eq_false_iff, ne_eq, isSpace_iff]
  omega

/-- A letter or digit is no other character. -/
theorem ne_of_alphanum {d : Char} (h : c.isAlphanum = true) (hd : d.isAlphanum = false) :
    c ≠ d := by
  intro heq
  rw [heq, hd] at h
  cases h

/-- A row of the table of two-character tokens. -/
structure CompoundRow (c second : Char) (two one : TokenType) : Prop where
  apart : c.isAlphanum = false
  solid : isSpace c = false ∧ isSpace second = false
  noSlash : c ≠ '/' ∧ second ≠ '/'
  noEnd : c ≠ '\x00' ∧ second ≠ '\x00'
  noBlank : second ≠ ' '
  types : two ≠ .END_OF_FILE ∧ one ≠ .END_OF_FILE

/-- One row of a table written with `if`: it is the row that is found, or the
search goes on. -/
theorem row_or_rest {α : Type} {p : Prop} [Decidable p] {x y : α} {rest : Option α}
    (h : (if p then some x else rest) = some y) : (p ∧ x = y) ∨ rest = some y := by
  by_cases hp : p
  · rw [if_pos hp] at h
    exact Or.inl ⟨hp, Option.some.inj h⟩
  · rw [if_neg hp] at h
    exact Or.inr h

/-- The rows of the table of compound symbols. -/
theorem compound_row {second : Char} {two one : TokenType}
    (h : compound c = some (second, two, one)) : CompoundRow c second two one := by
  unfold compound at h
  -- the eight rows
  iterate 8
    rcases row_or_rest h with ⟨rfl, hrow⟩ | h
    · cases hrow
      constructor <;> decide
  cases h

theorem row_ne {α : Type} {p : Prop} [Decidable p] {x y rest : α} (hx : x ≠ y) (hrest : rest ≠ y) :
    (if p then x else rest) ≠ y := by
  by_cases hp : p
  · rw [if_pos hp]
    exact hx
  · rw [if_neg hp]
    exact hrest

/-- The types of the `switch`. -/
def symbolTypes : List TokenType :=
  [.PLUS, .STAR, .SLASH, .COMMA, .L_PAREN, .R_PAREN, .SEMICOLON, .L_SQR_BRKT, .R_SQR_BRKT,
    .L_CURL_BRKT, .R_CURL_BRKT, .UNKNOWN]

/-- A symbol has one of the listed types. -/
theorem symbolType_ne_of {type : TokenType} (htype : type ∉ symbolTypes) (c : Char) :
    symbolType c ≠ type := by
  have hne : ∀ t ∈ symbolTypes, t ≠ type := by
    rintro t ht rfl
    exact htype ht
  unfold symbolType
  iterate 11
    apply row_ne (hne _ (by decide))
  exact hne _ (by decide)

theorem symbolType_ne (c : Char) : symbolType c ≠ .END_OF_FILE := symbolType_ne_of (by decide) c

/-- A word has a type of the table or is an identifier. -/
theorem wordType_mem (w : List Char) : wordType w ∈ .IDENT :: keywords.map Prod.snd := by
  unfold wordType
  cases hlookup : keywords.lookup (String.ofList w) with
  | none => exact List.mem_cons_self
  | some type =>
      have hrow := List.lookup_eq_some_iff.1 hlookup
      obtain ⟨before, after, heq, _⟩ := hrow
      refine List.mem_cons_of_mem _ ?_
      rw [heq]
      simp

/-- No word is the end of the file. -/
theorem wordType_ne (w : List Char) : wordType w ≠ .END_OF_FILE := by
  intro h
  have hmem := wordType_mem w
  rw [h] at hmem
  exact absurd hmem (by decide)

end Classes

/-! ## §2. White space and comments. -/

section Skipping

variable {s rest : Source} {c : Char}

/-- `c` begins a token when `s` follows it. -/
def Solid (c : Char) (s : Source) : Prop := isSpace c = false ∧ (c = '/' → s.head? ≠ some '/')

/-- A comment begins with two slashes. -/
theorem atComment_iff : atComment s = true ↔ ∃ rest, s = '/' :: '/' :: rest := by
  constructor
  · intro h
    unfold atComment at h
    match s, h with
    | [], h => exact absurd h (by decide)
    | [c], h => exact absurd h (by simp)
    | c :: d :: rest, h =>
        simp only [List.head?_cons, List.tail_cons, Option.some.injEq, Bool.and_eq_true,
          decide_eq_true_eq] at h
        obtain ⟨rfl, rfl⟩ := h
        exact ⟨rest, rfl⟩
  · intro h
    obtain ⟨rest, rfl⟩ := h
    rfl

/-- `skipWhiteSpace` by one round. -/
theorem skipWhiteSpace_eq (s : Source) : skipWhiteSpace s =
    if atComment (s.dropWhile isSpace) then skipWhiteSpace (skipComment (s.dropWhile isSpace))
    else s.dropWhile isSpace := by
  rw [skipWhiteSpace]

theorem skipWhiteSpace_nil : skipWhiteSpace [] = [] := by
  rw [skipWhiteSpace_eq]
  rfl

/-- A leading blank is skipped. -/
theorem skipWhiteSpace_space (h : isSpace c = true) :
    skipWhiteSpace (c :: s) = skipWhiteSpace s := by
  rw [skipWhiteSpace_eq, skipWhiteSpace_eq s, List.dropWhile_cons, if_pos h]

/-- The skipper stops where a token begins. -/
theorem skipWhiteSpace_solid (h : Solid c s) : skipWhiteSpace (c :: s) = c :: s := by
  have hdrop : (c :: s).dropWhile isSpace = c :: s := by
    rw [List.dropWhile_cons, if_neg (by rw [h.1]; exact Bool.false_ne_true)]
  have hcomment : ¬ atComment (c :: s) = true := by
    intro hat
    obtain ⟨rest, heq⟩ := atComment_iff.1 hat
    cases heq
    exact h.2 rfl rfl
  rw [skipWhiteSpace_eq, hdrop, if_neg hcomment]

/-- **And it stops nowhere else.** -/
theorem skipWhiteSpace_cases (s : Source) :
    skipWhiteSpace s = [] ∨ ∃ c rest, skipWhiteSpace s = c :: rest ∧ Solid c rest := by
  induction s using skipWhiteSpace.induct with
  | case1 s text hcomment ih =>
      rw [skipWhiteSpace_eq, if_pos hcomment]
      exact ih
  | case2 s text hcomment =>
      rw [skipWhiteSpace_eq, if_neg hcomment]
      cases hdrop : s.dropWhile isSpace with
      | nil => exact Or.inl rfl
      | cons c rest =>
          -- no white space and no comment: the first character counts
          have hspace := head_dropWhile (p := isSpace) s c (by rw [hdrop]; rfl)
          refine Or.inr ⟨c, rest, rfl, hspace, ?_⟩
          intro hc hnext
          apply hcomment
          show atComment (s.dropWhile isSpace) = true
          rw [hdrop, hc]
          unfold atComment
          simp [hnext]

/-- What is left is the end of the text. -/
theorem skipWhiteSpace_suffix (s : Source) : skipWhiteSpace s <:+ s := by
  induction s using skipWhiteSpace.induct with
  | case1 s text hcomment ih =>
      rw [skipWhiteSpace_eq, if_pos hcomment]
      exact ih.trans ((List.dropWhile_suffix _).trans (List.dropWhile_suffix _))
  | case2 s text hcomment =>
      rw [skipWhiteSpace_eq, if_neg hcomment]
      exact List.dropWhile_suffix _

end Skipping

/-! ## §3. The text that counts. -/

/-- The text without its comments: each goes from the leftmost `//` up to the
newline or the end. -/
def withoutComments : List Char → List Char
  | [] => []
  | c :: s =>
      if c = '/' ∧ s.head? = some '/' then withoutComments (s.dropWhile (· ≠ '\n'))
      else c :: withoutComments s
termination_by s => s.length
decreasing_by
  · exact Nat.lt_succ_of_le (List.dropWhile_suffix _).length_le
  · exact Nat.lt_succ_self _

/-- The text without comments and white space. -/
def significant (s : List Char) : List Char := (withoutComments s).filter fun c => !isSpace c

section Significant

variable {s rest : Source} {c : Char}

theorem significant_nil : significant [] = [] := by
  unfold significant
  rw [withoutComments]
  rfl

/-- A comment reaches to the end of the line. -/
theorem withoutComments_comment (s : Source) :
    withoutComments ('/' :: '/' :: s) = withoutComments (s.dropWhile (· ≠ '\n')) := by
  rw [withoutComments, if_pos ⟨rfl, rfl⟩]
  rfl

/-- Any other character stays. -/
theorem withoutComments_cons (h : c = '/' → s.head? ≠ some '/') :
    withoutComments (c :: s) = c :: withoutComments s := by
  rw [withoutComments, if_neg fun hc => h hc.1 hc.2]

/-- A character that begins a token counts. -/
theorem significant_cons (h : Solid c s) : significant (c :: s) = c :: significant s := by
  unfold significant
  rw [withoutComments_cons h.2, List.filter_cons, if_pos (by rw [h.1]; rfl)]

/-- White space is not significant. -/
theorem significant_space (h : isSpace c = true) : significant (c :: s) = significant s := by
  have hc : c ≠ '/' := by
    intro hc
    rw [hc] at h
    exact absurd h (by decide)
  unfold significant
  rw [withoutComments_cons fun h => absurd h hc, List.filter_cons, if_neg (by rw [h]; decide)]

/-- A stretch without slashes and white space counts as it stands. -/
theorem significant_append {w : List Char} (hw : ∀ c ∈ w, isSpace c = false ∧ c ≠ '/') :
    significant (w ++ s) = w ++ significant s := by
  induction w with
  | nil => rfl
  | cons c w ih =>
      have hc := hw c List.mem_cons_self
      have hmore := ih fun d hd => hw d (List.mem_cons_of_mem c hd)
      rw [List.cons_append, significant_cons ⟨hc.1, fun h => absurd h hc.2⟩, hmore]
      rfl

theorem significant_dropWhile (s : Source) :
    significant (s.dropWhile isSpace) = significant s := by
  induction s with
  | nil => rfl
  | cons c s ih =>
      rw [List.dropWhile_cons]
      by_cases hc : isSpace c = true
      · rw [if_pos hc, ih, significant_space hc]
      · rw [if_neg hc]

/-- In a text without null characters a comment that is skipped does not
count. -/
theorem significant_skipComment (hnul : '\x00' ∉ s) (h : atComment s = true) :
    significant (skipComment s) = significant s := by
  obtain ⟨rest, rfl⟩ := atComment_iff.1 h
  have hsame : ∀ t : Source, '\x00' ∉ t → skipComment t = t.dropWhile (· ≠ '\n') := by
    intro t ht
    unfold skipComment
    induction t with
    | nil => rfl
    | cons d t ih =>
        have hd : d ≠ '\x00' := fun hd => ht (by rw [hd]; exact List.mem_cons_self)
        have hmore := ih fun hmem => ht (List.mem_cons_of_mem d hmem)
        rw [List.dropWhile_cons, List.dropWhile_cons, hmore]
        simp [hd]
  rw [hsame _ hnul]
  unfold significant
  rw [withoutComments_comment]
  rfl

/-- **Skipping loses nothing that counts.** -/
theorem significant_skipWhiteSpace (s : Source) (hnul : '\x00' ∉ s) :
    significant (skipWhiteSpace s) = significant s := by
  induction s using skipWhiteSpace.induct with
  | case1 s text hcomment ih =>
      have htext : '\x00' ∉ text := fun h => hnul ((List.dropWhile_suffix _).subset h)
      have hskip : '\x00' ∉ skipComment text := fun h => htext ((List.dropWhile_suffix _).subset h)
      rw [skipWhiteSpace_eq, if_pos hcomment, ih hskip, significant_skipComment htext hcomment]
      exact significant_dropWhile s
  | case2 s text hcomment =>
      rw [skipWhiteSpace_eq, if_neg hcomment]
      exact significant_dropWhile s

end Significant

/-! ## §4. Lexemes. -/

/-- The texts of tokens. -/
inductive Lexeme : TokenType → List Char → Prop where
  | word {c : Char} {w : List Char} (first : c.isAlpha = true)
      (more : ∀ d ∈ w, d.isAlphanum = true) : Lexeme (wordType (c :: w)) (c :: w)
  | number {c : Char} {w : List Char} (first : c.isDigit = true)
      (more : ∀ d ∈ w, d.isDigit = true) : Lexeme .NUMBER (c :: w)
  | fraction {c d : Char} {w f : List Char} (first : c.isDigit = true)
      (more : ∀ d ∈ w, d.isDigit = true) (behind : d.isDigit = true)
      (rest : ∀ d ∈ f, d.isDigit = true) : Lexeme .NUMBER (c :: w ++ '.' :: d :: f)
  | two {c second : Char} {two one : TokenType} (row : compound c = some (second, two, one)) :
      Lexeme two [c, second]
  | one {c second : Char} {two one : TokenType} (row : compound c = some (second, two, one)) :
      Lexeme one [c]
  | symbol {c : Char} (solid : isSpace c = false) (other : c.isAlphanum = false)
      (row : compound c = none) (noEnd : c ≠ '\x00') (noHash : c ≠ '#') :
      Lexeme (symbolType c) [c]

section Cut

variable {s r rest : Source} {c : Char}

theorem alphanum_of_alpha (h : c.isAlpha = true) : c.isAlphanum = true := by
  unfold Char.isAlphanum
  rw [h]
  rfl

theorem alphanum_of_digit (h : c.isDigit = true) : c.isAlphanum = true := by
  unfold Char.isAlphanum
  rw [h, Bool.or_true]

theorem alpha_of_digit (h : c.isDigit = true) : c.isAlpha = false := by
  rw [Char.isDigit_iff_toNat] at h
  rw [Bool.eq_false_iff]
  intro halpha
  unfold Char.isAlpha Char.isUpper Char.isLower at halpha
  simp only [Bool.or_eq_true, Bool.and_eq_true, decide_eq_true_eq] at halpha
  have hcases : 65 ≤ c.toNat ∧ c.toNat ≤ 90 ∨ 97 ≤ c.toNat ∧ c.toNat ≤ 122 := halpha
  have hnine : '9'.toNat = 57 := rfl
  omega

theorem not_alphanum (h : c.isAlphanum = false) : c.isAlpha = false ∧ c.isDigit = false := by
  unfold Char.isAlphanum at h
  exact Bool.or_eq_false_iff.1 h

/-- At the end of the text the end of the file is returned. -/
theorem nextToken_end (h : skipWhiteSpace s = []) :
    nextToken s = .ok (makeToken .END_OF_FILE [], []) := by
  unfold nextToken
  rw [h]
  rfl

/-- A letter begins a word. -/
theorem nextToken_word (h : skipWhiteSpace s = c :: r) (hc : c.isAlpha = true) :
    nextToken s = .ok (lexWord (c :: r)) := by
  have hpeek : peek (c :: r) = c := rfl
  have hend : c ≠ '\x00' := ne_of_alphanum (alphanum_of_alpha hc) (by decide)
  unfold nextToken
  simp only [h, hpeek, if_neg hend, if_pos hc]

/-- A digit begins a number. -/
theorem nextToken_number (h : skipWhiteSpace s = c :: r) (hc : c.isDigit = true) :
    nextToken s = .ok (lexNumber (c :: r)) := by
  have hpeek : peek (c :: r) = c := rfl
  have hend : c ≠ '\x00' := ne_of_alphanum (alphanum_of_digit hc) (by decide)
  have halpha : ¬ c.isAlpha = true := by
    rw [alpha_of_digit hc]
    exact Bool.false_ne_true
  unfold nextToken
  simp only [h, hpeek, if_neg hend, if_neg halpha, if_pos hc]

/-- A character of the table begins a compound symbol. -/
theorem nextToken_compound {second : Char} {two one : TokenType}
    (h : skipWhiteSpace s = c :: r) (hrow : compound c = some (second, two, one)) :
    nextToken s = .ok (lexCompound c second two one r) := by
  have hpeek : peek (c :: r) = c := rfl
  have hfacts := compound_row hrow
  have hclass := not_alphanum hfacts.apart
  unfold nextToken
  simp only [h, hpeek, if_neg hfacts.noEnd.1, hclass.1, hclass.2, Bool.false_eq_true, if_false, hrow,
    List.tail_cons]

/-- Any other character but `#` is a symbol by itself. -/
theorem nextToken_symbol (h : skipWhiteSpace s = c :: r) (hend : c ≠ '\x00')
    (hother : c.isAlphanum = false) (hrow : compound c = none) (hhash : c ≠ '#') :
    nextToken s = .ok (makeToken (symbolType c) [c], r) := by
  have hpeek : peek (c :: r) = c := rfl
  have hclass := not_alphanum hother
  unfold nextToken
  simp only [h, hpeek, if_neg hend, hclass.1, hclass.2, Bool.false_eq_true, if_false, hrow,
    if_neg hhash, List.tail_cons]

/-! ### Numbers. -/

/-- Digits that no digit and no fraction follows. -/
theorem lexNumber_whole {w : List Char} (hw : ∀ d ∈ w, d.isDigit = true)
    (hrest : ∀ d ∈ rest.head?, d.isDigit = false)
    (hpoint : ¬(peek rest = '.' ∧ rest.tail.head?.any Char.isDigit = true)) :
    lexNumber (w ++ rest) = (makeToken .NUMBER w, rest) := by
  unfold lexNumber
  simp only [takeWhile_append_stop hw hrest, dropWhile_append_stop hw hrest, if_neg hpoint]

/-- Digits, a point and digits that no digit follows. -/
theorem lexNumber_fraction {w f : List Char} {d : Char} (hw : ∀ d ∈ w, d.isDigit = true)
    (hd : d.isDigit = true) (hf : ∀ d ∈ f, d.isDigit = true)
    (hrest : ∀ d ∈ rest.head?, d.isDigit = false) :
    lexNumber (w ++ '.' :: d :: f ++ rest) = (makeToken .NUMBER (w ++ '.' :: d :: f), rest) := by
  have hstop : ∀ e ∈ ('.' :: (d :: f ++ rest)).head?, e.isDigit = false := by
    intro e he
    cases he
    decide
  have hdf : ∀ e ∈ d :: f, e.isDigit = true := List.forall_mem_cons.2 ⟨hd, hf⟩
  have hsplit : w ++ '.' :: d :: f ++ rest = w ++ '.' :: (d :: f ++ rest) := by simp
  -- the point is followed by a digit
  have hpoint : peek ('.' :: (d :: f ++ rest)) = '.' ∧
      (d :: f ++ rest).head?.any Char.isDigit = true := ⟨rfl, hd⟩
  unfold lexNumber
  rw [hsplit]
  simp only [takeWhile_append_stop hw hstop, dropWhile_append_stop hw hstop, if_pos hpoint,
    List.tail_cons, takeWhile_append_stop hdf hrest, dropWhile_append_stop hdf hrest]

/-! ### What is cut. -/

/-- What begins with a letter or a digit is no slash. -/
theorem ne_slash {p : Char → Bool} {w : List Char} (hc : p c = true) (hslash : p '/' = false) :
    c :: w ≠ ['/'] := by
  intro heq
  rw [(List.cons.inj heq).1, hslash] at hc
  cases hc

/-- The digits at the front of a number, with its fraction if it has one. -/
theorem lexNumber_lexeme (hc : c.isDigit = true) : ∃ w rest, Lexeme .NUMBER w ∧
    c :: r = w ++ rest ∧ w ≠ ['/'] ∧ lexNumber (c :: r) = (makeToken .NUMBER w, rest) := by
  have hdigits : ∀ t : Source, ∀ d ∈ t.takeWhile Char.isDigit, d.isDigit = true := fun _ =>
    List.all_eq_true.1 List.all_takeWhile
  have hwhole : (c :: r).takeWhile Char.isDigit = c :: r.takeWhile Char.isDigit := by
    rw [List.takeWhile_cons, if_pos hc]
  have hsplit : c :: r = (c :: r).takeWhile Char.isDigit ++ (c :: r).dropWhile Char.isDigit :=
    List.takeWhile_append_dropWhile.symm
  -- the digits end where another character stands
  have hstop := head_dropWhile (p := Char.isDigit) (c :: r)
  generalize hrest : (c :: r).dropWhile Char.isDigit = rest at hsplit hstop
  by_cases hpoint : peek rest = '.' ∧ rest.tail.head?.any Char.isDigit = true
  · -- the point and the digit behind it belong to the number
    obtain ⟨d, t, rfl⟩ : ∃ d t, rest = '.' :: d :: t := by
      match rest, hpoint with
      | [], hpoint => exact absurd hpoint.1 (by decide)
      | [e], hpoint => exact absurd hpoint.2 (by simp)
      | e :: d :: t, hpoint => exact ⟨d, t, by rw [← hpoint.1]; rfl⟩
    have hd : d.isDigit = true := hpoint.2
    have htail : t = t.takeWhile Char.isDigit ++ t.dropWhile Char.isDigit :=
      List.takeWhile_append_dropWhile.symm
    have htext : c :: r = c :: r.takeWhile Char.isDigit
        ++ '.' :: d :: t.takeWhile Char.isDigit ++ t.dropWhile Char.isDigit := by
      rw [hsplit, hwhole]
      simp
    refine ⟨c :: r.takeWhile Char.isDigit ++ '.' :: d :: t.takeWhile Char.isDigit,
      t.dropWhile Char.isDigit, Lexeme.fraction hc (hdigits r) hd (hdigits t), htext, ?_, ?_⟩
    · exact ne_slash hc (by decide)
    · rw [htext, ← hwhole]
      exact lexNumber_fraction (hdigits _) hd (hdigits t) (head_dropWhile t)
  · refine ⟨c :: r.takeWhile Char.isDigit, rest, Lexeme.number hc (hdigits r), ?_, ?_, ?_⟩
    · rw [← hwhole]
      exact hsplit
    · exact ne_slash hc (by decide)
    · rw [hsplit, ← hwhole]
      exact lexNumber_whole (hdigits _) hstop hpoint

/-- **Every token is a lexeme cut off the front**, and a slash alone is not
the beginning of a comment. -/
theorem nextToken_lexeme (hnul : '\x00' ∉ s) (hhash : '#' ∉ s) :
    skipWhiteSpace s = [] ∨ ∃ type w rest, Lexeme type w ∧ skipWhiteSpace s = w ++ rest ∧
      (w = ['/'] → rest.head? ≠ some '/') ∧ nextToken s = .ok (makeToken type w, rest) := by
  rcases skipWhiteSpace_cases s with hend | ⟨c, r, hskip, hsolid⟩
  · exact Or.inl hend
  have hc : c ∈ s := (skipWhiteSpace_suffix s).subset (by rw [hskip]; exact List.mem_cons_self)
  have hcnul : c ≠ '\x00' := fun h => hnul (h ▸ hc)
  have hchash : c ≠ '#' := fun h => hhash (h ▸ hc)
  refine Or.inr ?_
  rw [hskip]
  by_cases halpha : c.isAlpha = true
  · -- a word
    have hword : (c :: r).takeWhile Char.isAlphanum = c :: r.takeWhile Char.isAlphanum := by
      rw [List.takeWhile_cons, if_pos (alphanum_of_alpha halpha)]
    refine ⟨_, c :: r.takeWhile Char.isAlphanum, (c :: r).dropWhile Char.isAlphanum,
      Lexeme.word halpha (List.all_eq_true.1 List.all_takeWhile), ?_, ?_, ?_⟩
    · rw [← hword, List.takeWhile_append_dropWhile]
    · exact fun heq => absurd heq (ne_slash halpha (by decide))
    · rw [nextToken_word hskip halpha]
      unfold lexWord
      rw [hword]
  by_cases hdigit : c.isDigit = true
  · -- a number
    obtain ⟨w, rest, hlex, hsplit, hslash, hnumber⟩ := lexNumber_lexeme (r := r) hdigit
    exact ⟨.NUMBER, w, rest, hlex, hsplit, fun h => absurd h hslash,
      by rw [nextToken_number hskip hdigit, hnumber]⟩
  have hother : c.isAlphanum = false := by
    unfold Char.isAlphanum
    exact Bool.or_eq_false_iff.2 ⟨Bool.eq_false_iff.2 halpha, Bool.eq_false_iff.2 hdigit⟩
  cases hrow : compound c with
  | some row =>
      -- a token of two characters, or of the first of them
      obtain ⟨second, two, one⟩ := row
      have hfacts := compound_row hrow
      rw [nextToken_compound hskip hrow]
      unfold lexCompound
      -- the second character decides
      by_cases hsecond : peek r = second
      · obtain ⟨t, rfl⟩ : ∃ t, r = second :: t := by
          match r, hsecond with
          | [], hsecond => exact absurd hsecond.symm hfacts.noEnd.2
          | d :: t, hsecond => exact ⟨t, by rw [← hsecond]; rfl⟩
        rw [if_pos hsecond]
        refine ⟨two, [c, second], t, Lexeme.two hrow, rfl, fun h => ?_, rfl⟩
        cases h
      · rw [if_neg hsecond]
        refine ⟨one, [c], r, Lexeme.one hrow, rfl, fun h => ?_, rfl⟩
        cases h
        exact absurd rfl hfacts.noSlash.1
  | none =>
      rw [nextToken_symbol hskip hcnul hother hrow hchash]
      refine ⟨symbolType c, [c], r, Lexeme.symbol hsolid.1 hother hrow hcnul hchash, rfl, ?_, rfl⟩
      intro h
      cases h
      exact hsolid.2 rfl

end Cut

/-! ## §5. Lexemes delimit themselves. -/

section Again

variable {type : TokenType} {w : List Char} {rest : Source} {s : Source}

/-- A blank or the end. -/
def Blank (rest : Source) : Prop := rest = [] ∨ rest.head? = some ' '

/-- Behind a blank or at the end there is no character of the class. -/
theorem Blank.head {p : Char → Bool} (h : Blank rest) (hp : p ' ' = false) :
    ∀ d ∈ rest.head?, p d = false := by
  intro d hd
  rcases h with hnil | hblank
  · rw [hnil] at hd
    cases hd
  · rw [hblank] at hd
    cases hd
    exact hp

/-- The character behind a word is a blank or the end. -/
theorem Blank.peek (h : Blank rest) : peek rest = '\x00' ∨ peek rest = ' ' := by
  rcases h with hnil | hblank
  · rw [hnil]
    exact Or.inl rfl
  · unfold Lexer.peek
    rw [hblank]
    exact Or.inr rfl

theorem solid_of_ne {c : Char} (hspace : isSpace c = false) (hslash : c ≠ '/') : Solid c s :=
  ⟨hspace, fun h => absurd h hslash⟩

/-- A word or a number is not skipped. -/
theorem solid_of_alphanum {c : Char} (h : c.isAlphanum = true) : Solid c s :=
  solid_of_ne (isSpace_of_alphanum h) (ne_of_alphanum h (by decide))

/-- **A lexeme in front of a blank is cut off again.** -/
theorem Lexeme.again (h : Lexeme type w) (hrest : Blank rest) :
    nextToken (w ++ rest) = .ok (makeToken type w, rest) := by
  -- what follows is a blank or nothing, so it cannot prolong the lexeme
  have hpeek : Lexer.peek rest ≠ '.' := by
    rcases hrest.peek with hpeek | hpeek <;> rw [hpeek] <;> decide
  have hnodigit := hrest.head (p := Char.isDigit) (by decide)
  cases h with
  | @word c w first more =>
      have hall : ∀ d ∈ c :: w, d.isAlphanum = true :=
        List.forall_mem_cons.2 ⟨alphanum_of_alpha first, more⟩
      have hstop := hrest.head (p := Char.isAlphanum) (by decide)
      have hskip : skipWhiteSpace (c :: w ++ rest) = c :: (w ++ rest) :=
        skipWhiteSpace_solid (solid_of_alphanum (alphanum_of_alpha first))
      rw [nextToken_word hskip first]
      unfold lexWord
      rw [← List.cons_append, takeWhile_append_stop hall hstop, dropWhile_append_stop hall hstop]
  | @number c w first more =>
      have hall : ∀ d ∈ c :: w, d.isDigit = true := List.forall_mem_cons.2 ⟨first, more⟩
      have hskip : skipWhiteSpace (c :: w ++ rest) = c :: (w ++ rest) :=
        skipWhiteSpace_solid (solid_of_alphanum (alphanum_of_digit first))
      rw [nextToken_number hskip first, ← List.cons_append,
        lexNumber_whole hall hnodigit fun h => hpeek h.1]
  | @fraction c d w f first more behind after =>
      have hall : ∀ e ∈ c :: w, e.isDigit = true := List.forall_mem_cons.2 ⟨first, more⟩
      have hskip : skipWhiteSpace (c :: w ++ '.' :: d :: f ++ rest)
          = c :: (w ++ '.' :: d :: f ++ rest) :=
        skipWhiteSpace_solid (solid_of_alphanum (alphanum_of_digit first))
      rw [nextToken_number hskip first, ← lexNumber_fraction hall behind after hnodigit]
      rfl
  | @two c second two one row =>
      have hfacts := compound_row row
      have hskip : skipWhiteSpace ([c, second] ++ rest) = c :: second :: rest :=
        skipWhiteSpace_solid (solid_of_ne hfacts.solid.1 hfacts.noSlash.1)
      have hsecond : Lexer.peek (second :: rest) = second := rfl
      rw [nextToken_compound hskip row]
      unfold lexCompound
      rw [if_pos hsecond]
      rfl
  | @one c second two one row =>
      have hfacts := compound_row row
      have hskip : skipWhiteSpace ([c] ++ rest) = c :: rest :=
        skipWhiteSpace_solid (solid_of_ne hfacts.solid.1 hfacts.noSlash.1)
      have hsecond : Lexer.peek rest ≠ second := by
        intro h
        rcases hrest.peek with hpeek | hpeek
        · exact hfacts.noEnd.2 (h.symm.trans hpeek)
        · exact hfacts.noBlank (h.symm.trans hpeek)
      rw [nextToken_compound hskip row]
      unfold lexCompound
      rw [if_neg hsecond]
  | @symbol c solid other row noEnd noHash =>
      -- a slash is followed by a blank here, never by a slash
      have hsolid : Solid c rest := by
        refine ⟨solid, fun _ hnext => ?_⟩
        rcases hrest with hnil | hblank
        · rw [hnil] at hnext
          cases hnext
        · rw [hblank] at hnext
          cases hnext
      exact nextToken_symbol (skipWhiteSpace_solid hsolid) noEnd other row noHash

/-- A lexeme has no white space, and a slash only if it is one. -/
theorem Lexeme.chars (h : Lexeme type w) :
    w = ['/'] ∨ ∀ c ∈ w, isSpace c = false ∧ c ≠ '/' := by
  have hplain : ∀ c : Char, c.isAlphanum = true → isSpace c = false ∧ c ≠ '/' := fun c hc =>
    ⟨isSpace_of_alphanum hc, ne_of_alphanum hc (by decide)⟩
  cases h with
  | @word c w first more =>
      exact Or.inr (List.forall_mem_cons.2
        ⟨hplain c (alphanum_of_alpha first), fun d hd => hplain d (more d hd)⟩)
  | @number c w first more =>
      exact Or.inr (List.forall_mem_cons.2 ⟨hplain c (alphanum_of_digit first),
        fun d hd => hplain d (alphanum_of_digit (more d hd))⟩)
  | @fraction c d w f first more behind after =>
      have hdigit : ∀ e : Char, e.isDigit = true → isSpace e = false ∧ e ≠ '/' :=
        fun e he => hplain e (alphanum_of_digit he)
      -- digits, the point, digits
      refine Or.inr (List.forall_mem_append.2 ⟨List.forall_mem_cons.2 ⟨hdigit c first,
        fun e he => hdigit e (more e he)⟩, List.forall_mem_cons.2 ⟨by decide,
        List.forall_mem_cons.2 ⟨hdigit d behind, fun e he => hdigit e (after e he)⟩⟩⟩)
  | @two c second two one row =>
      have hfacts := compound_row row
      refine Or.inr fun d hd => ?_
      rcases List.mem_cons.1 hd with rfl | hd
      · exact ⟨hfacts.solid.1, hfacts.noSlash.1⟩
      · rw [List.mem_singleton.1 hd]
        exact ⟨hfacts.solid.2, hfacts.noSlash.2⟩
  | @one c second two one row =>
      have hfacts := compound_row row
      refine Or.inr fun d hd => ?_
      rw [List.mem_singleton.1 hd]
      exact ⟨hfacts.solid.1, hfacts.noSlash.1⟩
  | @symbol c solid other row noEnd noHash =>
      by_cases hslash : c = '/'
      · exact Or.inl (by rw [hslash])
      · refine Or.inr fun d hd => ?_
        rw [List.mem_singleton.1 hd]
        exact ⟨solid, hslash⟩

/-- A word is not empty. -/
theorem Lexeme.ne_nil (h : Lexeme type w) : w ≠ [] := by
  cases h <;> simp

theorem Lexeme.type_ne (h : Lexeme type w) : type ≠ .END_OF_FILE := by
  cases h with
  | word => exact wordType_ne _
  | number => decide
  | fraction => decide
  | two row => exact (compound_row row).types.1
  | one row => exact (compound_row row).types.2
  | symbol => exact symbolType_ne _

/-- What a lexeme is cut off from begins with its characters. -/
theorem Lexeme.significant_append (h : Lexeme type w) (hslash : w = ['/'] → rest.head? ≠ some '/') :
    significant (w ++ rest) = w ++ significant rest := by
  rcases h.chars with hw | hw
  · subst hw
    exact significant_cons ⟨by decide, fun _ => hslash rfl⟩
  · exact Lexer.significant_append hw

end Again

/-! ## §6. Whole texts. -/

section Texts

variable {s code : Source}

/-- A token is cut off the text. -/
def Cuts (s : Source) (t : Token) (rest : Source) : Prop :=
  nextToken s = .ok (t, rest) ∧ t.type ≠ .END_OF_FILE ∧ rest.length < s.length

/-- There is no token any more. -/
def Stops (s : Source) : Prop := ∃ t rest, nextToken s = .ok (t, rest) ∧ t.type = .END_OF_FILE

/-- The loop goes through the run of the lexer. -/
theorem tokenizeLoop_eq_ok {ts : List Token} (h : Lexes Cuts Stops s ts) :
    ∀ rounds, s.length < rounds → tokenizeLoop rounds s = .ok ts := by
  induction h with
  | @nil s done =>
      intro rounds hlt
      obtain ⟨t, rest, hnext, hend⟩ := done
      cases rounds with
      | zero => omega
      | succ rounds =>
          unfold tokenizeLoop
          rw [except_bind_ok hnext]
          simp only [hend, if_true]
          rfl
  | @cons s rest t ts first _ ih =>
      intro rounds hlt
      obtain ⟨hnext, hend, hshorter⟩ := first
      cases rounds with
      | zero => omega
      | succ rounds =>
          -- every token takes a character, so the rounds are enough
          have hmore := ih rounds (by omega)
          unfold tokenizeLoop
          rw [except_bind_ok hnext]
          simp only [if_neg hend]
          rw [except_bind_ok hmore]
          rfl

/-- The characters the laws leave out. -/
def Plain (s : Source) : Prop := '\x00' ∉ s ∧ '#' ∉ s

/-- The end of a plain text is plain. -/
theorem Plain.suffix {rest : Source} (h : Plain s) (hrest : rest <:+ s) : Plain rest :=
  ⟨fun hmem => h.1 (hrest.subset hmem), fun hmem => h.2 (hrest.subset hmem)⟩

/-- One cut, with everything that is known of it. -/
theorem Plain.cut {t : Token} {rest : Source} (h : Plain s) (hcut : Cuts s t rest) :
    ∃ type w, Lexeme type w ∧ t = makeToken type w ∧ skipWhiteSpace s = w ++ rest ∧
      (w = ['/'] → rest.head? ≠ some '/') := by
  rcases nextToken_lexeme h.1 h.2 with hend | ⟨type, w, rest', hlex, hskip, hslash, hnext⟩
  · have hnext := nextToken_end hend
    rw [hcut.1] at hnext
    cases hnext
    exact absurd rfl hcut.2.1
  · rw [hcut.1] at hnext
    cases hnext
    exact ⟨type, w, hlex, rfl, hskip, hslash⟩

/-- So is what a token leaves of it. -/
theorem Plain.rest {t : Token} {rest : Source} (h : Plain s) (hcut : Cuts s t rest) :
    Plain rest := by
  obtain ⟨_, w, _, _, hskip, _⟩ := h.cut hcut
  have hsuffix : rest <:+ skipWhiteSpace s := by
    rw [hskip]
    exact List.suffix_append w rest
  exact h.suffix (hsuffix.trans (skipWhiteSpace_suffix s))

/-- The lexer makes progress on a plain text. -/
theorem Plain.progress (h : Plain s) :
    Stops s ∨ ∃ t rest, Cuts s t rest ∧ rest.length < s.length ∧ Plain rest := by
  rcases nextToken_lexeme h.1 h.2 with hend | ⟨type, w, rest, hlex, hskip, _, hnext⟩
  · exact Or.inl ⟨_, _, nextToken_end hend, rfl⟩
  · have hlength := (skipWhiteSpace_suffix s).length_le
    have hw := List.length_pos_of_ne_nil hlex.ne_nil
    rw [hskip, List.length_append] at hlength
    have hshorter : rest.length < s.length := by omega
    have hcut : Cuts s (makeToken type w) rest := ⟨hnext, hlex.type_ne, hshorter⟩
    exact Or.inr ⟨_, rest, hcut, hshorter, h.rest hcut⟩

/-- `tokenize` returns, by a run of the lexer. -/
theorem Plain.tokenize (h : Plain code) :
    ∃ ts, Lexes Cuts Stops code ts ∧ tokenize code = .ok ts := by
  obtain ⟨ts, hts⟩ := exists_lexes (fun s hs => Plain.progress hs) code.length code le_rfl h
  exact ⟨ts, hts, tokenizeLoop_eq_ok hts _ (Nat.lt_succ_self _)⟩

theorem content_makeToken (type : TokenType) (w : List Char) :
    (makeToken type w).content.toList = w := String.toList_ofList

/-- **Lexing is lossless**: the contents of the tokens, one after the other,
are the text without its comments and its white space. -/
theorem tokenize_lossless (hnul : '\x00' ∉ code) (hhash : '#' ∉ code) :
    ∃ ts, Lexer.tokenize code = .ok ts ∧
      ts.flatMap (fun t => t.content.toList) = significant code := by
  have hplain : Plain code := ⟨hnul, hhash⟩
  obtain ⟨ts, hts, hrun⟩ := hplain.tokenize
  refine ⟨ts, hrun, hts.text_eq hplain ?_ ?_⟩
  · intro s t rest hs hcut
    -- what is skipped does not count, and a lexeme counts as it stands
    obtain ⟨type, w, hlex, rfl, hskip, hslash⟩ := hs.cut hcut
    refine ⟨hs.rest hcut, ?_⟩
    rw [← significant_skipWhiteSpace s hs.1, hskip, hlex.significant_append hslash,
      content_makeToken]
  · intro s hs hstop
    -- where no token is left, nothing that counts is
    rcases nextToken_lexeme hs.1 hs.2 with hend | ⟨type, w, rest, hlex, _, _, hnext⟩
    · rw [← significant_skipWhiteSpace s hs.1, hend, significant_nil]
    · obtain ⟨t, rest', hnext', hend⟩ := hstop
      rw [hnext] at hnext'
      cases hnext'
      exact absurd hend hlex.type_ne

/-- A text with a comment, and what counts of it. -/
theorem tokenize_lossless_comment :
    ∃ ts, Lexer.tokenize "a // b\n<= 1.5".toList = .ok ts ∧
      ts.flatMap (fun t => t.content.toList) = significant "a // b\n<= 1.5".toList :=
  tokenize_lossless (by decide) (by decide)

/-- A blank in front changes no cut. -/
theorem nextToken_blank (s : Source) : nextToken (' ' :: s) = nextToken s := by
  unfold nextToken
  rw [skipWhiteSpace_space (c := ' ') (by decide)]

/-- Lexemes joined by blanks are lexed as they stand. -/
theorem tokenize_lexemes {ts : List Token}
    (hlexemes : ∀ t ∈ ts, ∃ type w, Lexeme type w ∧ t = makeToken type w) :
    Lexer.tokenize (List.intercalate [' '] (ts.map fun t => t.content.toList)) = .ok ts := by
  -- every token is read again as itself before a blank
  have hself : ∀ t ∈ ts, ∀ rest, rest = [] ∨ rest.head? = some ' ' →
      Cuts (t.content.toList ++ rest) t rest := by
    intro t ht rest hrest
    obtain ⟨type, w, hlex, rfl⟩ := hlexemes t ht
    have hw := List.length_pos_of_ne_nil hlex.ne_nil
    rw [content_makeToken]
    refine ⟨hlex.again hrest, hlex.type_ne, ?_⟩
    rw [List.length_append]
    omega
  -- a blank in front changes nothing
  have hblank : ∀ s : Source, (∀ t rest, Cuts s t rest → Cuts (' ' :: s) t rest) ∧
      (Stops s → Stops (' ' :: s)) := by
    intro s
    unfold Cuts Stops
    rw [nextToken_blank]
    exact ⟨fun t rest h => ⟨h.1, h.2.1, Nat.lt_succ_of_lt h.2.2⟩, id⟩
  have hempty : Stops [] := ⟨_, _, nextToken_end skipWhiteSpace_nil, rfl⟩
  have hagain := lexes_intercalate hempty hblank ts hself
  exact tokenizeLoop_eq_ok hagain _ (Nat.lt_succ_self _)

/-- **Tokens are self-delimiting**: their contents joined by blanks are lexed
to the same tokens again. -/
theorem tokenize_rejoined (hnul : '\x00' ∉ code) (hhash : '#' ∉ code) :
    ∃ ts, Lexer.tokenize code = .ok ts ∧
      Lexer.tokenize (List.intercalate [' '] (ts.map fun t => t.content.toList)) = .ok ts := by
  have hplain : Plain code := ⟨hnul, hhash⟩
  obtain ⟨ts, hts, hrun⟩ := hplain.tokenize
  refine ⟨ts, hrun, tokenize_lexemes ?_⟩
  refine hts.forall_mem hplain fun s t rest hs hcut => ?_
  obtain ⟨type, w, hlex, ht, _⟩ := hs.cut hcut
  exact ⟨hs.rest hcut, type, w, hlex, ht⟩

/-- The tokens of `a <= 1.5` with a comment inside, joined again. -/
theorem tokenize_rejoined_comment :
    ∃ ts, Lexer.tokenize "a // b\n<= 1.5".toList = .ok ts ∧
      Lexer.tokenize (List.intercalate [' '] (ts.map fun t => t.content.toList)) = .ok ts :=
  tokenize_rejoined (by decide) (by decide)

end Texts

end SproutLang.Compiler.Lexer
