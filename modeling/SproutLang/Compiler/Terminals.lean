/-
  SproutLang.Compiler.Terminals
  ─────────────────────────────
  **IDENTIFIERS AND NUMBERS** (`Sprout_lang.ebnf`, `lexer.cpp`, `parser.cpp`).

  The grammar's `identifier`, `int_lit` and `double_lit` against what the lexer
  cuts and the parser reads.  The lexer knows no underscore, and the parser
  reads a number only up to its point:

    • `identifier_lexed_iff` — a name is one token exactly when it has no
      underscore,
    • `number_kept_iff`      — a literal keeps its value, or is refused,
      exactly when its fraction is zero or its integer part too large.
-/
import SproutLang.Compiler.Lexemes
import SproutLang.Compiler.Grammar
import Mathlib.Algebra.Order.Field.Rat
import Mathlib.Tactic.Positivity

namespace SproutLang.Compiler.Lexer

open Library

/-! ## §1. Identifiers. -/

/-- `letter { letter | digit | "_" }`. -/
structure IsIdentifier (w : List Char) : Prop where
  first : ∃ c v, w = c :: v ∧ c.isAlpha = true
  more : ∀ d ∈ w.tail, d.isAlphanum = true ∨ d = '_'

/-- No word of the table of keywords. -/
def NoKeyword (w : List Char) : Prop := String.ofList w ∉ keywords.map Prod.fst

/-- The text goes on with a character that cannot stand in an identifier, or
ends. -/
def Separated (rest : Source) : Prop := ∀ d ∈ rest.head?, d.isAlphanum = false ∧ d ≠ '_'

section Identifiers

variable {w : List Char} {rest : Source}

/-- A word that is no keyword is an identifier. -/
theorem wordType_of_noKeyword (h : NoKeyword w) : wordType w = .IDENT := by
  have hnone : keywords.lookup (String.ofList w) = none := by
    rw [List.lookup_eq_none_iff]
    intro row hrow
    have hne : String.ofList w ≠ row.1 := fun heq =>
      h (by rw [heq]; exact List.mem_map_of_mem hrow)
    exact bne_iff_ne.2 hne
  unfold wordType
  rw [hnone]
  rfl

/-- On a word the lexer takes letters and digits, and nothing else. -/
theorem nextToken_identifier (h : IsIdentifier w) : nextToken (w ++ rest) =
    .ok (makeToken (wordType ((w ++ rest).takeWhile Char.isAlphanum))
      ((w ++ rest).takeWhile Char.isAlphanum), (w ++ rest).dropWhile Char.isAlphanum) := by
  obtain ⟨c, v, rfl, hc⟩ := h.first
  have hskip : skipWhiteSpace (c :: v ++ rest) = c :: (v ++ rest) :=
    skipWhiteSpace_solid (solid_of_alphanum (alphanum_of_alpha hc))
  exact nextToken_word hskip hc

/-- Without underscores a word is cut off whole. -/
theorem identifier_lexed (h : IsIdentifier w) (hkey : NoKeyword w) (hrest : Separated rest)
    (hunderscore : '_' ∉ w) : nextToken (w ++ rest) = .ok (makeToken .IDENT w, rest) := by
  have hall : ∀ d ∈ w, d.isAlphanum = true := by
    intro d hd
    obtain ⟨c, v, hw, hc⟩ := h.first
    rw [hw] at hd
    rcases List.mem_cons.1 hd with rfl | htail
    · exact alphanum_of_alpha hc
    · rcases h.more d (by rw [hw]; exact htail) with hd' | rfl
      · exact hd'
      · exact absurd (by rw [hw]; exact hd) hunderscore
  have hstop : ∀ d ∈ rest.head?, d.isAlphanum = false := fun d hd => (hrest d hd).1
  rw [nextToken_identifier h, takeWhile_append_stop hall hstop, dropWhile_append_stop hall hstop,
    wordType_of_noKeyword hkey]

/-- A word that was cut off whole has none. -/
theorem no_underscore_of_lexed (h : IsIdentifier w)
    (hlex : nextToken (w ++ rest) = .ok (makeToken .IDENT w, rest)) : '_' ∉ w := by
  intro hmem
  rw [nextToken_identifier h] at hlex
  have htoken : makeToken (wordType ((w ++ rest).takeWhile Char.isAlphanum))
      ((w ++ rest).takeWhile Char.isAlphanum) = makeToken .IDENT w :=
    congrArg Prod.fst (Except.ok.inj hlex)
  have htext : (w ++ rest).takeWhile Char.isAlphanum = w := by
    rw [← content_makeToken _ ((w ++ rest).takeWhile _), htoken, content_makeToken]
  -- the characters taken are letters and digits, and the underscore is none
  have hall := List.all_eq_true.1 (List.all_takeWhile (p := Char.isAlphanum) (l := w ++ rest))
  rw [htext] at hall
  exact absurd (hall '_' hmem) (by decide)

/-- **A name of the grammar is one identifier token exactly when it has no
underscore.** -/
theorem identifier_lexed_iff (h : IsIdentifier w) (hkey : NoKeyword w) (hrest : Separated rest) :
    nextToken (w ++ rest) = .ok (makeToken .IDENT w, rest) ↔ '_' ∉ w :=
  ⟨no_underscore_of_lexed h, identifier_lexed h hkey hrest⟩

/-- `x1` in front of a blank. -/
theorem identifier_lexed_iff_x1 : nextToken (['x', '1'] ++ [' ']) =
    .ok (makeToken .IDENT ['x', '1'], [' ']) :=
  (identifier_lexed_iff
    ⟨⟨'x', ['1'], rfl, by decide⟩, List.forall_mem_singleton.2 (Or.inl (by decide))⟩
    (by unfold NoKeyword; decide) (fun d hd => by cases hd; decide)).2 (by decide)

/-- **`a_b` is no token**, though the grammar makes it a name. -/
theorem underscore_splits : IsIdentifier ['a', '_', 'b'] ∧ NoKeyword ['a', '_', 'b'] ∧
    nextToken (['a', '_', 'b'] ++ []) ≠ .ok (makeToken .IDENT ['a', '_', 'b'], []) := by
  have hb : ∀ d ∈ ['b'], d.isAlphanum = true ∨ d = '_' :=
    List.forall_mem_singleton.2 (Or.inl (by decide))
  have hident : IsIdentifier ['a', '_', 'b'] :=
    ⟨⟨'a', ['_', 'b'], rfl, by decide⟩, List.forall_mem_cons.2 ⟨Or.inr rfl, hb⟩⟩
  exact ⟨hident, by unfold NoKeyword; decide,
    fun hlex => no_underscore_of_lexed hident hlex (by decide)⟩

end Identifiers

/-! ## §2. Numbers. -/

/-- `int_lit` and `double_lit`. -/
inductive NumberLit where
  | int (whole : List Char) (ne : whole ≠ []) (digits : ∀ d ∈ whole, d.isDigit = true)
  | double (whole fraction : List Char) (ne : whole ≠ []) (ne' : fraction ≠ [])
      (digits : ∀ d ∈ whole, d.isDigit = true) (digits' : ∀ d ∈ fraction, d.isDigit = true)

namespace NumberLit

/-- The text of the literal. -/
def text : NumberLit → List Char
  | int whole _ _ => whole
  | double whole fraction _ _ _ _ => whole ++ '.' :: fraction

/-- The number written. -/
def value : NumberLit → Rat
  | int whole _ _ => digitsValue whole
  | double whole fraction _ _ _ _ =>
      digitsValue whole + digitsValue fraction / 10 ^ fraction.length

/-- Its digits in front of the point. -/
def whole : NumberLit → List Char
  | int whole _ _ => whole
  | double whole _ _ _ _ _ => whole

/-- The token of the literal. -/
def token (l : NumberLit) : Token := makeToken .NUMBER l.text

/-- `parsePrimary` makes the number written of the token, or refuses it. -/
def Kept (l : NumberLit) : Prop :=
  ∀ (expr : Parse ASTNode) (fuel : Nat) (s : TokenSource),
    (∃ n : Int, parsePrimary expr fuel (l.token :: s) = .ok (.intLiteral n) s ∧ (n : Rat) = l.value)
      ∨ ∃ e s', parsePrimary expr fuel (l.token :: s) = .error e s'

/-- There is no fraction, or it is zeros. -/
def ZeroFraction : NumberLit → Prop
  | int _ _ _ => True
  | double _ fraction _ _ _ _ => ∀ d ∈ fraction, d = '0'

end NumberLit

section Numbers

variable {l : NumberLit} {ds : List Char}

/-- A digit at the end counts for itself. -/
theorem digitsValue_snoc (ds : List Char) (d : Char) :
    digitsValue (ds ++ [d]) = 10 * digitsValue ds + (d.toNat - '0'.toNat) := by
  unfold digitsValue
  rw [List.foldl_append]
  rfl

/-- Only zeros spell zero. -/
theorem digitsValue_eq_zero_iff (hdigits : ∀ d ∈ ds, d.isDigit = true) :
    digitsValue ds = 0 ↔ ∀ d ∈ ds, d = '0' := by
  induction ds using List.reverseRecOn with
  | nil => exact ⟨fun _ d hd => absurd hd List.not_mem_nil, fun _ => rfl⟩
  | append_singleton ds d ih =>
      have hd := Char.isDigit_iff_toNat.1 (hdigits d (by simp))
      have hmore := ih fun e he => hdigits e (List.mem_append_left _ he)
      have hzero : d = '0' ↔ d.toNat = '0'.toNat := Char.toNat_inj.symm
      rw [digitsValue_snoc, List.forall_mem_append, List.forall_mem_singleton, ← hmore, hzero]
      omega

/-- The parser reads the digits in front of the point. -/
theorem NumberLit.stoll_token (l : NumberLit) : stoll l.token.content =
    if (digitsValue l.whole : Int) < 2 ^ 63 then .ok (digitsValue l.whole : Int)
    else .error .outOfRange := by
  have hcontent : l.token.content.toList = l.text := content_makeToken _ _
  cases l with
  | int whole ne digits =>
      have hend : ∀ c ∈ ([] : List Char).head?, c.isDigit = false := fun c hc => by cases hc
      exact stoll_front (hcontent.trans (List.append_nil _).symm) ne digits hend
  | double whole fraction ne ne' digits digits' =>
      have hpoint : ∀ c ∈ ('.' :: fraction).head?, c.isDigit = false := by
        intro c hc
        cases hc
        decide
      exact stoll_front hcontent ne digits hpoint

/-- What the parser makes of a literal that fits. -/
theorem NumberLit.parsed (hfits : digitsValue l.whole < 2 ^ 63) (expr : Parse ASTNode) (fuel : Nat)
    (s : TokenSource) : parsePrimary expr fuel (l.token :: s)
      = .ok (.intLiteral (digitsValue l.whole : Int)) s := by
  have hstoll := l.stoll_token
  rw [if_pos (by omega)] at hstoll
  exact parsePrimary_number rfl hstoll

/-- And of one that does not. -/
theorem NumberLit.refused (hlarge : 2 ^ 63 ≤ digitsValue l.whole) (expr : Parse ASTNode)
    (fuel : Nat) (s : TokenSource) :
    ∃ e s', parsePrimary expr fuel (l.token :: s) = .error e s' := by
  have hstoll := l.stoll_token
  rw [if_neg (by omega)] at hstoll
  exact ⟨_, _, parsePrimary_refused rfl hstoll⟩

/-- The integer part is the number exactly when the fraction is zero. -/
theorem NumberLit.value_eq_iff (l : NumberLit) :
    ((digitsValue l.whole : Int) : Rat) = l.value ↔ l.ZeroFraction := by
  cases l with
  | int whole ne digits =>
      have hcast : ((digitsValue whole : Int) : Rat) = (digitsValue whole : Rat) := Int.cast_natCast _
      exact ⟨fun _ => trivial, fun _ => hcast⟩
  | double whole fraction ne ne' digits digits' =>
      have hpow : (10 : Rat) ^ fraction.length ≠ 0 := by positivity
      show ((digitsValue whole : Int) : Rat)
        = digitsValue whole + digitsValue fraction / 10 ^ fraction.length ↔ ∀ d ∈ fraction, d = '0'
      rw [Int.cast_natCast, left_eq_add, div_eq_zero_iff, or_iff_left hpow, Nat.cast_eq_zero,
        digitsValue_eq_zero_iff digits']

/-- A literal with a fraction of zeros is kept, and one too large is
refused. -/
theorem NumberLit.kept_of_whole (h : l.ZeroFraction ∨ 2 ^ 63 ≤ digitsValue l.whole) : l.Kept := by
  intro expr fuel s
  by_cases hfits : digitsValue l.whole < 2 ^ 63
  · rcases h with hzero | hlarge
    · exact Or.inl ⟨_, NumberLit.parsed hfits expr fuel s, l.value_eq_iff.2 hzero⟩
    · omega
  · exact Or.inr (NumberLit.refused (by omega) expr fuel s)

/-- A fraction that is dropped changes the number. -/
theorem NumberLit.whole_of_kept (h : l.Kept) :
    l.ZeroFraction ∨ 2 ^ 63 ≤ digitsValue l.whole := by
  by_cases hfits : digitsValue l.whole < 2 ^ 63
  · have hparsed := NumberLit.parsed hfits (throw .outOfFuel) 0 []
    rcases h (throw .outOfFuel) 0 [] with ⟨n, hn, hvalue⟩ | ⟨e, s', herror⟩
    · rw [hparsed] at hn
      cases hn
      exact Or.inl (l.value_eq_iff.1 hvalue)
    · rw [hparsed] at herror
      cases herror
  · exact Or.inr (by omega)

/-- Every literal is a number to the lexer. -/
theorem NumberLit.lexeme (l : NumberLit) : Lexeme .NUMBER l.text := by
  cases l with
  | int whole ne digits =>
      cases whole with
      | nil => exact absurd rfl ne
      | cons c w => exact Lexeme.number (digits c (by simp)) fun d hd => digits d (by simp [hd])
  | double whole fraction ne ne' digits digits' =>
      cases whole with
      | nil => exact absurd rfl ne
      | cons c w =>
          cases fraction with
          | nil => exact absurd rfl ne'
          | cons d f =>
              exact Lexeme.fraction (digits c (by simp)) (fun e he => digits e (by simp [he]))
                (digits' d (by simp)) fun e he => digits' e (by simp [he])

/-- **A literal is one token, and it keeps its value, or is refused, exactly
when its fraction is zero or its integer part has no 64 bits.** -/
theorem number_kept_iff (l : NumberLit) : nextToken l.text = .ok (l.token, []) ∧
    (l.Kept ↔ l.ZeroFraction ∨ 2 ^ 63 ≤ digitsValue l.whole) := by
  have hend : Blank [] := Or.inl rfl
  have hlex := l.lexeme.again hend
  rw [List.append_nil] at hlex
  exact ⟨hlex, NumberLit.whole_of_kept, NumberLit.kept_of_whole⟩

/-- **`3.14` becomes 3.** -/
theorem fraction_lost :
    ¬ (NumberLit.double ['3'] ['1', '4'] (by decide) (by decide)
      (List.all_eq_true.1 (by decide)) (List.all_eq_true.1 (by decide))).Kept := by
  intro h
  rcases NumberLit.whole_of_kept h with hzero | hlarge
  · exact absurd (hzero '1' (by decide)) (by decide)
  · exact absurd hlarge (by decide)

end Numbers

end SproutLang.Compiler.Lexer
