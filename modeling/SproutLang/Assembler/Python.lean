/-
  SproutLang.Assembler.Python
  ───────────────────────────
  **THE PARTS OF PYTHON THE ASSEMBLER RESTS ON.**

  Strings are lists of characters.  What depends on the interpreter's
  Unicode tables or on its conversion of decimal fractions to doubles is the
  parameter `Python`; `int()`, `str.split()` and the rest are written out.
-/
import SproutLang.Shared.Values

namespace SproutLang.Assembler

/-! ## §1. The interpreter's tables. -/

/-- A Python string, as its characters. -/
abbrev Str := List Char

/-- A character of seven bits. -/
def isAscii (c : Char) : Bool := c.toNat < 128

/-- `str.isspace` of one character. -/
def isSpace (c : Char) : Bool :=
  let n := c.toNat
  (9 ≤ n && n ≤ 13) || (28 ≤ n && n ≤ 32) || n = 0x85 || n = 0xA0 || n = 0x1680
    || (0x2000 ≤ n && n ≤ 0x200A) || n = 0x2028 || n = 0x2029 || n = 0x202F
    || n = 0x205F || n = 0x3000

/-- Letters of a number in `float()`'s grammar, the names of the infinities
and NaNs included. -/
def isFloatChar (c : Char) : Bool :=
  c.isAlphanum || c = '+' || c = '-' || c = '.' || c = '_'

/-- **The interpreter.**  `lower` is `str.lower`, `digit` the decimal value
of a character, `repr` the quoting of `{tok!r}` and `float` the double of a
decimal literal, as its 64 bits, or `none` for a `ValueError`. -/
structure Python where
  lower : Str → Str
  digit : Char → Option Nat
  repr : Str → String
  float : Str → Option Word
  lower_ascii : ∀ s : Str, (∀ c ∈ s, isAscii c = true) → lower s = s.map Char.toLower
  digit_ascii : ∀ c, isAscii c = true →
    digit c = if c.isDigit then some (c.toNat - '0'.toNat) else none
  digit_lt : ∀ c d, digit c = some d → d < 10
  /-- No decimal digit is whitespace. -/
  digit_space : ∀ c d, digit c = some d → isSpace c = false
  /-- A text with a character of no number, white space apart, is no float. -/
  float_chars : ∀ s w, float s = some w → ∀ c ∈ s, isAscii c = true → isSpace c = false →
    isFloatChar c = true
  /-- A float is a number, an infinity or the quiet NaN, with either sign. -/
  float_word : ∀ s w, float s = some w →
    w.toNat % 2 ^ 63 ≤ 0x7FF0000000000000 ∨ w.toNat % 2 ^ 63 = 0x7FF8000000000000

/-! ## §2. Strings. -/

/-- `s.split()`: the maximal runs of characters that are not whitespace. -/
def splitWords : Str → List Str
  | [] => []
  | c :: cs =>
      if isSpace c then splitWords cs
      else
        match cs with
        | [] => [[c]]
        | d :: _ =>
            if isSpace d then [c] :: splitWords cs
            else
              match splitWords cs with
              | [] => [[c]]
              | w :: ws => (c :: w) :: ws

/-- `s.split(sep, 1)[0]`. -/
def beforeSep (sep : Char) (s : Str) : Str := s.takeWhile (· ≠ sep)

/-- `s.split(sep, 1)[1]`; `none` when `sep` does not occur. -/
def afterSep (sep : Char) : Str → Option Str
  | [] => none
  | c :: cs => if c = sep then some cs else afterSep sep cs

/-- `s.replace(a, b)` for single characters. -/
def replaceChar (a b : Char) (s : Str) : Str := s.map (fun c => if c = a then b else c)

/-- `s.endswith(c)` for a single character. -/
def endsWith (s : Str) (c : Char) : Bool := s.getLast? = some c

/-- `s.startswith(c)` for a single character. -/
def startsWith (s : Str) (c : Char) : Bool := s.head? = some c

/-- Text-mode reading: every line ending becomes a newline. -/
def universalNewlines : Str → Str
  | [] => []
  | '\r' :: '\n' :: cs => '\n' :: universalNewlines cs
  | '\r' :: cs => '\n' :: universalNewlines cs
  | c :: cs => c :: universalNewlines cs

/-- The lines of a text, each with its newline. -/
def splitLines : Str → List Str
  | [] => []
  | c :: cs =>
      if c = '\n' then [c] :: splitLines cs
      else
        match splitLines cs with
        | [] => [[c]]
        | l :: ls => (c :: l) :: ls

/-- `fh.readlines()`. -/
def readlines (text : Str) : List Str := splitLines (universalNewlines text)

/-! ## §3. `int()`. -/

/-- The value of a digit in bases up to 36. -/
def digitValue (c : Char) : Option Nat :=
  if '0' ≤ c ∧ c ≤ '9' then some (c.toNat - '0'.toNat)
  else if 'a' ≤ c ∧ c ≤ 'z' then some (c.toNat - 'a'.toNat + 10)
  else if 'A' ≤ c ∧ c ≤ 'Z' then some (c.toNat - 'A'.toNat + 10)
  else none

/-- Digits with single underscores between them; `seen` says that the
character before was a digit. -/
def scanDigits (base : Nat) (acc : Nat) (seen : Bool) : Str → Option Nat
  | [] => if seen then some acc else none
  | c :: cs =>
      if c = '_' then
        if seen then scanDigits base acc false cs else none
      else
        match digitValue c with
        | none => none
        | some d => if d < base then scanDigits base (acc * base + d) true cs else none

/-- The longest decimal text `int()` converts (`sys.int_info.default_max_str_digits`).
Texts in base 2, 8 and 16 may have any length. -/
def MAX_STR_DIGITS : Nat := 4300

/-- The digits of a decimal text, underscores left out. -/
def digitCount (s : Str) : Nat := s.countP Char.isDigit

/-- A decimal number; leading zeros count as digits. -/
def scanDecimal (s : Str) : Option Nat :=
  if digitCount s ≤ MAX_STR_DIGITS then scanDigits 10 0 false s else none

/-- One underscore may follow a base prefix. -/
def skipUnderscore : Str → Str
  | '_' :: cs => cs
  | cs => cs

/-- A number without sign whose prefix names the base; a leading zero
without prefix is allowed in zero only. -/
def scanPrefixed : Str → Option Nat
  | '0' :: 'x' :: cs => scanDigits 16 0 false (skipUnderscore cs)
  | '0' :: 'X' :: cs => scanDigits 16 0 false (skipUnderscore cs)
  | '0' :: 'o' :: cs => scanDigits 8 0 false (skipUnderscore cs)
  | '0' :: 'O' :: cs => scanDigits 8 0 false (skipUnderscore cs)
  | '0' :: 'b' :: cs => scanDigits 2 0 false (skipUnderscore cs)
  | '0' :: 'B' :: cs => scanDigits 2 0 false (skipUnderscore cs)
  | '0' :: cs =>
      match scanDecimal ('0' :: cs) with
      | some 0 => some 0
      | _ => none
  | cs => scanDecimal cs

/-- A sign may stand in front. -/
def signed (scan : Str → Option Nat) : Str → Option Int
  | '-' :: cs => (scan cs).map (fun n : Nat => -(n : Int))
  | '+' :: cs => (scan cs).map (fun n : Nat => (n : Int))
  | cs => (scan cs).map (fun n : Nat => (n : Int))

namespace Python

variable (py : Python)

/-- Decimal digits of other scripts count as the ASCII ones. -/
def toAsciiDigits (s : Str) : Str :=
  s.map fun c =>
    if isAscii c then c
    else
      match py.digit c with
      | some d => Char.ofNat ('0'.toNat + d)
      | none => c

/-- `int(tok)`. -/
def int10 (tok : Str) : Option Int := signed scanDecimal (py.toAsciiDigits tok)

/-- `int(tok, 0)`. -/
def int0 (tok : Str) : Option Int := signed scanPrefixed (py.toAsciiDigits tok)

/-- The integer a decimal text spells, however long and with any leading
zeros: also where `int(tok, 0)` refuses it. -/
def decimalOf (tok : Str) : Option Int :=
  signed (scanDigits 10 0 false) (py.toAsciiDigits tok)

/-- The interpreter on texts of ASCII characters, without floats. -/
def ascii : Python where
  lower s := s.map fun c => if isAscii c then c.toLower else c
  digit c := if isAscii c && c.isDigit then some (c.toNat - '0'.toNat) else none
  repr s := String.ofList s
  float _ := none
  lower_ascii s h := List.map_congr_left fun c hc => if_pos (h c hc)
  digit_ascii c h := by
    rw [h, Bool.true_and]
  digit_lt c d h := by
    split at h
    · rename_i hdigit
      injection h with h
      rw [Bool.and_eq_true, Char.isDigit_iff_toNat] at hdigit
      have hnine : '9'.toNat = '0'.toNat + 9 := rfl
      omega
    · exact absurd h (by simp)
  digit_space c d h := by
    split at h
    · rename_i hdigit
      rw [Bool.and_eq_true, Char.isDigit_iff_toNat] at hdigit
      have hzero : '0'.toNat = 48 := rfl
      have hnine : '9'.toNat = 57 := rfl
      unfold isSpace
      simp only [Bool.or_eq_false_iff, Bool.and_eq_false_iff, decide_eq_false_iff_not]
      omega
    · exact absurd h (by simp)
  float_chars s w h := absurd h (by simp)
  float_word s w h := absurd h (by simp)

end Python

end SproutLang.Assembler
