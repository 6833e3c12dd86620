/-
  SproutLang.Compiler.Lexer
  ─────────────────────────
  **THE LEXER** (`src/compiler/lexer.h`, `lexer.cpp`).

  A `Source` is the list of the characters from `pos` on, one for each byte of
  the text.  A byte outside ASCII is in no class of `<cctype>`, as in the C
  locale.  The eight branches on a character that may begin a token of two
  characters are rows of one table, `compound`, and the `switch` at the end is
  another, `symbolType`.
-/
import SproutLang.Compiler.Parser

namespace SproutLang.Compiler.Lexer

open Library

/-! ## §1. The source (`lexer.h`). -/

/-- The text that is still ahead. -/
abbrev Source := List Char

/-- The character at `pos`; behind the end it is the null character. -/
def peek (s : Source) : Char := s.head?.getD '\x00'

/-- Whether a comment begins at `pos`. -/
def atComment (s : Source) : Bool := s.head? = some '/' && s.tail.head? = some '/'

/-- The loop that skips a comment, up to the newline or the end. -/
def skipComment (s : Source) : Source := s.dropWhile fun c => c ≠ '\n' && c ≠ '\x00'

/-- A comment leaves no more than there was. -/
theorem length_skipComment_le (s : Source) : (skipComment s).length ≤ s.length :=
  (List.dropWhile_suffix _).length_le

/-- A comment has two characters at least. -/
theorem length_skipComment_lt {s : Source} (h : atComment s = true) :
    (skipComment s).length < s.length := by
  cases s with
  | nil => exact absurd h (by decide)
  | cons c s =>
      have hc : c = '/' := by
        unfold atComment at h
        simpa using (Bool.and_eq_true_iff.1 h).1
      rw [hc]
      exact Nat.lt_succ_of_le (length_skipComment_le s)

/-- White space and comments, one behind the other. -/
def skipWhiteSpace (s : Source) : Source :=
  let text := s.dropWhile isSpace
  -- a comment may be followed by more white space and more comments
  if atComment text then skipWhiteSpace (skipComment text) else text
termination_by s.length
decreasing_by
  rename_i h
  exact lt_of_lt_of_le (length_skipComment_lt h) (List.dropWhile_suffix _).length_le

/-- A token with its text. -/
def makeToken (type : TokenType) (text : List Char) : Token := ⟨type, String.ofList text⟩

/-! ## §2. The tables of `nextToken`. -/

/-- The comparisons that are made with a word, in their order. -/
def keywords : List (String × TokenType) :=
  [("int", .INT), ("double", .FLOAT), ("boolean", .BOOL), ("char6", .CHAR6), ("var", .VAR),
    ("array", .ARRAY), ("print", .PRINT), ("if", .IF), ("else", .ELSE), ("while", .WHILE),
    ("func", .FUNC), ("return", .RET)]

/-- The type of a word. -/
def wordType (word : List Char) : TokenType :=
  (keywords.lookup (String.ofList word)).getD .IDENT

/-- The characters that may begin a token of two: the second character, the
type of the two and the type of the first alone. -/
def compound (c : Char) : Option (Char × TokenType × TokenType) :=
  if c = '-' then some ('>', .ARR_RIGHT, .MINUS)
  else if c = '=' then some ('=', .EQEQ, .EQ)
  else if c = ':' then some (':', .DOUBLECOLON, .COLON)
  else if c = '!' then some ('=', .NOT_EQ, .NOT)
  else if c = '&' then some ('&', .DOUBLE_AND, .UNKNOWN)
  else if c = '|' then some ('|', .DOUBLE_VBAR, .UNKNOWN)
  else if c = '<' then some ('=', .LOWER_EQ, .LOWER)
  else if c = '>' then some ('=', .GREATER_EQ, .GREATER)
  else none

/-- The `switch`, with what stands behind it. -/
def symbolType (c : Char) : TokenType :=
  if c = '+' then .PLUS
  else if c = '*' then .STAR
  else if c = '/' then .SLASH
  else if c = ',' then .COMMA
  else if c = '(' then .L_PAREN
  else if c = ')' then .R_PAREN
  else if c = ';' then .SEMICOLON
  else if c = '[' then .L_SQR_BRKT
  else if c = ']' then .R_SQR_BRKT
  else if c = '{' then .L_CURL_BRKT
  else if c = '}' then .R_CURL_BRKT
  else .UNKNOWN

/-! ## §3. `nextToken`. -/

/-- A keyword or an identifier. -/
def lexWord (s : Source) : Token × Source :=
  let word := s.takeWhile Char.isAlphanum
  (makeToken (wordType word) word, s.dropWhile Char.isAlphanum)

/-- A point belongs to the number only when a digit follows it. -/
def lexNumber (s : Source) : Token × Source :=
  let num := s.takeWhile Char.isDigit
  let s := s.dropWhile Char.isDigit
  if peek s = '.' ∧ s.tail.head?.any Char.isDigit then
    (makeToken .NUMBER (num ++ '.' :: s.tail.takeWhile Char.isDigit),
      s.tail.dropWhile Char.isDigit)
  else (makeToken .NUMBER num, s)

/-- A token of two characters if `second` follows, else one of the first. -/
def lexCompound (c second : Char) (two one : TokenType) (s : Source) : Token × Source :=
  if peek s = second then (makeToken two [c, second], s.tail) else (makeToken one [c], s)

/-- Behind `#`.  For any word but `import` the type of the token is that of a
variable nobody set. -/
def lexDirective (s : Source) : Except Fault (Token × Source) :=
  let word := s.takeWhile Char.isAlpha
  let s := skipWhiteSpace (s.dropWhile Char.isAlpha)
  -- the name behind `import` is the text of the token; the keyword is gone
  if String.ofList word = "import" then
    .ok (makeToken .IMPORT (s.takeWhile Char.isAlpha), s.dropWhile Char.isAlpha)
  else .error .undefinedBehaviour

/-- The token at `pos` and the source behind it. -/
def nextToken (s : Source) : Except Fault (Token × Source) :=
  let s := skipWhiteSpace s
  let c := peek s
  -- the end and a null character in the text look the same
  if c = '\x00' then .ok (makeToken .END_OF_FILE [], s)
  else if c.isAlpha then .ok (lexWord s)
  else if c.isDigit then .ok (lexNumber s)
  else
    -- the sign may stand alone
    match compound c with
    | some (second, two, one) => .ok (lexCompound c second two one s.tail)
    | none =>
        if c = '#' then lexDirective s.tail
        else .ok (makeToken (symbolType c) [c], s.tail)

/-- The loop of `tokenize`; every round takes a character at least, so as many
rounds as characters and one more are enough (`Plain.tokenize`). -/
def tokenizeLoop : Nat → Source → Except Fault (List Token)
  | 0, _ => .error .diverges
  | rounds + 1, s => do
      let (t, s) ← nextToken s
      if t.type = .END_OF_FILE then return []
      let tokens ← tokenizeLoop rounds s
      return t :: tokens

/-- The tokens of a text. -/
def tokenize (code : Source) : Except Fault (List Token) := tokenizeLoop (code.length + 1) code

end SproutLang.Compiler.Lexer
