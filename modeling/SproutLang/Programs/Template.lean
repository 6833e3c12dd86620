/-
  SproutLang.Programs.Template
  ────────────────────────────
  **A PROGRAM FILE WITH ONE CONSTANT LEFT OPEN.**

  The benchmark programs are one function each and say of one constant that it
  may be changed.  A template is such a file with any decimal number in its
  place; `Template.Reads.prints` takes what is shown of its listing to the
  text, the image and the VM.
-/
import SproutLang.Assembler.Meaning
import Mathlib.Data.List.Forall2

namespace SproutLang.Programs

open Library Assembler

/-! ## §1. Files of lines. -/

/-- The text of a file. -/
def textOf (lines : List String) : Str := lines.flatMap fun l => l.toList ++ ['\n']

/-- The line as `readlines` returns it. -/
def rawLine (l : String) : Str := l.toList ++ ['\n']

/-- A line without line endings in it. -/
def OneLine (cs : Str) : Prop := ∀ c ∈ cs, c ≠ '\n' ∧ c ≠ '\r'

-- not by going through all characters
instance (cs : Str) : Decidable (OneLine cs) :=
  List.decidableBAll (fun c => c ≠ '\n' ∧ c ≠ '\r') cs

/-- The lines are spelled with these characters. -/
def Spells (lines : List String) (chars : List Str) : Prop :=
  List.Forall₂ (fun l cs => l = String.ofList cs) lines chars

section Lines

variable {text rest : Str} {lines : List String} {chars : List Str}

/-- The lines as lists of characters. -/
theorem Spells.map (h : Spells lines chars) : lines.map String.toList = chars := by
  induction h with
  | nil => rfl
  | cons hl _ ih => rw [List.map_cons, ih, hl, String.toList_ofList]

/-- What holds of the characters holds of the lines. -/
theorem Spells.forall (h : Spells lines chars) {p : Str → Prop} (hp : ∀ cs ∈ chars, p cs) :
    ∀ l ∈ lines, p l.toList := by
  intro l hl
  apply hp
  rw [← h.map]
  exact List.mem_map_of_mem hl

/-- And with their ends. -/
theorem Spells.rawLines (h : Spells lines chars) :
    lines.map rawLine = chars.map (· ++ ['\n']) := by
  rw [← h.map, List.map_map]
  rfl

/-- Without carriage returns the text is read as it is. -/
theorem universalNewlines_plain (h : ∀ c ∈ text, c ≠ '\r') : universalNewlines text = text := by
  induction text with
  | nil => rfl
  | cons c text ih =>
      rw [List.forall_mem_cons] at h
      unfold universalNewlines
      split
      · rename_i heq
        cases heq
      · rename_i heq
        exact absurd (List.cons.inj heq).1 h.1
      · rename_i heq
        exact absurd (List.cons.inj heq).1 h.1
      · rename_i heq
        cases heq
        rw [ih h.2]

/-- The first line is split off. -/
theorem splitLines_line (h : ∀ c ∈ text, c ≠ '\n') :
    splitLines (text ++ '\n' :: rest) = (text ++ ['\n']) :: splitLines rest := by
  induction text with
  | nil => rfl
  | cons c text ih =>
      rw [List.forall_mem_cons] at h
      rw [List.cons_append, splitLines, if_neg h.1, ih h.2]
      rfl

/-- **The lines of a file of lines.** -/
theorem readlines_textOf (h : ∀ l ∈ lines, OneLine l.toList) :
    readlines (textOf lines) = lines.map rawLine := by
  have hplain : ∀ c ∈ textOf lines, c ≠ '\r' := by
    intro c hc
    obtain ⟨l, hl, hc⟩ := List.mem_flatMap.1 hc
    rcases List.mem_append.1 hc with hc | hc
    · exact (h l hl c hc).2
    · rw [List.mem_singleton.1 hc]
      decide
  unfold readlines
  rw [universalNewlines_plain hplain]
  clear hplain
  induction lines with
  | nil => rfl
  | cons l lines ih =>
      rw [List.forall_mem_cons] at h
      have htext : textOf (l :: lines) = l.toList ++ '\n' :: textOf lines := by
        unfold textOf
        rw [List.flatMap_cons, List.append_assoc]
        rfl
      rw [htext, splitLines_line fun c hc => (h.1 c hc).1, ih h.2]
      rfl

end Lines

/-! ## §2. The line with the constant. -/

section Constant

variable {front rest : Str}

/-- A line with something on it has tokens. -/
theorem splitWords_ne_nil {c : Char} (hc : isSpace c = false) (text : Str) :
    splitWords (c :: text) ≠ [] := by
  rw [splitWords_cons, hc, if_neg Bool.false_ne_true]
  cases text with
  | nil => simp
  | cons d ds =>
      simp only
      split
      · simp
      · split <;> simp

/-- Words end at a blank. -/
theorem splitWords_append {c : Char} (hc : isSpace c = true) :
    splitWords (front ++ c :: rest) = splitWords front ++ splitWords rest := by
  induction front with
  | nil =>
      show splitWords (c :: rest) = splitWords rest
      rw [splitWords_cons, hc, if_pos rfl]
  | cons d front ih =>
      rw [List.cons_append, splitWords_cons, splitWords_cons]
      cases hd : isSpace d with
      | true =>
          rw [if_pos rfl, if_pos rfl]
          exact ih
      | false =>
          rw [if_neg Bool.false_ne_true, if_neg Bool.false_ne_true]
          cases front with
          | nil =>
              -- the word is this one character
              show (if isSpace c = true then [d] :: splitWords (c :: rest) else _) = _
              rw [if_pos hc, splitWords_cons, hc, if_pos rfl]
              rfl
          | cons e front =>
              simp only [List.cons_append] at ih ⊢
              cases he : isSpace e with
              | true =>
                  simp only [if_true]
                  rw [ih]
                  rfl
              | false =>
                  simp only [Bool.false_eq_true, if_false]
                  rw [ih]
                  -- the next word goes on with this character
                  obtain ⟨w, ws, hwords⟩ := List.exists_cons_of_ne_nil (splitWords_ne_nil he front)
                  rw [hwords]
                  rfl

/-- **A line is cut at a blank** in front of its comment. -/
theorem tokenise_append (h : ';' ∉ front) :
    tokenise_line (front ++ ' ' :: rest) = tokenise_line front ++ tokenise_line rest := by
  have hsep : ∀ c ∈ front, c ≠ ';' := by
    rintro c hc rfl
    exact h hc
  have hfront : beforeSep ';' front = front := by
    have hwhole : beforeSep ';' (front ++ []) = front ++ [] := beforeSep_append hsep
    rw [List.append_nil] at hwhole
    exact hwhole
  have hrest : beforeSep ';' (' ' :: rest) = ' ' :: beforeSep ';' rest := rfl
  unfold tokenise_line replaceChar
  rw [beforeSep_append hsep, hrest, hfront, List.map_append, List.map_cons]
  exact splitWords_append rfl

/-- The digits of a number. -/
def decimal (n : Nat) : Str := (toString n).toList

theorem decimal_eq (n : Nat) : decimal n = Nat.toDigits 10 n := Nat.toList_repr

/-- A number is written in digits. -/
theorem isDigit_of_mem_decimal {n : Nat} {c : Char} (hc : c ∈ decimal n) : c.isDigit = true := by
  rw [decimal_eq] at hc
  exact Nat.isDigit_of_mem_toDigits (by decide) (by decide) hc

/-- They are ASCII characters. -/
theorem isAscii_of_mem_decimal {n : Nat} {c : Char} (hc : c ∈ decimal n) : isAscii c = true := by
  have hdigit := isDigit_of_mem_decimal hc
  rw [Char.isDigit_iff_toNat] at hdigit
  have hnine : '9'.toNat = 57 := rfl
  exact decide_eq_true (by omega)

/-- A decimal digit has its value. -/
theorem digitValue_of_isDigit {c : Char} (hc : c.isDigit = true) :
    digitValue c = some (c.toNat - '0'.toNat) ∧ c.toNat - '0'.toNat < 10 := by
  rw [Char.isDigit_iff_toNat] at hc
  have hzero : '0'.toNat = 48 := rfl
  have hnine : '9'.toNat = 57 := rfl
  refine ⟨if_pos ⟨?_, ?_⟩, by omega⟩
  · show '0'.toNat ≤ c.toNat
    omega
  · show c.toNat ≤ '9'.toNat
    omega

/-- Digits scan as the number they write. -/
theorem scanDigits_digits {digits : Str} (h : ∀ c ∈ digits, c.isDigit = true) : ∀ acc seen,
    (digits ≠ [] ∨ seen = true) →
      scanDigits 10 acc seen digits = some (Nat.ofDigitChars 10 digits acc) := by
  induction digits with
  | nil =>
      intro acc seen hseen
      rw [hseen.resolve_left (fun hne => hne rfl)]
      rfl
  | cons c digits ih =>
      intro acc seen _
      rw [List.forall_mem_cons] at h
      obtain ⟨hvalue, hlt⟩ := digitValue_of_isDigit h.1
      have hunderscore : c ≠ '_' := by
        rintro rfl
        exact absurd h.1 (by decide)
      unfold scanDigits
      rw [if_neg hunderscore, hvalue]
      simp only
      rw [if_pos hlt, ih h.2 _ true (Or.inr rfl), Nat.ofDigitChars_cons, Nat.mul_comm]

/-- A positive number does not begin with a zero. -/
theorem decimal_head {n : Nat} (hn : 1 ≤ n) : ∃ c cs, decimal n = c :: cs ∧ c ≠ '0' := by
  rw [decimal_eq]
  induction n using Nat.strong_induction_on with
  | _ n ih =>
      rcases Nat.lt_or_ge n 10 with hlt | hge
      · have hdigits : ∀ d < 10, 1 ≤ d → d.digitChar ≠ '0' := by decide
        exact ⟨n.digitChar, [], Nat.toDigits_of_lt_base hlt, hdigits n hlt hn⟩
      · obtain ⟨c, cs, hcs, hc⟩ := ih (n / 10) (by omega) (by omega)
        refine ⟨c, cs ++ [(n % 10).digitChar], ?_, hc⟩
        rw [Nat.toDigits_of_base_le (by decide) hge, hcs]
        rfl

/-- A number of 47 bits has far fewer digits than `int()` converts. -/
theorem digitCount_decimal {n : Nat} (hsmall : n < 2 ^ 47) :
    digitCount (decimal n) ≤ MAX_STR_DIGITS := by
  have hlength : (decimal n).length ≤ 15 := by
    rw [decimal_eq, Nat.length_toDigits_le_iff (by decide) (by decide)]
    omega
  have hlimit : MAX_STR_DIGITS = 4300 := rfl
  have hcount : digitCount (decimal n) ≤ (decimal n).length := List.countP_le_length
  omega

/-- **`int()` reads a positive number back.** -/
theorem int0_decimal {n : Nat} (hn : 1 ≤ n) (hsmall : n < 2 ^ 47) :
    Python.ascii.int0 (decimal n) = some (n : Int) := by
  have hdigits : ∀ c ∈ decimal n, c.isDigit = true := fun c hc => isDigit_of_mem_decimal hc
  have hascii : ∀ c ∈ decimal n, isAscii c = true := fun c hc => isAscii_of_mem_decimal hc
  obtain ⟨c, cs, hcs, hzero⟩ := decimal_head hn
  have hscan : scanDecimal (decimal n) = some n := by
    refine scanDecimal_eq_some.2 ⟨digitCount_decimal hsmall, ?_⟩
    rw [scanDigits_digits hdigits 0 false (Or.inl (by rw [hcs]; simp)), decimal_eq,
      Nat.ofDigitChars_ten_toDigits]
  unfold Python.int0
  rw [toAsciiDigits_ascii Python.ascii hascii]
  rw [hcs] at hscan hdigits ⊢
  have hc : c.isDigit = true := hdigits c List.mem_cons_self
  -- neither a sign nor the prefix of a base
  have hprefixed : scanPrefixed (c :: cs) = scanDecimal (c :: cs) := by
    unfold scanPrefixed
    split <;> first | rfl | (rename_i heq; exact absurd (List.cons.inj heq).1 hzero)
  have hsigned : signed scanPrefixed (c :: cs) = (scanPrefixed (c :: cs)).map fun n : Nat => (n : Int) := by
    unfold signed
    split
    · rename_i heq
      rw [(List.cons.inj heq).1] at hc
      exact absurd hc (by decide)
    · rename_i heq
      rw [(List.cons.inj heq).1] at hc
      exact absurd hc (by decide)
    · rfl
  rw [hsigned, hprefixed, hscan]
  rfl

end Constant

/-! ## §3. Templates. -/

/-- **A file with one function**, the constant of one `load` left open: its
line is `front`, a blank, the number and `tail`. -/
structure Template where
  comment : List String
  before : List String
  front : String
  tail : String
  after : List String

namespace Template

/-- The line with the constant. -/
def constantLine (t : Template) (n : Nat) : String := t.front ++ " " ++ toString n ++ t.tail

/-- The lines of the file with a number in place of the constant. -/
def lines (t : Template) (n : Nat) : List String :=
  t.comment ++ ".func main frameSize=0"
    :: ((t.before ++ t.constantLine n :: t.after) ++ [".endfunc"])

/-- The file with a number in place of the constant. -/
def text (t : Template) (n : Nat) : Str := textOf (t.lines n)

/-- **How the file reads**: comments, then the lines of a listing, the one with
the constant loading register `r`. -/
structure Reads (t : Template) (register : Str) (r : Nat) (before after : List Line) : Prop where
  oneLine : ∀ l ∈ t.comment ++ (t.before ++ t.after) ++ [t.front, t.tail], OneLine l.toList
  comment : ∀ l ∈ t.comment, tokenise_line (rawLine l) = []
  ascii : ∀ l ∈ t.before ++ t.after, AsciiTokens (tokenise_line (rawLine l))
  before : itemsOf Python.ascii (t.before.map rawLine) = some (itemsIn before)
  after : itemsOf Python.ascii (t.after.map rawLine) = some (itemsIn after)
  front : ';' ∉ t.front.toList ∧ tokenise_line t.front.toList = ["load".toList, register]
  register : AsciiTokens [register] ∧ parse_reg Python.ascii register = .ok r
  tail : t.tail.toList.head? = some ' ' ∧ tokenise_line (rawLine t.tail) = []

/-- The same, with the lines spelled out. -/
theorem Reads.of_chars {t : Template} {register : Str} {r : Nat} {before after : List Line}
    {comment front back : List Str}
    (hcomment : Spells t.comment comment) (hfront : Spells t.before front)
    (hback : Spells t.after back)
    (honeLine : ∀ cs ∈ comment ++ (front ++ back) ++ [t.front.toList, t.tail.toList], OneLine cs)
    (hblank : ∀ cs ∈ comment, tokenise_line (cs ++ ['\n']) = [])
    (hascii : ∀ cs ∈ front ++ back, AsciiTokens (tokenise_line (cs ++ ['\n'])))
    (hbefore : itemsOf Python.ascii (front.map (· ++ ['\n'])) = some (itemsIn before))
    (hafter : itemsOf Python.ascii (back.map (· ++ ['\n'])) = some (itemsIn after))
    (hload : ';' ∉ t.front.toList ∧
      tokenise_line t.front.toList = ["load".toList, register])
    (hregister : AsciiTokens [register] ∧ parse_reg Python.ascii register = .ok r)
    (htail : t.tail.toList.head? = some ' ' ∧ tokenise_line (rawLine t.tail) = []) :
    t.Reads register r before after where
  oneLine := by
    have hlast : Spells [t.front, t.tail] [t.front.toList, t.tail.toList] :=
      .cons (String.ofList_toList).symm (.cons (String.ofList_toList).symm .nil)
    have hlines := List.rel_append hcomment (List.rel_append hfront hback)
    exact Spells.forall (List.rel_append hlines hlast) honeLine
  comment := hcomment.forall hblank
  ascii := Spells.forall (List.rel_append hfront hback) hascii
  before := by
    rw [hfront.rawLines]
    exact hbefore
  after := by
    rw [hback.rawLines]
    exact hafter
  front := hload
  register := hregister
  tail := htail

/-- The lines around the body, and the mnemonic of the line with the constant. -/
structure FixedLines : Prop where
  oneLine : OneLine ".func main frameSize=0".toList ∧ OneLine ".endfunc".toList
  ascii : AsciiTokens (tokenise_line (rawLine ".func main frameSize=0")) ∧
    AsciiTokens (tokenise_line (rawLine ".endfunc")) ∧ AsciiTokens ["load".toList]
  func : lineKind Python.ascii (tokenise_line (rawLine ".func main frameSize=0")) = .func ∧
    frameSizeOf Python.ascii ((tokenise_line (rawLine ".func main frameSize=0")).drop 2) 0 = .ok 0
  endfunc : lineKind Python.ascii (tokenise_line (rawLine ".endfunc")) = .endfunc
  load : OPCODES.lookup (Python.ascii.lower "load".toList) = some .opLoad64 ∧
    lineKind Python.ascii ["load".toList] = .instr

theorem fixedLines : FixedLines := by
  constructor <;> decide +kernel

section Reads

variable {t : Template} {register : Str} {r n : Nat} {before after : List Line}

/-- The line with the constant, character by character. -/
theorem toList_constantLine (t : Template) (n : Nat) :
    rawLine (t.constantLine n) = t.front.toList ++ ' ' :: (decimal n ++ rawLine t.tail) := by
  unfold rawLine constantLine decimal
  rw [String.toList_append, String.toList_append, String.toList_append]
  simp only [List.append_assoc]
  rfl

/-- The tokens of the line with the constant. -/
theorem Reads.tokens (h : t.Reads register r before after) (n : Nat) :
    tokenise_line (rawLine (t.constantLine n)) = ["load".toList, register, decimal n] := by
  have hplain : ∀ c ∈ decimal n, isSpecial c = false := by
    intro c hc
    have hdigit := isDigit_of_mem_decimal hc
    apply (IsNumeral.plain _).2.1
    exact Or.inr (Or.inr (Or.inr (by rw [(digitValue_of_isDigit hdigit).1]; rfl)))
  have hne : decimal n ≠ [] := by
    rw [decimal_eq]
    exact Nat.toDigits_ne_nil
  have hstops : Stops (rawLine t.tail) := by
    obtain ⟨cs, hcs⟩ := List.head?_eq_some_iff.1 h.tail.1
    refine Or.inr ⟨' ', cs ++ ['\n'], ?_, by decide⟩
    unfold rawLine
    rw [hcs]
    rfl
  rw [toList_constantLine, tokenise_append h.front.1, h.front.2, tokenise_word hne hplain hstops,
    h.tail.2]
  rfl

/-- **The item of that line.** -/
theorem Reads.constant (h : t.Reads register r before after) (hn : 1 ≤ n) (hsmall : n < 2 ^ 47) :
    itemOf Python.ascii ["load".toList, register, decimal n] = some (Line.load r n).item := by
  have hint := int0_decimal hn hsmall
  have hspelled := integerOf_of_int0 hint
  have hvalue : encode_value Python.ascii (decimal n) = .ok (encode_int48 n) := by
    rw [encode_value_number (not_isKeyword_of_integerOf hspelled)
      fun c hc => (integerOf_plain hspelled c hc).2, hint]
  have hread : readLine Python.ascii ["load".toList, register, decimal n]
      = some (.load r (encode_int48 n)) := by
    have hop : mnemonicOf Python.ascii ["load".toList, register, decimal n] = some .opLoad64 :=
      fixedLines.load.1
    refine readLine_of hop ?_
    show (regAt Python.ascii _ 1 >>= fun dst => tokAt _ 2 >>= fun tok =>
      encode_value Python.ascii tok >>= fun literal => pure (SourceInstr.load dst literal)) = _
    have hreg : regAt Python.ascii ["load".toList, register, decimal n] 1 = .ok r := h.register.2
    have htok : tokAt ["load".toList, register, decimal n] 2 = .ok (decimal n) := rfl
    rw [except_bind_ok hreg, except_bind_ok htok, except_bind_ok hvalue]
    rfl
  -- the kind of a line is that of its first token
  have hkind : lineKind Python.ascii ["load".toList, register, decimal n] = .instr :=
    fixedLines.load.2
  unfold itemOf
  rw [hkind]
  simp only [hread]
  rfl

/-- Every line of the file is one line. -/
theorem Reads.lines (h : t.Reads register r before after) (n : Nat) : ∀ l ∈ t.lines n, OneLine l.toList := by
  have hconstant : OneLine (t.constantLine n).toList := by
    intro c hc
    unfold constantLine at hc
    rw [String.toList_append, String.toList_append, String.toList_append] at hc
    simp only [List.mem_append] at hc
    rcases hc with ((hc | hc) | hc) | hc
    · exact h.oneLine t.front (by simp) c hc
    · have hspace : OneLine " ".toList := by decide
      exact hspace c hc
    · have hdigit : c.isDigit = true := isDigit_of_mem_decimal hc
      constructor
      · rintro rfl
        exact absurd hdigit (by decide)
      · rintro rfl
        exact absurd hdigit (by decide)
    · exact h.oneLine t.tail (by simp) c hc
  intro l hl
  unfold Template.lines at hl
  simp only [List.mem_append, List.mem_cons, List.not_mem_nil, or_false] at hl
  rcases hl with hl | rfl | (hl | rfl | hl) | rfl
  · exact h.oneLine l (by simp [hl])
  · exact fixedLines.oneLine.1
  · exact h.oneLine l (by simp [hl])
  · exact hconstant
  · exact h.oneLine l (by simp [hl])
  · exact fixedLines.oneLine.2

/-- **The file is one function** with the listing. -/
theorem Reads.oneFunction (h : t.Reads register r before after) (hn : 1 ≤ n)
    (hsmall : n < 2 ^ 47) :
    OneFunction Python.ascii (itemsIn (before ++ .load r n :: after)) (readlines (t.text n)) := by
  have htokens := h.tokens n
  have hitem := h.constant hn hsmall
  have hconstant : itemsOf Python.ascii [rawLine (t.constantLine n)]
      = some [(Line.load r n).item] := by
    show (if tokenise_line (rawLine (t.constantLine n)) = [] then some []
      else itemOf Python.ascii (tokenise_line (rawLine (t.constantLine n))) >>= fun item =>
        some [item]) = _
    rw [htokens, if_neg (by simp), hitem]
    rfl
  have hbody : itemsOf Python.ascii ((t.before ++ t.constantLine n :: t.after).map rawLine)
      = some (itemsIn (before ++ .load r n :: after)) := by
    have hitems := itemsOf_append h.before (itemsOf_append hconstant h.after)
    rw [List.map_append, List.map_cons]
    refine hitems.trans ?_
    unfold itemsIn
    rw [List.map_append, List.map_cons]
    rfl
  have hblank : ∀ raw ∈ t.comment.map rawLine, tokenise_line raw = [] := by
    intro raw hraw
    obtain ⟨l, hl, rfl⟩ := List.mem_map.1 hraw
    exact h.comment l hl
  have hfile := OneFunction.mk hblank fixedLines.func.1 fixedLines.func.2 hbody fixedLines.endfunc
  unfold Template.text
  rw [readlines_textOf (h.lines n)]
  unfold Template.lines
  rw [List.map_append, List.map_cons, List.map_append, List.map_cons, List.map_nil]
  exact hfile

/-- Its tokens are ASCII. -/
theorem Reads.asciiLines (h : t.Reads register r before after) (n : Nat) :
    AsciiLines (readlines (t.text n)) := by
  have hconstant : AsciiTokens (tokenise_line (rawLine (t.constantLine n))) := by
    rw [h.tokens]
    intro tok htok
    rcases List.mem_cons.1 htok with rfl | htok
    · exact fixedLines.ascii.2.2 _ (by simp)
    rcases List.mem_cons.1 htok with rfl | htok
    · exact h.register.1 _ (by simp)
    rw [List.mem_singleton.1 htok]
    exact fun c hc => isAscii_of_mem_decimal hc
  unfold Template.text
  rw [readlines_textOf (h.lines n)]
  intro raw hraw
  obtain ⟨l, hl, rfl⟩ := List.mem_map.1 hraw
  unfold Template.lines at hl
  simp only [List.mem_append, List.mem_cons, List.not_mem_nil, or_false] at hl
  rcases hl with hl | rfl | (hl | rfl | hl) | rfl
  · rw [h.comment l hl]
    exact fun tok htok => absurd htok List.not_mem_nil
  · exact fixedLines.ascii.1
  · exact h.ascii l (by simp [hl])
  · exact hconstant
  · exact h.ascii l (by simp [hl])
  · exact fixedLines.ascii.2.1

/-- **What the listing leads to is what the file prints.** -/
theorem Reads.prints (h : t.Reads register r before after) (hn : 1 ≤ n) (hsmall : n < 2 ^ 47)
    {v : Int} (py : Python) (allocator : Allocator) (fpu : Fpu)
    (hlink : ItemsLink (itemsIn (before ++ .load r n :: after)))
    (hleads : ∀ bytes, ListingImage (itemsIn (before ++ .load r n :: after)) bytes →
      Leads TypedVM.Goes (At (before ++ .load r n :: after) bytes 0 ⟨[], none⟩) (Printed v)) :
    Prints py allocator fpu (t.text n) v :=
  prints_of_leads py allocator fpu (h.oneFunction hn hsmall) (h.asciiLines n) hlink hleads

end Reads

end Template

end SproutLang.Programs
