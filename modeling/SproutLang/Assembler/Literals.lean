/-
  SproutLang.Assembler.Literals
  ─────────────────────────────
  **LITERALS FROM SOURCE TO REGISTER.**

  A line `load rN, <lit>` goes through the tokeniser, the forms of
  `encode_value`, a 48-bit mask and eight bytes of the image before the VM's
  `load` puts a word into the register.  `literal_survives_iff` says when that
  word still is the value that was written.
-/
import SproutLang.Assembler.Agreement
import SproutLang.Assembler.Tokens

namespace SproutLang.Assembler

open Library

/-! ## §1. Number literals. -/

/-- The characters `int()` takes. -/
def IsNumeral (c : Char) : Prop :=
  c = '_' ∨ c = '+' ∨ c = '-' ∨ (digitValue c).isSome = true

/-- A digit is one of `0` to `9` or a letter. -/
theorem digitValue_range {c : Char} (h : (digitValue c).isSome = true) :
    ('0'.toNat ≤ c.toNat ∧ c.toNat ≤ '9'.toNat) ∨ ('a'.toNat ≤ c.toNat ∧ c.toNat ≤ 'z'.toNat) ∨
      ('A'.toNat ≤ c.toNat ∧ c.toNat ≤ 'Z'.toNat) := by
  unfold digitValue at h
  split at h
  · exact Or.inl ‹_›
  · split at h
    · exact Or.inr (Or.inl ‹_›)
    · split at h
      · exact Or.inr (Or.inr ‹_›)
      · exact absurd h (by simp)

/-- A numeral is an ASCII character that neither separates nor quotes. -/
theorem IsNumeral.plain {c : Char} (h : IsNumeral c) :
    isAscii c = true ∧ isSpecial c = false ∧ c ≠ '"' ∧ c ≠ '\'' := by
  rcases h with rfl | rfl | rfl | h
  · decide
  · decide
  · decide
  · -- a digit or a letter: its code is between those of `0` and `z`
    have hrange := digitValue_range h
    have hcodes : '0'.toNat = 48 ∧ '9'.toNat = 57 ∧ 'a'.toNat = 97 ∧ 'z'.toNat = 122 ∧
        'A'.toNat = 65 ∧ 'Z'.toNat = 90 := by decide
    have hbounds : 48 ≤ c.toNat ∧ c.toNat ≤ 122 ∧ c.toNat ≠ 59 := by omega
    have hne : ∀ d : Char, d.toNat < 48 ∨ d.toNat = 59 → c ≠ d := by
      rintro d hd rfl
      omega
    have hspace : isSpace c = false := by
      unfold isSpace
      simp only [Bool.or_eq_false_iff, Bool.and_eq_false_iff, decide_eq_false_iff_not]
      omega
    refine ⟨decide_eq_true (by omega), ?_, hne _ (by decide), hne _ (by decide)⟩
    unfold isSpecial isSeparator
    rw [hspace, decide_eq_false (hne ',' (by decide)), decide_eq_false (hne ';' (by decide))]
    rfl

/-- Whatever scans as a number is made of digits, letters and underscores. -/
theorem scanDigits_numeral {base : Nat} (cs : Str) :
    ∀ {acc seen v}, scanDigits base acc seen cs = some v → ∀ c ∈ cs, IsNumeral c := by
  induction cs with
  | nil => exact fun _ c hc => absurd hc List.not_mem_nil
  | cons d cs ih =>
      intro acc seen v h
      unfold scanDigits at h
      split at h
      · rename_i hd
        -- an underscore stands behind a digit
        split at h
        · exact List.forall_mem_cons.2 ⟨Or.inl hd, ih h⟩
        · exact absurd h (by simp)
      · cases hdigit : digitValue d with
        | none =>
            simp only [hdigit] at h
            exact absurd h (by simp)
        | some n =>
            simp only [hdigit] at h
            split at h
            · refine List.forall_mem_cons.2 ⟨Or.inr (Or.inr (Or.inr ?_)), ih h⟩
              rw [hdigit]
              rfl
            · exact absurd h (by simp)

/-- A decimal number is one of few enough digits. -/
theorem scanDecimal_eq_some {cs : Str} {v : Nat} : scanDecimal cs = some v ↔
    digitCount cs ≤ MAX_STR_DIGITS ∧ scanDigits 10 0 false cs = some v := by
  unfold scanDecimal
  by_cases hfew : digitCount cs ≤ MAX_STR_DIGITS
  · rw [if_pos hfew]
    exact (and_iff_right hfew).symm
  · rw [if_neg hfew]
    exact ⟨fun h => absurd h (by simp), fun h => absurd h.1 hfew⟩

theorem skipUnderscore_numeral {cs : Str} (h : ∀ c ∈ skipUnderscore cs, IsNumeral c) :
    ∀ c ∈ cs, IsNumeral c := by
  unfold skipUnderscore at h
  split at h
  · exact List.forall_mem_cons.2 ⟨Or.inl rfl, h⟩
  · exact h

/-- So is a number with a base in front. -/
theorem scanPrefixed_numeral {cs : Str} {v : Nat} (h : scanPrefixed cs = some v) :
    ∀ c ∈ cs, IsNumeral c := by
  have hzero : IsNumeral '0' := Or.inr (Or.inr (Or.inr rfl))
  have hletter : ∀ {base : Nat} {d : Char} {ds : Str} {v : Nat}, IsNumeral d →
      scanDigits base 0 false (skipUnderscore ds) = some v →
      ∀ c ∈ '0' :: d :: ds, IsNumeral c := by
    intro base d ds v hd hscan
    exact List.forall_mem_cons.2 ⟨hzero, List.forall_mem_cons.2
      ⟨hd, skipUnderscore_numeral (scanDigits_numeral _ hscan)⟩⟩
  -- six spellings of a base, a leading zero, or plain digits
  unfold scanPrefixed at h
  split at h
  · exact hletter (Or.inr (Or.inr (Or.inr rfl))) h
  · exact hletter (Or.inr (Or.inr (Or.inr rfl))) h
  · exact hletter (Or.inr (Or.inr (Or.inr rfl))) h
  · exact hletter (Or.inr (Or.inr (Or.inr rfl))) h
  · exact hletter (Or.inr (Or.inr (Or.inr rfl))) h
  · exact hletter (Or.inr (Or.inr (Or.inr rfl))) h
  · split at h
    · rename_i hscan
      exact scanDigits_numeral _ (scanDecimal_eq_some.1 hscan).2
    · exact absurd h (by simp)
  · exact scanDigits_numeral _ (scanDecimal_eq_some.1 h).2

/-- A text without its sign. -/
def unsigned : Str → Str
  | '-' :: cs => cs
  | '+' :: cs => cs
  | cs => cs

/-- What the sign makes of a number. -/
def signOf (s : Str) (n : Nat) : Int := if s.head? = some '-' then -n else n

/-- A sign is taken off, and then applied. -/
theorem signed_eq (scan : Str → Option Nat) (s : Str) :
    signed scan s = (scan (unsigned s)).map (signOf s) := by
  unfold signed unsigned signOf
  split
  · rfl
  · rfl
  · rename_i hminus _
    have hhead : s.head? ≠ some '-' := by
      intro hhead
      obtain ⟨cs, rfl⟩ := List.head?_eq_some_iff.1 hhead
      exact hminus cs rfl
    simp only [hhead, if_false]

/-- With its sign, a number is still a numeral. -/
theorem unsigned_numeral {s : Str} (h : ∀ c ∈ unsigned s, IsNumeral c) : ∀ c ∈ s, IsNumeral c := by
  unfold unsigned at h
  split at h
  · exact List.forall_mem_cons.2 ⟨Or.inr (Or.inr (Or.inl rfl)), h⟩
  · exact List.forall_mem_cons.2 ⟨Or.inr (Or.inl rfl), h⟩
  · exact h

/-- **The integer a literal spells**: what `int(lit, 0)` reads, or the number of
a decimal text that it refuses. -/
def integerOf (py : Python) (lit : Str) : Option Int :=
  match py.int0 lit with
  | some n => some n
  | none => py.decimalOf lit

/-- A decimal text as `int(lit, 0)` wants it: not too long, and a zero in front
only in zero.  (With the prefix of a base a text has neither limit.) -/
def Canonical (py : Python) (lit : Str) : Prop :=
  ∀ n, scanDigits 10 0 false (unsigned (py.toAsciiDigits lit)) = some n →
    digitCount (unsigned (py.toAsciiDigits lit)) ≤ MAX_STR_DIGITS ∧
      ((unsigned (py.toAsciiDigits lit)).head? = some '0' → n = 0)

/-- What is no integer is none to `int`. -/
theorem int0_eq_none_of_integerOf {py : Python} {lit : Str} (h : integerOf py lit = none) :
    py.int0 lit = none := by
  unfold integerOf at h
  cases hint : py.int0 lit with
  | none => rfl
  | some n =>
      rw [hint] at h
      exact absurd h (by simp)

/-- `int(lit, 0)` reads no other integer than the text spells. -/
theorem int0_eq_none_of_ne {py : Python} {lit : Str} {n : Int} (h : integerOf py lit = some n)
    (hne : py.int0 lit ≠ some n) : py.int0 lit = none := by
  unfold integerOf at h
  cases hint : py.int0 lit with
  | none => rfl
  | some m =>
      rw [hint] at h
      rw [hint] at hne
      exact absurd h hne

/-- No float is an integer of the VM. -/
theorem Python.isInt_float (py : Python) {s : Str} {w : Word} (h : py.float s = some w) :
    isInt w = false := by
  have hword := py.float_word s w h
  rw [Bool.eq_false_iff]
  intro hint
  rw [isInt_iff] at hint
  omega

/-- What `int` reads is an integer. -/
theorem integerOf_of_int0 {py : Python} {lit : Str} {n : Int} (h : py.int0 lit = some n) :
    integerOf py lit = some n := by
  unfold integerOf
  rw [h]

/-- Decimal digits have their value, unless they are too many. -/
theorem scanDecimal_or_none {s : Str} {d : Nat} (h : scanDigits 10 0 false s = some d) :
    scanDecimal s = none ∨ scanDecimal s = some d := by
  unfold scanDecimal
  split
  · exact Or.inr h
  · exact Or.inl rfl

/-- No decimal text has the prefix of a base. -/
theorem scanPrefixed_decimal {s : Str} {d : Nat} (h : scanDigits 10 0 false s = some d) :
    scanPrefixed s = if s.head? = some '0' ∧ d ≠ 0 then none else scanDecimal s := by
  -- the letter of a prefix is no decimal digit
  have hletter : ∀ {c : Char} {cs : Str}, digitValue c = some 33 ∨ digitValue c = some 24 ∨
      digitValue c = some 11 → scanDigits 10 0 false ('0' :: c :: cs) = none := by
    intro c cs hc
    have hne : c ≠ '_' := by
      rintro rfl
      exact absurd hc (by decide)
    have hzero : digitValue '0' = some 0 := by decide
    unfold scanDigits
    rw [if_neg (by decide), hzero]
    simp only [Nat.zero_lt_succ, if_true]
    unfold scanDigits
    rw [if_neg hne]
    rcases hc with hc | hc | hc <;> simp [hc]
  have hnone : ∀ {c : Char} {cs : Str}, s = '0' :: c :: cs → ¬ (digitValue c = some 33 ∨
      digitValue c = some 24 ∨ digitValue c = some 11) := by
    rintro c cs rfl hc
    rw [hletter hc] at h
    exact absurd h (by simp)
  unfold scanPrefixed
  split
  · exact absurd (by decide) (hnone rfl)
  · exact absurd (by decide) (hnone rfl)
  · exact absurd (by decide) (hnone rfl)
  · exact absurd (by decide) (hnone rfl)
  · exact absurd (by decide) (hnone rfl)
  · exact absurd (by decide) (hnone rfl)
  · -- a zero in front
    rw [List.head?_cons]
    rcases scanDecimal_or_none h with hnone | hsome
    · rw [hnone]
      simp
    · rw [hsome]
      by_cases hd : d = 0
      · subst hd
        rfl
      · rw [if_pos ⟨rfl, hd⟩]
        split
        · rename_i hzero
          exact absurd (Option.some.inj hzero) hd
        · rfl
  · rename_i hzero
    have hhead : s.head? ≠ some '0' := by
      intro hhead
      obtain ⟨cs, rfl⟩ := List.head?_eq_some_iff.1 hhead
      exact hzero cs rfl
    rw [if_neg fun hand => hhead hand.1]

/-- **`int(lit, 0)` reads an integer exactly if it is written canonically.** -/
theorem int0_eq_some_iff {py : Python} {lit : Str} {n : Int} (h : integerOf py lit = some n) :
    py.int0 lit = some n ↔ Canonical py lit := by
  unfold integerOf at h
  have hread : py.int0 lit = (scanPrefixed (unsigned (py.toAsciiDigits lit))).map
      (signOf (py.toAsciiDigits lit)) := signed_eq _ _
  have hdecimal : py.decimalOf lit = (scanDigits 10 0 false (unsigned (py.toAsciiDigits lit))).map
      (signOf (py.toAsciiDigits lit)) := signed_eq _ _
  unfold Canonical
  cases hint : py.int0 lit with
  | some m =>
      rw [hint] at h
      refine iff_of_true h fun d hd => ?_
      -- a decimal text that is read meets both conditions
      rw [hint] at hread
      obtain ⟨v, hv, -⟩ := Option.map_eq_some_iff.1 hread.symm
      rw [scanPrefixed_decimal hd] at hv
      by_cases hzero : (unsigned (py.toAsciiDigits lit)).head? = some '0' ∧ d ≠ 0
      · rw [if_pos hzero] at hv
        exact absurd hv (by simp)
      · rw [if_neg hzero] at hv
        exact ⟨(scanDecimal_eq_some.1 hv).1, fun hhead => by_contra fun hd => hzero ⟨hhead, hd⟩⟩
  | none =>
      rw [hint] at h
      refine iff_of_false (by simp) fun hcanonical => ?_
      have hspelled : py.decimalOf lit = some n := h
      rw [hdecimal] at hspelled
      obtain ⟨d, hd, -⟩ := Option.map_eq_some_iff.1 hspelled
      obtain ⟨hfew, hzero⟩ := hcanonical d hd
      -- then it would have been read
      have hprefixed := scanPrefixed_decimal hd
      rw [if_neg fun hand => hand.2 (hzero hand.1), scanDecimal_eq_some.2 ⟨hfew, hd⟩] at hprefixed
      rw [hint, hprefixed] at hread
      exact absurd hread (by simp)

/-- An integer literal consists of numerals, or digits of other scripts. -/
theorem integerOf_numeral {py : Python} {tok : Str} {n : Int} (h : integerOf py tok = some n) :
    ∀ c ∈ py.toAsciiDigits tok, IsNumeral c := by
  apply unsigned_numeral
  unfold integerOf at h
  cases hint : py.int0 tok with
  | some m =>
      have hread := hint
      unfold Python.int0 at hread
      rw [signed_eq] at hread
      obtain ⟨v, hv, -⟩ := Option.map_eq_some_iff.1 hread
      exact scanPrefixed_numeral hv
  | none =>
      rw [hint] at h
      have hspelled : py.decimalOf tok = some n := h
      unfold Python.decimalOf at hspelled
      rw [signed_eq] at hspelled
      obtain ⟨v, hv, -⟩ := Option.map_eq_some_iff.1 hspelled
      exact scanDigits_numeral _ hv

/-- **An integer literal has no special character and no quote.** -/
theorem integerOf_plain {py : Python} {tok : Str} {n : Int} (h : integerOf py tok = some n) :
    ∀ c ∈ tok, isSpecial c = false ∧ c ≠ '"' ∧ c ≠ '\'' := by
  intro c hc
  have hnumeral := integerOf_numeral h
  by_cases hascii : isAscii c = true
  · have hmem : c ∈ py.toAsciiDigits tok := List.mem_map.2 ⟨c, hc, by rw [if_pos hascii]⟩
    exact (hnumeral c hmem).plain.2
  · -- a digit of another script: no whitespace, and no ASCII character at all
    have hne : ∀ d : Char, isAscii d = true → c ≠ d := by
      rintro d hd rfl
      exact hascii hd
    refine ⟨?_, hne _ (by decide), hne _ (by decide)⟩
    have hspace : isSpace c = false := by
      cases hdigit : py.digit c with
      | some d => exact py.digit_space c d hdigit
      | none =>
          have hmem : c ∈ py.toAsciiDigits tok :=
            List.mem_map.2 ⟨c, hc, by rw [if_neg hascii, hdigit]⟩
          exact absurd (hnumeral c hmem).plain.1 hascii
    unfold isSpecial isSeparator
    rw [hspace, decide_eq_false (hne ',' (by decide)), decide_eq_false (hne ';' (by decide))]
    rfl

/-- The empty token is no integer. -/
theorem integerOf_ne_nil {py : Python} {tok : Str} {n : Int} (h : integerOf py tok = some n) :
    tok ≠ [] := by
  rintro rfl
  have hnil : integerOf py [] = none := rfl
  rw [hnil] at h
  exact absurd h (by simp)

/-! ## §2. Literals and the words that hold them. -/

/-- The value a literal stands for; a double is given by its bits. -/
inductive Literal where
  | int (n : Int)
  | bool (b : Bool)
  | null
  | double (bits : Word)
  | chars (s : Str)

/-- The literals that are words. -/
def isKeyword (lit : Str) : Prop :=
  lit = "null".toList ∨ lit = "true".toList ∨ lit = "false".toList

/-- How the literal is written. -/
def Literal.Spelled (py : Python) : Literal → Str → Prop
  | .int n, lit => integerOf py lit = some n
  | .bool b, lit => lit = if b then "true".toList else "false".toList
  | .null, lit => lit = "null".toList
  | .double bits, lit =>
      lit ≠ [] ∧ (∀ c ∈ lit, isSpecial c = false) ∧ ¬ isKeyword lit ∧ integerOf py lit = none ∧
        py.float lit = some bits
  | .chars s, lit => ∃ q, (q = '"' ∨ q = '\'') ∧ lit = q :: s ++ [q]

/-- The byte of a character, and NULs behind the last one. -/
def byteAt (s : Str) (i : Nat) : Byte := BitVec.ofNat 8 ((s.map Char.toNat).getD i 0)

/-- A text of six characters at most, padded with NULs. -/
def charsOf (s : Str) : Char6 := ⟨byteAt s 0, byteAt s 1, byteAt s 2, byteAt s 3, byteAt s 4, byteAt s 5⟩

/-- **The VM classifies and decodes a word to the literal's value.** -/
def Literal.Held (w : Word) : Literal → Prop
  | .int n => isInt w = true ∧ decodeInt w = n
  | .bool b => isBool w = true ∧ decodeBool w = b
  | .null => isDouble w = false ∧ getTag w = SproutLang.TAG_NULL
  | .double bits => isDouble w = true ∧ w = bits
  | .chars s => s.length ≤ 6 ∧ (∀ c ∈ s, isAscii c = true) ∧ isChar6 w = true ∧
      decodeChar6 w = charsOf s

/-- An integer has 48 bits and is written canonically, a double is finite, and
a quoted text has no character that separates tokens or starts a comment. -/
def Literal.Plain (py : Python) (lit : Str) : Literal → Prop
  | .int n => (-2 ^ 47 ≤ n ∧ n < 2 ^ 47) ∧ Canonical py lit
  | .bool _ | .null => True
  | .double bits => isDouble bits = true
  | .chars s => ∀ c ∈ s, isSpecial c = false

/-- A boxed value as a sum. -/
theorem box_eq {tag p : Nat} (ht : tag < 2 ^ 4) (hp : p < 2 ^ 48) :
    box tag p = 2047 * 2 ^ 52 + tag * 2 ^ 48 + p := by
  unfold box
  rw [Nat.shiftLeft_eq, show NAN_BASE = 2047 * 2 ^ 52 from by decide, or_shifted 2047 (by omega),
    show 2047 * 2 ^ 52 + tag * 2 ^ 48 = (2047 * 2 ^ 4 + tag) * 2 ^ 48 from by ring,
    or_shifted _ hp]

theorem toNat_ofNat_box {tag p : Nat} (ht : tag < 2 ^ 4) (hp : p < 2 ^ 48) :
    (BitVec.ofNat 64 (box tag p)).toNat = 2047 * 2 ^ 52 + tag * 2 ^ 48 + p := by
  rw [box_eq ht hp, BitVec.toNat_ofNat]
  omega

/-- **An integer literal is reduced to 48 bits.** -/
theorem held_int (n : Int) :
    isInt (BitVec.ofNat 64 (encode_int48 n)) = true ∧
      decodeInt (BitVec.ofNat 64 (encode_int48 n)) = Int.bmod n (2 ^ 48) := by
  have hnat : (BitVec.ofNat 64 (encode_int48 n)).toNat
      = 2047 * 2 ^ 52 + 1 * 2 ^ 48 + (n % 2 ^ 48).toNat :=
    toNat_ofNat_box (by decide) (by omega)
  constructor
  · rw [isInt_iff, hnat]
    omega
  · rw [decodeInt_eq, hnat, ← Int.emod_bmod n, ← Int.emod_bmod (Nat.cast _)]
    congr 1
    omega

/-- A boolean is held by its word. -/
theorem held_bool (b : Bool) : (Literal.bool b).Held (BitVec.ofNat 64 (encode_bool b)) := by
  cases b with
  | true => exact ⟨by decide, by decide⟩
  | false => exact ⟨by decide, by decide⟩

/-! ## §3. Character literals. -/

/-- The six bytes of a text. -/
def sixBytes (s : Str) : List Nat := s.map Char.toNat ++ List.replicate (6 - s.length) 0

/-- Padding adds zeros only. -/
theorem sixBytes_getD (s : Str) (i : Nat) :
    (sixBytes s).getD i 0 = (s.map Char.toNat).getD i 0 := by
  unfold sixBytes
  rw [List.getD_eq_getElem?_getD, List.getD_eq_getElem?_getD]
  by_cases hi : i < (s.map Char.toNat).length
  · rw [List.getElem?_append_left hi]
  · rw [List.getElem?_append_right (by omega), List.getElem?_eq_none (l := s.map Char.toNat) (by omega),
      List.getElem?_replicate]
    split <;> rfl

/-- Six bytes as one number. -/
theorem fromBytesLittle_six {l : List Nat} (h : l.length = 6) :
    fromBytesLittle l = l.getD 0 0 + 256 * (l.getD 1 0 + 256 * (l.getD 2 0 + 256 * (l.getD 3 0
      + 256 * (l.getD 4 0 + 256 * (l.getD 5 0 + 256 * 0))))) := by
  match l, h with
  | [a, b, c, d, e, f], _ => rfl

theorem toNat_lt_of_isAscii {s : Str} (h : ∀ c ∈ s, isAscii c = true) (i : Nat) :
    (s.map Char.toNat).getD i 0 < 128 := by
  rw [List.getD_eq_getElem?_getD, List.getElem?_map]
  cases hget : s[i]? with
  | none => decide
  | some c => exact of_decide_eq_true (h c (List.mem_of_getElem? hget))

/-- **A character literal is held by its word.** -/
theorem encode_char6_held {s : Str} {w : Nat} (h : encode_char6 s = .ok w) :
    (Literal.chars s).Held (BitVec.ofNat 64 w) := by
  unfold encode_char6 at h
  split at h
  · exact absurd h (by simp)
  · rename_i hlen
    split at h
    · rename_i hall
      have hascii : ∀ c ∈ s, isAscii c = true := List.all_eq_true.1 hall
      injection h with h
      change box TAG_CHAR6 (fromBytesLittle (sixBytes s) &&& 0x0000FFFFFFFFFFFF) = w at h
      have hsix : (sixBytes s).length = 6 := by
        unfold sixBytes
        rw [List.length_append, List.length_map, List.length_replicate]
        omega
      have hbytes := fromBytesLittle_six hsix
      have hlt := toNat_lt_of_isAscii hascii
      simp only [sixBytes_getD] at hbytes
      have h0 := hlt 0
      have h1 := hlt 1
      have h2 := hlt 2
      have h3 := hlt 3
      have h4 := hlt 4
      have h5 := hlt 5
      -- six bytes below 2^7 stay within 48 bits
      have hmask : fromBytesLittle (sixBytes s) &&& 0x0000FFFFFFFFFFFF
          = fromBytesLittle (sixBytes s) := by
        rw [show (0x0000FFFFFFFFFFFF : Nat) = 2 ^ 48 - 1 from rfl, Nat.and_two_pow_sub_one_eq_mod]
        omega
      have hnat : (BitVec.ofNat 64 w).toNat
          = 2047 * 2 ^ 52 + 4 * 2 ^ 48 + fromBytesLittle (sixBytes s) := by
        rw [← h, hmask]
        exact toNat_ofNat_box (by decide) (by omega)
      generalize BitVec.ofNat 64 w = v at hnat
      refine ⟨by omega, hascii, ?_, ?_⟩
      · rw [isChar6_iff, hnat]
        omega
      · -- byte by byte: what is decoded is what was packed
        have hfield : ∀ i x : Nat, v.toNat % 2 ^ 48 / 2 ^ i % 2 ^ 8 = x % 2 ^ 8 →
            (v &&& SproutLang.NAN_PAYLOAD).extractLsb' i 8 = BitVec.ofNat 8 x := by
          intro i x hx
          apply BitVec.eq_of_toNat_eq
          rw [BitVec.extractLsb'_toNat, toNat_and_payload, BitVec.toNat_ofNat,
            Nat.shiftRight_eq_div_pow, hx]
        unfold decodeChar6 charsOf byteAt
        simp only [Char6.mk.injEq]
        refine ⟨hfield _ _ ?_, hfield _ _ ?_, hfield _ _ ?_, hfield _ _ ?_, hfield _ _ ?_,
          hfield _ _ ?_⟩ <;> rw [hnat] <;> omega
    · exact absurd h (by simp)

/-- Texts with the same six bytes agree at every position. -/
theorem byteAt_eq_of_charsOf {s t : Str} (h : charsOf s = charsOf t) {i : Nat} (hi : i < 6) :
    byteAt s i = byteAt t i := by
  unfold charsOf at h
  simp only [Char6.mk.injEq] at h
  obtain ⟨h0, h1, h2, h3, h4, h5⟩ := h
  match i, hi with
  | 0, _ => exact h0
  | 1, _ => exact h1
  | 2, _ => exact h2
  | 3, _ => exact h3
  | 4, _ => exact h4
  | 5, _ => exact h5

/-! ## §4. The forms of a literal. -/

section Forms

variable {py : Python} {tok s : Str} {w : Nat} {q : Char}

/-- An integer is no keyword. -/
theorem not_isKeyword_of_integerOf {n : Int} (h : integerOf py tok = some n) : ¬ isKeyword tok := by
  have hnull : integerOf py "null".toList = none := rfl
  have htrue : integerOf py "true".toList = none := rfl
  have hfalse : integerOf py "false".toList = none := rfl
  intro hcases
  rcases hcases with rfl | rfl | rfl
  · exact absurd (hnull.symm.trans h) (by simp)
  · exact absurd (htrue.symm.trans h) (by simp)
  · exact absurd (hfalse.symm.trans h) (by simp)

/-- A token that begins with a quote is quoted if it ends with the same one. -/
theorem quotedBy_quote (hq : q = '"' ∨ q = '\'') (t : Str) :
    (quotedBy '"' (q :: t) || quotedBy '\'' (q :: t)) = endsWith (q :: t) q := by
  unfold quotedBy
  rcases hq with rfl | rfl
  · have hother : startsWith ('"' :: t) '\'' = false := rfl
    have hown : startsWith ('"' :: t) '"' = true := rfl
    rw [hother, hown, Bool.true_and, Bool.false_and, Bool.or_false]
  · have hother : startsWith ('\'' :: t) '"' = false := rfl
    have hown : startsWith ('\'' :: t) '\'' = true := rfl
    rw [hother, hown, Bool.true_and, Bool.false_and, Bool.false_or]

/-- A token that starts with a quote is a character literal or nothing. -/
theorem encode_value_quote (hq : q = '"' ∨ q = '\'') {t : Str}
    (h : encode_value py (q :: t) = .ok w) :
    (q :: t).getLast? = some q ∧ encode_char6 t.dropLast = .ok w := by
  have hkey : ∀ k : Str, k.head? ≠ some '"' → k.head? ≠ some '\'' → q :: t ≠ k := by
    intro k h1 h2 hk
    rw [← hk] at h1 h2
    rcases hq with rfl | rfl
    · exact h1 rfl
    · exact h2 rfl
  -- it is none of the three keywords
  have hbool : ¬ (q :: t = "true".toList ∨ q :: t = "false".toList) :=
    not_or.2 ⟨hkey _ (by decide) (by decide), hkey _ (by decide) (by decide)⟩
  unfold encode_value at h
  rw [if_neg (hkey _ (by decide) (by decide)), if_neg hbool] at h
  rw [quotedBy_quote hq] at h
  by_cases hlast : (q :: t).getLast? = some q
  · have hends : endsWith (q :: t) q = true := decide_eq_true hlast
    rw [hends, if_pos rfl] at h
    exact ⟨hlast, h⟩
  · have hends : endsWith (q :: t) q = false := decide_eq_false hlast
    rw [hends, if_neg Bool.false_ne_true] at h
    -- neither `int()` nor `float()` takes a quote
    have hmem : q ∈ q :: t := List.mem_cons_self
    cases hint : py.int0 (q :: t) with
    | some n =>
        have hplain := (integerOf_plain (integerOf_of_int0 hint) q hmem).2
        rcases hq with rfl | rfl
        · exact absurd rfl hplain.1
        · exact absurd rfl hplain.2
    | none =>
        simp only [hint] at h
        cases hfloat : py.float (q :: t) with
        | some d =>
            have hchars := py.float_chars _ _ hfloat q hmem
            rcases hq with rfl | rfl
            · exact absurd (hchars (by decide) (by decide)) (by decide)
            · exact absurd (hchars (by decide) (by decide)) (by decide)
        | none =>
            simp only [hfloat] at h
            exact absurd h (by simp)

/-- A token without quotes that is no word is a number. -/
theorem encode_value_number (hkey : ¬ isKeyword tok) (hplain : ∀ c ∈ tok, c ≠ '"' ∧ c ≠ '\'') :
    encode_value py tok =
      match py.int0 tok with
      | some n => .ok (encode_int48 n)
      | none =>
          match py.float tok with
          | some d => .ok d.toNat
          | none => .error (.cannotEncode tok) := by
  unfold isKeyword at hkey
  rw [not_or] at hkey
  -- no quote, so neither a character literal nor an error
  have hquoted : (quotedBy '"' tok || quotedBy '\'' tok) = false := by
    unfold quotedBy startsWith
    cases tok with
    | nil => rfl
    | cons c t =>
        have hc := hplain c List.mem_cons_self
        rw [Bool.or_eq_false_iff, Bool.and_eq_false_iff, Bool.and_eq_false_iff]
        exact ⟨Or.inl (decide_eq_false fun h => hc.1 (Option.some.inj h)),
          Or.inl (decide_eq_false fun h => hc.2 (Option.some.inj h))⟩
  unfold encode_value
  rw [if_neg hkey.1, if_neg hkey.2, hquoted]
  exact if_neg Bool.false_ne_true

/-- **A literal without special characters is held if and only if it fits.** -/
theorem held_iff_plain {v : Literal} {lit : Str} (hv : v.Spelled py lit)
    (hlit : ∀ c ∈ lit, isSpecial c = false) (h : encode_value py lit = .ok w) :
    v.Held (BitVec.ofNat 64 w) ↔ v.Plain py lit := by
  cases v with
  | int n =>
      have hplain : ∀ c ∈ lit, c ≠ '"' ∧ c ≠ '\'' := fun c hc => (integerOf_plain hv c hc).2
      have hcanonical := int0_eq_some_iff hv
      unfold Literal.Held Literal.Plain
      rw [encode_value_number (not_isKeyword_of_integerOf hv) hplain] at h
      by_cases hint : py.int0 lit = some n
      · rw [hint] at h
        injection h with h
        obtain ⟨hint48, hdecode⟩ := held_int n
        rw [← h, hdecode]
        constructor
        · intro ⟨_, hn⟩
          -- the low 48 bits with their sign give the number back
          have hlow := @Int.le_bmod n (2 ^ 48) (by decide)
          have hhigh := @Int.bmod_lt n (2 ^ 48) (by decide)
          exact ⟨by omega, hcanonical.1 hint⟩
        · intro ⟨⟨hlow, hhigh⟩, _⟩
          exact ⟨hint48, Int.bmod_eq_of_le (by omega) (by omega)⟩
      · -- refused by `int()`: what `float()` makes of the text is no integer
        have hrefused := int0_eq_none_of_ne hv hint
        rw [hrefused] at h
        refine iff_of_false (fun hheld => ?_) fun hand => hint (hcanonical.2 hand.2)
        cases hfloat : py.float lit with
        | none =>
            simp only [hfloat] at h
            exact absurd h (by simp)
        | some d =>
            simp only [hfloat] at h
            injection h with h
            rw [← h, BitVec.ofNat_toNat, BitVec.setWidth_eq, py.isInt_float hfloat] at hheld
            exact absurd hheld.1 (by decide)
  | bool b =>
      have hlit : lit = if b then "true".toList else "false".toList := hv
      have hw : w = encode_bool b := by
        rw [hlit] at h
        cases b with
        | true => exact (Except.ok.inj h).symm
        | false => exact (Except.ok.inj h).symm
      rw [hw]
      exact iff_of_true (held_bool b) trivial
  | null =>
      have hlit : lit = "null".toList := hv
      rw [hlit] at h
      have hw : w = encode_null := (Except.ok.inj h).symm
      rw [hw]
      exact iff_of_true ⟨by decide, by decide⟩ trivial
  | double bits =>
      obtain ⟨-, -, hkey, hnone, hfloat⟩ := hv
      have hint := int0_eq_none_of_integerOf hnone
      -- no character of a float is a quote
      have hplain : ∀ c ∈ lit, c ≠ '"' ∧ c ≠ '\'' := by
        intro c hc
        have hchars := py.float_chars _ _ hfloat c hc
        constructor
        · rintro rfl
          exact absurd (hchars (by decide) (by decide)) (by decide)
        · rintro rfl
          exact absurd (hchars (by decide) (by decide)) (by decide)
      rw [encode_value_number hkey hplain, hint, hfloat] at h
      injection h with h
      unfold Literal.Held Literal.Plain
      rw [← h, BitVec.ofNat_toNat, BitVec.setWidth_eq]
      exact and_iff_left rfl
  | chars s =>
      obtain ⟨q, hq, rfl⟩ := hv
      obtain ⟨-, henc⟩ := encode_value_quote hq h
      have hdrop : (s ++ [q]).dropLast = s := List.dropLast_concat
      change encode_char6 (s ++ [q]).dropLast = .ok w at henc
      rw [hdrop] at henc
      refine iff_of_true (encode_char6_held henc) fun c hc => hlit c ?_
      exact List.mem_append_left _ (List.mem_cons_of_mem q hc)

/-- What the loaded word lacks when a quoted text is cut at `c`. -/
theorem not_held_of_cut (hq : q = '"' ∨ q = '\'') {s₁ s₂ : Str} {c : Char} (hc : isSpecial c = true)
    (h : encode_value py (q :: s₁) = .ok w) :
    ¬ (Literal.chars (s₁ ++ c :: s₂)).Held (BitVec.ofNat 64 w) := by
  intro ⟨hlen, hascii, _, hdecode⟩
  obtain ⟨hlast, henc⟩ := encode_value_quote hq h
  obtain ⟨hlen', -, -, hdecode'⟩ := encode_char6_held henc
  rw [hdecode'] at hdecode
  -- where the token's text ends, the written text goes on
  obtain ⟨d, hd, hget⟩ : ∃ d, d ≠ Char.ofNat 0 ∧ (s₁ ++ c :: s₂)[s₁.dropLast.length]? = some d := by
    rcases List.eq_nil_or_concat s₁ with rfl | ⟨t, d, rfl⟩
    · refine ⟨c, ?_, rfl⟩
      rintro rfl
      exact absurd hc (by decide)
    · rw [List.concat_eq_append] at hlast ⊢
      rw [← List.cons_append, List.getLast?_append, List.getLast?_singleton, Option.some_or] at hlast
      injection hlast with hlast
      refine ⟨d, ?_, by simp⟩
      rw [hlast]
      rcases hq with rfl | rfl
      · decide
      · decide
  have hi : s₁.dropLast.length < 6 := by
    obtain ⟨hlt, -⟩ := List.getElem?_eq_some_iff.1 hget
    omega
  -- there the word has a zero byte
  have hbyte := byteAt_eq_of_charsOf hdecode hi
  have hzero : byteAt s₁.dropLast s₁.dropLast.length = 0 := by
    unfold byteAt
    rw [List.getD_eq_getElem?_getD, List.getElem?_eq_none (by rw [List.length_map])]
    rfl
  have hd128 : d.toNat < 128 := of_decide_eq_true (hascii d (List.mem_of_getElem? hget))
  have hval : byteAt (s₁ ++ c :: s₂) s₁.dropLast.length = BitVec.ofNat 8 d.toNat := by
    unfold byteAt
    rw [List.getD_eq_getElem?_getD, List.getElem?_map, hget]
    rfl
  rw [hzero, hval] at hbyte
  have hnat := congrArg BitVec.toNat hbyte
  rw [BitVec.toNat_ofNat, Nat.mod_eq_of_lt (by omega)] at hnat
  exact hd (Char.toNat_inj.1 hnat.symm)

end Forms

/-! ## §5. The line. -/

/-- **A line `load <register>, <literal>`**, with blanks and a comment where
they may stand. -/
structure LoadLine where
  indent : Str
  gap : Str
  register : Str
  gap' : Str
  literal : Str
  tail : Str
  indent_space : ∀ c ∈ indent, isSpace c = true
  gap_space : gap ≠ [] ∧ ∀ c ∈ gap, isSpace c = true
  register_word : register ≠ [] ∧ ∀ c ∈ register, isSpecial c = false
  gap'_space : ∀ c ∈ gap', isSpace c = true
  tail_space : ∀ c ∈ beforeSep ';' tail, isSpace c = true

namespace LoadLine

variable (l : LoadLine)

/-- The text with one `load` line. -/
def text : Str :=
  l.indent ++ ("load".toList ++ (l.gap ++ (l.register ++ ((',' :: l.gap') ++ (l.literal ++ l.tail)))))

theorem isSpecial_of_isSpace {c : Char} (h : isSpace c = true) : isSpecial c = true := by
  unfold isSpecial isSeparator
  rw [h]
  rfl

theorem separators {g : Str} (h : ∀ c ∈ g, isSpace c = true) : ∀ c ∈ g, isSeparator c = true := by
  intro c hc
  unfold isSeparator
  rw [h c hc]
  rfl

/-- The tail has no tokens. -/
theorem tokenise_tail : tokenise_line l.tail = [] := by
  unfold tokenise_line replaceChar
  have hspace : splitWords (((beforeSep ';' l.tail).map fun c => if c = ',' then ' ' else c) ++ [])
      = [] := by
    refine splitWords_space fun c hc => ?_
    obtain ⟨d, hd, rfl⟩ := List.mem_map.1 hc
    exact isSpace_of_isSeparator (separators l.tail_space d hd)
  rw [List.append_nil] at hspace
  exact hspace

/-- A token stops at the tail. -/
theorem stops_tail : Stops l.tail := by
  cases htail : l.tail with
  | nil => exact Or.inl rfl
  | cons c cs =>
      refine Or.inr ⟨c, cs, rfl, ?_⟩
      by_cases hc : c = ';'
      · rw [hc]
        decide
      · have hbefore : beforeSep ';' l.tail = c :: beforeSep ';' cs := by
          rw [htail]
          exact beforeSep_append (w := [c]) fun d hd => by rw [List.mem_singleton.1 hd]; exact hc
        exact isSpecial_of_isSpace (l.tail_space c (by rw [hbefore]; exact List.mem_cons_self))

/-- **The line's tokens**: the mnemonic, the register and what the literal is
cut into. -/
theorem tokenise_text :
    tokenise_line l.text = "load".toList :: l.register :: tokenise_line (l.literal ++ l.tail) := by
  unfold text
  rw [tokenise_separators (separators l.indent_space)]
  have hgap : Stops (l.gap ++ (l.register ++ ((',' :: l.gap') ++ (l.literal ++ l.tail)))) := by
    obtain ⟨hne, hspace⟩ := l.gap_space
    obtain ⟨c, cs, hcons⟩ := List.exists_cons_of_ne_nil hne
    rw [hcons]
    exact Or.inr ⟨c, _, rfl, isSpecial_of_isSpace (hspace c (by rw [hcons]; exact List.mem_cons_self))⟩
  have hcomma : Stops ((',' :: l.gap') ++ (l.literal ++ l.tail)) :=
    Or.inr ⟨',', _, rfl, by decide⟩
  rw [tokenise_word (by decide) (plain_of_all (by decide)) hgap,
    tokenise_separators (separators l.gap_space.2),
    tokenise_word l.register_word.1 l.register_word.2 hcomma,
    tokenise_separators (List.forall_mem_cons.2 ⟨by decide, separators l.gap'_space⟩)]

/-- A literal without special characters is one token. -/
theorem tokenise_literal (hne : l.literal ≠ []) (h : ∀ c ∈ l.literal, isSpecial c = false) :
    tokenise_line (l.literal ++ l.tail) = [l.literal] := by
  rw [tokenise_word hne h l.stops_tail, l.tokenise_tail]

end LoadLine

section Line

variable {py : Python} {l : LoadLine} {v : Literal} {tok : Str} {w : Nat}

/-- Only a quoted text has special characters, and only between its quotes. -/
theorem Literal.Spelled.special {lit : Str} (hv : v.Spelled py lit)
    (hlit : ¬ ∀ c ∈ lit, isSpecial c = false) :
    ∃ s q, v = .chars s ∧ (q = '"' ∨ q = '\'') ∧ lit = q :: s ++ [q] ∧
      ∃ s₁ c s₂, s = s₁ ++ c :: s₂ ∧ isSpecial c = true ∧ ∀ d ∈ q :: s₁, isSpecial d = false := by
  cases v with
  | int n => exact absurd (fun c hc => (integerOf_plain hv c hc).1) hlit
  | bool b =>
      have hword : lit = if b then "true".toList else "false".toList := hv
      rw [hword] at hlit
      cases b with
      | true => exact absurd (plain_of_all (by decide)) hlit
      | false => exact absurd (plain_of_all (by decide)) hlit
  | null =>
      have hword : lit = "null".toList := hv
      rw [hword] at hlit
      exact absurd (plain_of_all (by decide)) hlit
  | double bits => exact absurd hv.2.1 hlit
  | chars s =>
      obtain ⟨q, hq, rfl⟩ := hv
      have hquote : isSpecial q = false := by
        rcases hq with rfl | rfl
        · decide
        · decide
      refine ⟨s, q, rfl, hq, rfl, ?_⟩
      -- the first special character of the text between the quotes
      cases hfind : s.find? isSpecial with
      | none =>
          refine absurd ?_ hlit
          intro c hc
          rcases List.mem_append.1 hc with hc | hc
          · rcases List.mem_cons.1 hc with rfl | hc
            · exact hquote
            · exact Bool.eq_false_iff.2 (List.find?_eq_none.1 hfind c hc)
          · rw [List.mem_singleton.1 hc]
            exact hquote
      | some c =>
          obtain ⟨hc, s₁, s₂, rfl, hplain⟩ := List.find?_eq_some_iff_append.1 hfind
          refine ⟨s₁, c, s₂, rfl, hc, List.forall_mem_cons.2 ⟨hquote, fun d hd => ?_⟩⟩
          have hnot := hplain d hd
          rw [Bool.not_eq_true'] at hnot
          exact hnot

/-- A literal is not empty. -/
theorem Literal.Spelled.ne_nil {lit : Str} (hv : v.Spelled py lit) : lit ≠ [] := by
  cases v with
  | int n => exact integerOf_ne_nil hv
  | bool b =>
      have hword : lit = if b then "true".toList else "false".toList := hv
      rw [hword]
      cases b with
      | true => decide
      | false => decide
  | null =>
      have hword : lit = "null".toList := hv
      rw [hword]
      decide
  | double bits => exact hv.1
  | chars s =>
      obtain ⟨q, -, rfl⟩ := hv
      exact List.cons_ne_nil _ _

/-- The word encoded for a line holds the literal if and only if it is plain. -/
theorem held_iff_of_line (hv : v.Spelled py l.literal)
    (htok : (tokenise_line (l.literal ++ l.tail))[0]? = some tok)
    (h : encode_value py tok = .ok w) :
    v.Held (BitVec.ofNat 64 w) ↔ v.Plain py l.literal := by
  by_cases hlit : ∀ c ∈ l.literal, isSpecial c = false
  · rw [l.tokenise_literal hv.ne_nil hlit] at htok
    injection htok with htok
    subst htok
    exact held_iff_plain hv hlit h
  · obtain ⟨s, q, rfl, hq, hquoted, s₁, c, s₂, rfl, hc, hplain⟩ := hv.special hlit
    -- the token ends in front of the special character
    have hcut : l.literal ++ l.tail = (q :: s₁) ++ (c :: (s₂ ++ [q] ++ l.tail)) := by
      rw [hquoted]
      simp only [List.cons_append, List.append_assoc]
    rw [hcut, tokenise_word (List.cons_ne_nil _ _) hplain (Or.inr ⟨c, _, rfl, hc⟩)] at htok
    injection htok with htok
    subst htok
    refine iff_of_false (not_held_of_cut hq hc h) fun hall => ?_
    -- the text holds that character, so it is not plain
    have hfalse := hall c (List.mem_append_right _ List.mem_cons_self)
    rw [hc] at hfalse
    exact absurd hfalse (by decide)

/-- What a `load` line says. -/
theorem readLine_load {register : Str} {rest : List Str} {r : Nat} {s : SourceInstr}
    (hread : readLine py ("load".toList :: register :: rest) = some s)
    (hreg : parse_reg py register = .ok r) :
    ∃ tok w, rest[0]? = some tok ∧ encode_value py tok = .ok w ∧ s = .load r w := by
  have hmnemonic : mnemonicOf py ("load".toList :: register :: rest) = some .opLoad64 := by
    unfold mnemonicOf
    have hlower : py.lower "load".toList = "load".toList :=
      (py.lower_ascii _ (List.all_eq_true.1 (by decide))).trans (by decide +kernel)
    rw [List.headD_cons, hlower]
    decide +kernel
  obtain ⟨op, hop, hread⟩ := readLine_eq_some hread
  rw [hmnemonic] at hop
  injection hop with hop
  subst hop
  -- the register, the token behind it, the word it is encoded as
  obtain ⟨dst, hdst, hread⟩ := except_bind_eq_ok hread
  obtain ⟨tok, htok, hread⟩ := except_bind_eq_ok hread
  obtain ⟨w, henc, hread⟩ := except_bind_eq_ok hread
  injection hread with hread
  have hregister : regAt py ("load".toList :: register :: rest) 1 = parse_reg py register := rfl
  rw [hregister, hreg] at hdst
  injection hdst with hdst
  exact ⟨tok, w, tokAt_eq_ok htok, henc, by rw [← hread, hdst]⟩

end Line

/-! ## §6. In the machine. -/

/-- **A literal survives assembly and loading if and only if it is plain**: an
integer of 48 bits without leading zeros, a finite double, a quoted text
without whitespace, comma and semicolon; the two truth values and null always
do. -/
theorem literal_survives_iff {py : Python} {text : Str} {file : Image}
    (h : assemble py text = .ok file.bytes) {l : LoadLine} {k r : Nat} {v : Literal}
    (hk : (instrLines py text)[k]? = some (tokenise_line l.text))
    (hreg : parse_reg py l.register = .ok r) (hv : v.Spelled py l.literal) :
    (∀ vm : VM, vm.bytecode = file → vm.ip.toNat = lineOffset py text file.bytes k →
      ∃ vm', iterate vm = .ok () vm' ∧ v.Held (vm'.reg (BitVec.ofNat 8 r))) ↔
      v.Plain py l.literal := by
  obtain ⟨functions, codes, himage⟩ := assemble_image h
  obtain ⟨s, base, f, hread, hchecked, -, before, after, hbytes, hbefore⟩ := himage.line hk
  rw [l.tokenise_text] at hread
  obtain ⟨tok, w, htok, henc, rfl⟩ := readLine_load hread hreg
  rw [← held_iff_of_line hv htok henc]
  rw [SourceInstr.bytes_eq (s := .load r w) (address base f) hchecked trivial] at hbytes
  -- the machine at the line loads the encoded word
  have hrun : ∀ vm : VM, vm.bytecode = file → vm.ip.toNat = lineOffset py text file.bytes k →
      ∃ vm', iterate vm = .ok () vm' ∧ vm'.reg (BitVec.ofNat 8 r) = BitVec.ofNat 64 w := by
    intro vm hfile hip
    have hinstr := instrAt_bytes before after
      (SourceInstr.fits_instr (s := .load r w) (address base f) hchecked)
    rw [← hbytes, hbefore, ← hip, ← hfile] at hinstr
    exact ⟨_, iterate_load hinstr rfl rfl, VM.setReg_self _ _ _⟩
  constructor
  · intro hall
    -- a file is smaller than the address space, so the line's offset is a program counter
    have hsmall : lineOffset py text file.bytes k < 2 ^ 64 := by
      have hlen := congrArg List.length hbytes
      rw [List.length_append, List.length_append] at hlen
      have := file.addressable
      omega
    have hip : (BitVec.ofNat 64 (lineOffset py text file.bytes k)).toNat
        = lineOffset py text file.bytes k := by
      rw [BitVec.toNat_ofNat, Nat.mod_eq_of_lt hsmall]
    let vm : VM := { VM.zeroed file Allocator.ascending Fpu.quiet with
      ip := BitVec.ofNat 64 (lineOffset py text file.bytes k) }
    obtain ⟨vm', hiterate, hheld⟩ := hall vm rfl hip
    obtain ⟨vm'', hiterate', hreg'⟩ := hrun vm rfl hip
    rw [hiterate] at hiterate'
    injection hiterate' with _ hvm
    rw [hvm, hreg'] at hheld
    exact hheld
  · intro hheld vm hfile hip
    obtain ⟨vm', hiterate, hreg'⟩ := hrun vm hfile hip
    exact ⟨vm', hiterate, by rw [hreg']; exact hheld⟩

/-- The line `load r1, <literal>`. -/
def loadLine (literal : String) : LoadLine where
  indent := []
  gap := [' ']
  register := "r1".toList
  gap' := [' ']
  literal := literal.toList
  tail := ['\n']
  indent_space := by simp
  gap_space := ⟨by decide, List.all_eq_true.1 (by decide)⟩
  register_word := ⟨by decide, plain_of_all (by decide)⟩
  gap'_space := List.all_eq_true.1 (by decide)
  tail_space := fun c hc => by rw [List.mem_singleton.1 hc]; decide

/-- A text with that line only. -/
def loadText (literal : String) : Str :=
  ".func main\n".toList ++ (loadLine literal).text ++ ".endfunc\n".toList

/-- Both sides hold of `-5`. -/
theorem literal_survives_iff_five :
    (∀ vm : VM, vm.bytecode = ⟨imageOf (loadText "-5"), by decide +kernel⟩ →
      vm.ip.toNat = lineOffset Python.ascii (loadText "-5") (imageOf (loadText "-5")) 0 →
      ∃ vm', iterate vm = .ok () vm' ∧ (Literal.int (-5)).Held (vm'.reg (BitVec.ofNat 8 1))) ↔
      (Literal.int (-5)).Plain Python.ascii (loadLine "-5").literal := by
  have hassemble : assemble Python.ascii (loadText "-5") = .ok (imageOf (loadText "-5")) := by rfl
  have hspelled : (Literal.int (-5)).Spelled Python.ascii (loadLine "-5").literal := by
    unfold Literal.Spelled
    decide +kernel
  exact literal_survives_iff hassemble (l := loadLine "-5") (by decide +kernel) (by rfl) hspelled

/-- The machine at the line. -/
def atLine (literal : String) (file : Image) : VM :=
  { VM.zeroed file Allocator.ascending Fpu.quiet with
    ip := BitVec.ofNat 64 (lineOffset Python.ascii (loadText literal) file.bytes 0) }

/-- **Two literals that are accepted and changed**: `2^47` becomes `-2^47`,
and the quoted blank becomes an empty text, since the line is cut at the
blank and a lone quote counts as a quoted text. -/
theorem literals_change :
    assemble Python.ascii (loadText "140737488355328")
      = .ok (imageOf (loadText "140737488355328")) ∧
    Python.ascii.int0 "140737488355328".toList = some (2 ^ 47) ∧
    decodeInt ((finalState (iterate (atLine "140737488355328"
      ⟨imageOf (loadText "140737488355328"), by decide +kernel⟩))).reg 1) = -2 ^ 47 ∧
    assemble Python.ascii (loadText "\" \"") = .ok (imageOf (loadText "\" \"")) ∧
    decodeChar6 ((finalState (iterate (atLine "\" \""
      ⟨imageOf (loadText "\" \""), by decide +kernel⟩))).reg 1) = ⟨0, 0, 0, 0, 0, 0⟩ ∧
    charsOf " ".toList = ⟨32, 0, 0, 0, 0, 0⟩ := by
  refine ⟨by rfl, by decide +kernel, by decide +kernel, by rfl, by decide +kernel, by decide +kernel⟩

end SproutLang.Assembler
