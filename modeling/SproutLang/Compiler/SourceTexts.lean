/-
  SproutLang.Compiler.SourceTexts
  ───────────────────────────────
  **TEXTS AND THE TOKENS THEY SPELL.**

  `Spells s ts` says, without the lexer, how a text spells tokens: white space
  and comments, then the longest lexeme that stands there, and so on to the
  end.  It decides nothing but what a lexeme is; which of two lexemes is meant
  follows from their lengths.

    • `tokenize_eq_ok_iff` — the lexer returns the tokens that a text spells,
                             and no others,
    • `Spells.append`      — texts with a blank between them spell the tokens
                             of the one and then those of the other.
-/
import SproutLang.Compiler.Lexemes
import Mathlib.Data.List.Infix

namespace SproutLang.Compiler.Lexer

open Library

/-! ## §1. Gaps. -/

/-- **White space and comments**; a comment goes on to its newline. -/
inductive Gap : List Char → Prop where
  | nil : Gap []
  | space {c : Char} {g : List Char} (space : isSpace c = true) (more : Gap g) : Gap (c :: g)
  | comment {w g : List Char} (text : ∀ d ∈ w, (d ≠ '\n' && d ≠ '\x00') = true)
      (newline : g.head? = some '\n') (more : Gap g) : Gap ('/' :: '/' :: w ++ g)

/-- What may stand behind the last token: the last comment may end with the
text. -/
def LastGap (s : List Char) : Prop :=
  Gap s ∨ ∃ g w, s = g ++ '/' :: '/' :: w ∧ Gap g ∧ ∀ d ∈ w, (d ≠ '\n' && d ≠ '\x00') = true

section Gaps

variable {g s rest : List Char}

/-- Two gaps make a gap. -/
theorem Gap.append {g' : List Char} (h : Gap g) (h' : Gap g') : Gap (g ++ g') := by
  induction h with
  | nil => exact h'
  | space hspace _ ih => exact .space hspace ih
  | @comment w g htext hnewline _ ih =>
      rw [List.append_assoc]
      refine .comment htext ?_ ih
      rw [List.head?_append, hnewline]
      rfl

/-- A comment is skipped up to its newline. -/
theorem skipWhiteSpace_comment {w : List Char}
    (hw : ∀ d ∈ w, (d ≠ '\n' && d ≠ '\x00') = true) :
    skipWhiteSpace ('/' :: '/' :: w ++ rest) = skipWhiteSpace
      (rest.dropWhile fun c => c ≠ '\n' && c ≠ '\x00') := by
  have hdrop : ('/' :: '/' :: w ++ rest).dropWhile isSpace = '/' :: '/' :: w ++ rest := rfl
  have hat : atComment ('/' :: '/' :: w ++ rest) = true := rfl
  have hskip : skipComment ('/' :: '/' :: w ++ rest)
      = rest.dropWhile fun c => c ≠ '\n' && c ≠ '\x00' := by
    show (w ++ rest).dropWhile _ = _
    exact List.dropWhile_append_of_pos hw
  rw [skipWhiteSpace_eq, hdrop, if_pos hat, hskip]

/-- A gap is skipped. -/
theorem Gap.skipped (h : Gap g) : skipWhiteSpace (g ++ rest) = skipWhiteSpace rest := by
  induction h with
  | nil => rfl
  | space hspace _ ih =>
      rw [List.cons_append, skipWhiteSpace_space hspace]
      exact ih
  | @comment w g htext hnewline _ ih =>
      obtain ⟨t, rfl⟩ : ∃ t, g = '\n' :: t := List.head?_eq_some_iff.1 hnewline
      rw [List.append_assoc, skipWhiteSpace_comment htext]
      exact ih

/-- Behind the last token everything is skipped. -/
theorem LastGap.skipped (h : LastGap s) : skipWhiteSpace s = [] := by
  rcases h with hgap | ⟨g, w, rfl, hgap, hw⟩
  · have hskip : skipWhiteSpace (s ++ []) = skipWhiteSpace [] := hgap.skipped
    rw [List.append_nil] at hskip
    rw [hskip, skipWhiteSpace_nil]
  · have hcomment : skipWhiteSpace ('/' :: '/' :: w ++ []) = skipWhiteSpace [] :=
      skipWhiteSpace_comment hw
    rw [List.append_nil] at hcomment
    rw [hgap.skipped, hcomment]
    exact skipWhiteSpace_nil

/-- A run of white space is a gap. -/
theorem gap_takeWhile (s : List Char) : Gap (s.takeWhile isSpace) := by
  induction s with
  | nil => exact .nil
  | cons c s ih =>
      rw [List.takeWhile_cons]
      split
      · rename_i hspace
        exact .space hspace ih
      · exact .nil

/-- **What is skipped is a gap**: in front of a token one that ends there, and
otherwise all that is left. -/
theorem exists_gap (s : Source) (hnul : '\x00' ∉ s) :
    (skipWhiteSpace s = [] ∧ LastGap s) ∨ ∃ g, Gap g ∧ s = g ++ skipWhiteSpace s := by
  -- on the comments that are skipped
  induction s using skipWhiteSpace.induct with
  | case1 s text hcomment ih =>
      have hsplit : s = s.takeWhile isSpace ++ text := List.takeWhile_append_dropWhile.symm
      have htext : '\x00' ∉ text := fun h => hnul ((List.dropWhile_suffix _).subset h)
      have hrest : '\x00' ∉ skipComment text := fun h => htext ((List.dropWhile_suffix _).subset h)
      obtain ⟨body, hbody⟩ := atComment_iff.1 hcomment
      let keep : Char → Bool := fun c => c ≠ '\n' && c ≠ '\x00'
      have hskip : skipComment text = body.dropWhile keep := by
        rw [hbody]
        rfl
      have hw : ∀ d ∈ body.takeWhile keep, keep d = true := List.all_eq_true.1 List.all_takeWhile
      have hparts : text = '/' :: '/' :: body.takeWhile keep ++ skipComment text := by
        rw [hskip, hbody]
        simp
      have hsame : skipWhiteSpace s = skipWhiteSpace (skipComment text) := by
        rw [skipWhiteSpace_eq, if_pos hcomment]
      rw [hsame]
      -- behind the comment there is a newline or the end
      cases hafter : skipComment text with
      | nil =>
          refine Or.inl ⟨skipWhiteSpace_nil, Or.inr ⟨s.takeWhile isSpace, body.takeWhile keep, ?_,
            gap_takeWhile s, hw⟩⟩
          rw [hafter, List.append_nil] at hparts
          rw [← hparts]
          exact hsplit
      | cons c more =>
          have hstop := head_dropWhile (p := keep) body c (by rw [← hskip, hafter]; rfl)
          have hc : c = '\n' := by
            by_contra hne
            have hcnul : c ≠ '\x00' := fun heq => hrest (by rw [hafter, heq]; exact List.mem_cons_self)
            have hkeep : keep c = true := by
              show (decide (c ≠ '\n') && decide (c ≠ '\x00')) = true
              rw [decide_eq_true hne, decide_eq_true hcnul]
              rfl
            rw [hkeep] at hstop
            cases hstop
          subst hc
          rw [hafter] at ih hparts hrest
          have hfront : ∀ t, Gap ('\n' :: t) →
              Gap (s.takeWhile isSpace ++ ('/' :: '/' :: body.takeWhile keep ++ '\n' :: t)) :=
            fun t ht => (gap_takeWhile s).append (.comment hw rfl ht)
          have hwhole : s = s.takeWhile isSpace
              ++ ('/' :: '/' :: body.takeWhile keep ++ '\n' :: more) := by
            rw [← hparts]
            exact hsplit
          rcases ih hrest with ⟨hend, hlast⟩ | ⟨g, hgap, hg⟩
          · refine Or.inl ⟨hend, ?_⟩
            rw [hwhole]
            rcases hlast with hgap | ⟨g, w, hg, hgap, htext⟩
            · exact Or.inl (hfront more hgap)
            · cases g with
              | nil => cases hg
              | cons d g =>
                  rw [List.cons_append, List.cons.injEq] at hg
                  obtain ⟨rfl, rfl⟩ := hg
                  exact Or.inr ⟨_, w, by simp, hfront g hgap, htext⟩
          · cases g with
            | nil =>
                -- the newline is skipped
                have hlen := (skipWhiteSpace_suffix more).length_le
                have hnewline : skipWhiteSpace ('\n' :: more) = skipWhiteSpace more :=
                  skipWhiteSpace_space (by decide)
                rw [List.nil_append, hnewline] at hg
                rw [← hg, List.length_cons] at hlen
                omega
            | cons d g =>
                rw [List.cons_append, List.cons.injEq] at hg
                obtain ⟨rfl, hmore⟩ := hg
                have hend : '\n' :: g ++ skipWhiteSpace ('\n' :: more) = '\n' :: more := by
                  rw [List.cons_append, ← hmore]
                refine Or.inr ⟨_, hfront g hgap, ?_⟩
                rw [List.append_assoc, List.append_assoc, hend]
                exact hwhole
  | case2 s text hcomment =>
      have hsplit : s = s.takeWhile isSpace ++ text := List.takeWhile_append_dropWhile.symm
      have hsame : skipWhiteSpace s = text := by
        rw [skipWhiteSpace_eq, if_neg hcomment]
      rw [hsame]
      exact Or.inr ⟨_, gap_takeWhile s, hsplit⟩

end Gaps

/-! ## §2. The longest lexeme. -/

/-- Any text of a token. -/
def IsLexeme (w : List Char) : Prop := ∃ type, Lexeme type w

section Munch

variable {s rest : Source} {type type' : TokenType} {w v : List Char}

/-- The text of a token determines its type. -/
theorem Lexeme.type_unique (h : Lexeme type w) (h' : Lexeme type' w) : type = type' := by
  have hend : Blank [] := Or.inl rfl
  have hsame := (h.again hend).symm.trans (h'.again hend)
  simp only [Except.ok.injEq, Prod.mk.injEq] at hsame
  exact congrArg Token.type hsame.1

/-- A token that is cut off has the text of its word. -/
theorem text_eq_of_cut {t : Token} {r r' : Source}
    (h : (.ok (t, r) : Except Fault (Token × Source)) = .ok (makeToken type w, r')) :
    t.content.toList = w := by
  simp only [Except.ok.injEq, Prod.mk.injEq] at h
  rw [h.1]
  exact content_makeToken type w

/-- A number takes all digits in front. -/
theorem takeWhile_le_lexNumber (s : Source) :
    (s.takeWhile Char.isDigit).length ≤ (lexNumber s).1.content.toList.length := by
  unfold lexNumber
  dsimp only
  split
  · rw [content_makeToken, List.length_append]
    exact Nat.le_add_right _ _
  · rw [content_makeToken]

/-- **Nothing longer is cut**: what the lexer cuts is no shorter than any
lexeme that stands there. -/
theorem Lexeme.length_le_cut (h : Lexeme type' v) (hskip : skipWhiteSpace s = v ++ rest)
    {r : Source} (hcut : nextToken s = .ok (makeToken type w, r)) (hw : w ≠ []) :
    v.length ≤ w.length := by
  cases h with
  | @word c v first more =>
      rw [nextToken_word hskip first] at hcut
      have htext := text_eq_of_cut hcut
      rw [content_makeToken] at htext
      rw [← htext]
      exact length_le_takeWhile (w := c :: v)
        (List.forall_mem_cons.2 ⟨alphanum_of_alpha first, more⟩)
  | @number c v first more =>
      rw [nextToken_number hskip first] at hcut
      rw [← text_eq_of_cut hcut]
      exact (length_le_takeWhile (w := c :: v) (List.forall_mem_cons.2 ⟨first, more⟩)).trans
        (takeWhile_le_lexNumber _)
  | @fraction c d v f first more behind after =>
      have hdigits : ∀ e ∈ c :: v, e.isDigit = true := List.forall_mem_cons.2 ⟨first, more⟩
      have hmore : ∀ e ∈ (f ++ rest).takeWhile Char.isDigit, e.isDigit = true :=
        List.all_eq_true.1 List.all_takeWhile
      -- the digits behind the point go on as far as they can
      have hsplit : c :: v ++ '.' :: d :: f ++ rest = c :: v ++ '.' :: d
          :: (f ++ rest).takeWhile Char.isDigit ++ (f ++ rest).dropWhile Char.isDigit := by
        simp only [List.append_assoc, List.cons_append, List.takeWhile_append_dropWhile]
      have hnumber := lexNumber_fraction hdigits behind hmore (head_dropWhile (f ++ rest))
      rw [← hsplit] at hnumber
      have hcut : Except.ok (lexNumber (c :: v ++ '.' :: d :: f ++ rest))
          = Except.ok (makeToken type w, r) := (nextToken_number hskip first).symm.trans hcut
      rw [hnumber] at hcut
      have htext := text_eq_of_cut hcut
      rw [content_makeToken] at htext
      rw [← htext]
      have hlength : f.length ≤ ((f ++ rest).takeWhile Char.isDigit).length :=
        length_le_takeWhile after
      simp only [List.length_append, List.length_cons]
      omega
  | @two c second two one row =>
      have hcut := (nextToken_compound (r := second :: rest) hskip row).symm.trans hcut
      have hpeek : peek (second :: rest) = second := rfl
      unfold lexCompound at hcut
      rw [if_pos hpeek] at hcut
      have htext := text_eq_of_cut hcut
      rw [content_makeToken] at htext
      rw [← htext]
  | one | symbol =>
      have hpos := List.length_pos_of_ne_nil hw
      rw [List.length_singleton]
      exact hpos

/-- **What is cut is the longest lexeme**, and no beginning of a comment. -/
theorem Plain.longest {t : Token} {r : Source} (h : Plain s) (hcut : Cuts s t r) :
    ∃ type w, Lexeme type w ∧ t = makeToken type w ∧ skipWhiteSpace s = w ++ r ∧
      (w = ['/'] → r.head? ≠ some '/') ∧ Longest IsLexeme w (w ++ r) := by
  obtain ⟨type, w, hlex, rfl, hskip, hslash⟩ := h.cut hcut
  refine ⟨type, w, hlex, rfl, hskip, hslash, ⟨type, hlex⟩, List.prefix_append w r, ?_⟩
  intro v hv hfront
  obtain ⟨type', hv⟩ := hv
  obtain ⟨rest, hrest⟩ := hfront
  exact hv.length_le_cut (hskip.trans hrest.symm) hcut.1 hlex.ne_nil

/-- A lexeme that begins no comment is not skipped. -/
theorem Lexeme.skipWhiteSpace_append (h : Lexeme type w)
    (hslash : w = ['/'] → rest.head? ≠ some '/') : skipWhiteSpace (w ++ rest) = w ++ rest := by
  rcases h.chars with rfl | hw
  · exact skipWhiteSpace_solid ⟨by decide, fun _ => hslash rfl⟩
  · cases w with
    | nil => exact absurd rfl h.ne_nil
    | cons c w =>
        have hc := hw c List.mem_cons_self
        exact skipWhiteSpace_solid (solid_of_ne hc.1 hc.2)

/-- **The longest lexeme is cut.** -/
theorem Plain.cuts {g : List Char} (h : Plain (g ++ (w ++ rest))) (hgap : Gap g)
    (hlex : Lexeme type w) (hslash : w = ['/'] → rest.head? ≠ some '/')
    (hlongest : Longest IsLexeme w (w ++ rest)) :
    Cuts (g ++ (w ++ rest)) (makeToken type w) rest := by
  have hskip : skipWhiteSpace (g ++ (w ++ rest)) = w ++ rest :=
    hgap.skipped.trans (hlex.skipWhiteSpace_append hslash)
  rcases h.progress with ⟨t, r, hnext, hend⟩ | ⟨t, r, hcut, -, -⟩
  · -- there is a lexeme, so the text has not ended
    rcases nextToken_lexeme h.1 h.2 with hnil | ⟨_, _, _, hlex', -, -, hnext'⟩
    · rw [hskip, List.append_eq_nil_iff] at hnil
      exact absurd hnil.1 hlex.ne_nil
    · rw [hnext] at hnext'
      cases hnext'
      exact absurd hend hlex'.type_ne
  · obtain ⟨type', w', hlex', rfl, hskip', -, hlongest'⟩ := h.longest hcut
    rw [hskip] at hskip'
    rw [← hskip'] at hlongest'
    obtain rfl := hlongest.unique hlongest'
    obtain rfl := hlex.type_unique hlex'
    obtain rfl := List.append_cancel_left hskip'
    exact hcut

end Munch

/-! ## §3. Whole texts. -/

/-- **The tokens a text spells.** -/
inductive Spells : List Char → List Token → Prop where
  | done {s : List Char} (last : LastGap s) : Spells s []
  | token {g w rest : List Char} {type : TokenType} {ts : List Token} (gap : Gap g)
      (lexeme : Lexeme type w) (noComment : w = ['/'] → rest.head? ≠ some '/')
      (longest : Longest IsLexeme w (w ++ rest)) (more : Spells rest ts) :
      Spells (g ++ (w ++ rest)) (makeToken type w :: ts)

section Texts

variable {s code : Source} {ts us : List Token}

/-- What a text spells the lexer runs through. -/
theorem Spells.lexes (h : Spells s ts) (hplain : Plain s) : Lexes Cuts Stops s ts := by
  induction h with
  | done last => exact .nil ⟨_, _, nextToken_end last.skipped, rfl⟩
  | @token g w rest type ts hgap hlex hslash hlongest _ ih =>
      have hsuffix : rest <:+ g ++ (w ++ rest) :=
        (List.suffix_append w rest).trans (List.suffix_append g _)
      exact .cons (hplain.cuts hgap hlex hslash hlongest) (ih (hplain.suffix hsuffix))

/-- What the lexer runs through the text spells. -/
theorem spells_of_lexes (h : Lexes Cuts Stops s ts) (hplain : Plain s) : Spells s ts := by
  induction h with
  | @nil s hstop =>
      rcases exists_gap s hplain.1 with ⟨-, hlast⟩ | ⟨g, hgap, hg⟩
      · exact .done hlast
      · -- the lexer stops where nothing is left to cut
        rcases nextToken_lexeme hplain.1 hplain.2 with hnil | ⟨_, _, _, hlex, -, -, hnext⟩
        · rw [hnil, List.append_nil] at hg
          exact .done (Or.inl (hg ▸ hgap))
        · obtain ⟨t, r, hnext', hend⟩ := hstop
          rw [hnext] at hnext'
          cases hnext'
          exact absurd hend hlex.type_ne
  | @cons s rest t ts first _ ih =>
      obtain ⟨type, w, hlex, rfl, hskip, hslash, hlongest⟩ := hplain.longest first
      have hmore := ih (hplain.rest first)
      rcases exists_gap s hplain.1 with ⟨hnil, -⟩ | ⟨g, hgap, hg⟩
      · rw [hskip, List.append_eq_nil_iff] at hnil
        exact absurd hnil.1 hlex.ne_nil
      · rw [hskip] at hg
        rw [hg]
        exact .token hgap hlex hslash hlongest hmore

/-- What is spelled is lexed. -/
theorem tokenize_of_spells (h : Spells code ts) (hplain : Plain code) :
    Lexer.tokenize code = .ok ts :=
  tokenizeLoop_eq_ok (h.lexes hplain) _ (Nat.lt_succ_self _)

/-- What is lexed is spelled. -/
theorem spells_of_tokenize (h : Lexer.tokenize code = .ok ts) (hplain : Plain code) :
    Spells code ts := by
  obtain ⟨ts', hlexes, hrun⟩ := hplain.tokenize
  rw [h] at hrun
  obtain rfl := Except.ok.inj hrun
  exact spells_of_lexes hlexes hplain

/-- **The lexer returns the tokens that a text spells.** -/
theorem tokenize_eq_ok_iff (hplain : Plain code) :
    Lexer.tokenize code = .ok ts ↔ Spells code ts :=
  ⟨fun h => spells_of_tokenize h hplain, fun h => tokenize_of_spells h hplain⟩

/-- `a--> 1.5.x // b`, where one minus is left over, and a point. -/
theorem tokenize_eq_ok_iff_arrow : Spells "a--> 1.5.x // b".toList
    [⟨.IDENT, "a"⟩, ⟨.MINUS, "-"⟩, ⟨.ARR_RIGHT, "->"⟩, ⟨.NUMBER, "1.5"⟩, ⟨.UNKNOWN, "."⟩,
      ⟨.IDENT, "x"⟩] :=
  (tokenize_eq_ok_iff ⟨by decide, by decide⟩).1 (by decide +kernel)

end Texts

/-! ## §4. Texts with a blank between them. -/

/-- Behind every `//` there is a newline. -/
def Closed (s : List Char) : Prop := ∀ t ∈ s.tails, atComment t = true → '\n' ∈ t

instance (s : List Char) : Decidable (Closed s) :=
  inferInstanceAs (Decidable (∀ t ∈ s.tails, _))

section Append

variable {g s t rest : List Char} {ts us : List Token} {type : TokenType} {w : List Char}

/-- A text is closed if every comment ends in it. -/
theorem closed_iff : Closed s ↔ ∀ g w, s = g ++ '/' :: '/' :: w → '\n' ∈ w := by
  have hnewline : ∀ w : List Char, '\n' ∈ '/' :: '/' :: w ↔ '\n' ∈ w := fun w => by simp
  constructor
  · intro h g w hs
    refine (hnewline w).1 (h _ ?_ (atComment_iff.2 ⟨w, rfl⟩))
    rw [List.mem_tails, hs]
    exact List.suffix_append g _
  · intro h t ht hcomment
    obtain ⟨w, rfl⟩ := atComment_iff.1 hcomment
    obtain ⟨g, hg⟩ := (List.mem_tails _ _).1 ht
    exact (hnewline w).2 (h g w hg.symm)

/-- The end of a closed text is closed. -/
theorem Closed.of_append (h : Closed (g ++ rest)) : Closed rest := by
  rw [closed_iff] at h ⊢
  intro g' w hw
  refine h (g ++ g') w ?_
  rw [hw, List.append_assoc]

/-- A blank is no part of a comment that could go on. -/
theorem Closed.append (h : Closed s) (h' : Closed t) : Closed (s ++ ' ' :: t) := by
  rw [closed_iff] at h h' ⊢
  intro g w hw
  rcases List.append_eq_append_iff.1 hw with ⟨b, hg, hrest⟩ | ⟨b, hs, hrest⟩
  · cases b with
    | nil =>
        rw [List.nil_append, List.cons.injEq] at hrest
        exact absurd hrest.1 (by decide)
    | cons c b =>
        rw [List.cons_append, List.cons.injEq] at hrest
        exact h' b w hrest.2
  · -- the comment begins in the first text
    match b, hrest with
    | [], hrest =>
        rw [List.nil_append, List.cons.injEq] at hrest
        exact absurd hrest.1 (by decide)
    | [c], hrest =>
        rw [List.singleton_append, List.cons.injEq, List.cons.injEq] at hrest
        exact absurd hrest.2.1 (by decide)
    | c :: d :: b, hrest =>
        rw [List.cons_append, List.cons_append, List.cons.injEq, List.cons.injEq] at hrest
        obtain ⟨rfl, rfl, rfl⟩ := hrest
        exact List.mem_append_left _ (h g b hs)

/-- An empty text spells no token. -/
theorem Spells.eq_nil (h : Spells s ts) (hs : s = []) : ts = [] := by
  cases h with
  | done => rfl
  | token _ lexeme =>
      rw [List.append_eq_nil_iff, List.append_eq_nil_iff] at hs
      exact absurd hs.2.1 lexeme.ne_nil

/-- A gap in front changes nothing. -/
theorem Spells.gap (h : Spells t us) (hgap : Gap g) : Spells (g ++ t) us := by
  cases h with
  | done last =>
      refine .done ?_
      rcases last with hlast | ⟨g', w, rfl, hlast, hw⟩
      · exact Or.inl (hgap.append hlast)
      · exact Or.inr ⟨g ++ g', w, (List.append_assoc ..).symm, hgap.append hlast, hw⟩
  | token hgap' lexeme noComment longest more =>
      rw [← List.append_assoc]
      exact .token (hgap.append hgap') lexeme noComment longest more

/-- A lexeme reaches over no blank. -/
theorem longest_blank (h : Longest IsLexeme w (w ++ rest)) :
    Longest IsLexeme w (w ++ (rest ++ ' ' :: t)) := by
  refine ⟨h.mem, List.prefix_append w _, fun v hv hfront => ?_⟩
  have hblank : ' ' ∉ v := by
    obtain ⟨type, hv⟩ := hv
    intro hmem
    rcases hv.chars with rfl | hchars
    · exact absurd hmem (by decide)
    · exact absurd (hchars ' ' hmem).1 (by decide)
  have hwhole : w ++ rest <+: w ++ (rest ++ ' ' :: t) := by
    rw [← List.append_assoc]
    exact List.prefix_append (w ++ rest) _
  rcases List.prefix_or_prefix_of_prefix hfront hwhole with hshort | ⟨b, hb⟩
  · exact h.longest v hv hshort
  · -- one that is longer has the blank
    cases b with
    | nil =>
        rw [List.append_nil] at hb
        exact h.longest v hv (hb ▸ List.prefix_refl v)
    | cons c b =>
        rw [← hb, ← List.append_assoc, List.prefix_append_right_inj] at hfront
        obtain ⟨_, hc⟩ := hfront
        rw [List.cons_append, List.cons.injEq] at hc
        refine absurd ?_ hblank
        rw [← hb, ← hc.1]
        simp

/-- **Texts with a blank between them** spell the tokens of both, if no comment
of the first goes on into the second. -/
theorem Spells.append (h : Spells s ts) (hclosed : Closed s) (h' : Spells t us) :
    Spells (s ++ ' ' :: t) (ts ++ us) := by
  have hblank : Spells (' ' :: t) us := h'.gap (.space (by decide) .nil)
  induction h with
  | done last =>
      rcases last with hgap | ⟨g, w, rfl, -, hw⟩
      · exact hblank.gap hgap
      · -- a comment that has not ended has no newline
        exact absurd (hw '\n' (closed_iff.1 hclosed g w rfl)) (by decide)
  | @token g w rest type ts hgap hlex hslash hlongest _ ih =>
      have hmore := ih (Closed.of_append (g := w) (Closed.of_append hclosed))
      rw [List.append_assoc, List.append_assoc, List.cons_append]
      refine .token hgap hlex (fun hw => ?_) (longest_blank hlongest) hmore
      cases rest with
      | nil => simp
      | cons c rest => exact hslash hw

end Append

end SproutLang.Compiler.Lexer
