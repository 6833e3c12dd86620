/-
  SproutLang.Compiler.Connectives
  ───────────────────────────────
  **`&&` FOR `||`.**

  Neither the lexer nor the parser treats the two operators differently, and
  the dump has the same name for both.  So a text with `&` and `|` exchanged
  is lexed to the exchanged tokens (`tokenize_swap`), these are parsed to the
  exchanged tree (`parseProgram_swap`), and both trees have one dump.

    • `dump_determines_iff` — a tree is determined by its dump if and only if
      it has neither operator.
-/
import SproutLang.Compiler.Dump
import SproutLang.Compiler.Lexemes

namespace SproutLang.Compiler

open Library

/-! ## §1. `&&` for `||`. -/

/-- `&&` for `||` and the other way round. -/
def swapOp : TokenType → TokenType
  | .DOUBLE_AND => .DOUBLE_VBAR
  | .DOUBLE_VBAR => .DOUBLE_AND
  | t => t

/-- `&` for `|` and the other way round. -/
def swapChar (c : Char) : Char := if c = '&' then '|' else if c = '|' then '&' else c

/-- A token of the text with `&` for `|`. -/
def swapToken (t : Token) : Token :=
  if logicalOps t.type ∨ t.type = .UNKNOWN then
    ⟨swapOp t.type, String.ofList (t.content.toList.map swapChar)⟩
  else t

mutual

/-- The tree with the two connectives exchanged. -/
def swapLogical : ASTNode → ASTNode
  | .program program => .program (swapAll program)
  | .block block => .block (swapAll block)
  | .binaryOp op left right => .binaryOp (swapOp op) (swapLogical left) (swapLogical right)
  | .unaryOp op operand => .unaryOp op (swapLogical operand)
  | .varDecl identifier expression => .varDecl identifier (swapLogical expression)
  | .varAssign identifier expression => .varAssign identifier (swapLogical expression)
  | .intLiteral number => .intLiteral number
  | .ident identifier => .ident identifier
  | .funcCall identifier args => .funcCall identifier (swapAll args)
  | .ifStmt expression ifBlock none => .ifStmt (swapLogical expression) (swapLogical ifBlock) none
  | .ifStmt expression ifBlock (some elseBlock) =>
      .ifStmt (swapLogical expression) (swapLogical ifBlock) (some (swapLogical elseBlock))

/-- All trees of a list so. -/
def swapAll : List ASTNode → List ASTNode
  | [] => []
  | child :: rest => swapLogical child :: swapAll rest

end

/-- The dump has one name for the two connectives. -/
theorem tokenTypeName_swapOp (op : TokenType) : tokenTypeName (swapOp op) = tokenTypeName op := by
  cases op <;> rfl

/-- Exchanging twice changes nothing. -/
theorem swapOp_swapOp (op : TokenType) : swapOp (swapOp op) = op := by
  cases op <;> rfl

/-- Only the connectives are exchanged. -/
theorem swapOp_eq_self_iff {op : TokenType} : swapOp op = op ↔ logicalOps op = false := by
  cases op <;> decide

mutual

/-- Both trees have one dump. -/
theorem shape_swapLogical (e : ASTNode) : shape (swapLogical e) = shape e := by
  cases e with
  | program program => rw [swapLogical, shape, shape, shapes_swapAll program]
  | block block => rw [swapLogical, shape, shape, shapes_swapAll block]
  | binaryOp op left right =>
      rw [swapLogical, shape, shape, tokenTypeName_swapOp, shape_swapLogical left,
        shape_swapLogical right]
  | unaryOp op operand => rw [swapLogical, shape, shape, shape_swapLogical operand]
  | varDecl x value => rw [swapLogical, shape, shape, shape_swapLogical value]
  | varAssign x value => rw [swapLogical, shape, shape, shape_swapLogical value]
  | intLiteral n => rw [swapLogical]
  | ident x => rw [swapLogical]
  | funcCall x args => rw [swapLogical, shape, shape, shapes_swapAll args]
  | ifStmt c b els =>
      cases els with
      | none => rw [swapLogical, shape, shape, shape_swapLogical c, shape_swapLogical b]
      | some d =>
          rw [swapLogical, shape, shape, shape_swapLogical c, shape_swapLogical b,
            shape_swapLogical d]

/-- The outlines of all trees are the same. -/
theorem shapes_swapAll (es : List ASTNode) : shapes (swapAll es) = shapes es := by
  cases es with
  | nil => rfl
  | cons e es => rw [swapAll, shapes, shapes, shape_swapLogical e, shapes_swapAll es]

end

/-- **The dump does not tell the two trees apart.** -/
theorem printAST_swapped (e : ASTNode) (indent : Nat) :
    printAST (swapLogical e) indent = printAST e indent := by
  apply String.ext
  rw [printAST_eq, printAST_eq, shape_swapLogical]

mutual

/-- Only a tree without them stays the same. -/
theorem usesLogical_of_swapped (e : ASTNode) (h : swapLogical e = e) : usesLogical e = false := by
  cases e with
  | program program =>
      simp only [swapLogical, ASTNode.program.injEq] at h
      exact anyLogical_of_swapped program h
  | block block =>
      simp only [swapLogical, ASTNode.block.injEq] at h
      exact anyLogical_of_swapped block h
  | binaryOp op left right =>
      simp only [swapLogical, ASTNode.binaryOp.injEq] at h
      simp only [usesLogical, Bool.or_eq_false_iff]
      -- the operator itself is not one of the two
      exact ⟨swapOp_eq_self_iff.1 h.1, usesLogical_of_swapped left h.2.1,
        usesLogical_of_swapped right h.2.2⟩
  | unaryOp op operand =>
      simp only [swapLogical, ASTNode.unaryOp.injEq, true_and] at h
      exact usesLogical_of_swapped operand h
  | varDecl x value =>
      simp only [swapLogical, ASTNode.varDecl.injEq, true_and] at h
      exact usesLogical_of_swapped value h
  | varAssign x value =>
      simp only [swapLogical, ASTNode.varAssign.injEq, true_and] at h
      exact usesLogical_of_swapped value h
  | intLiteral n => rfl
  | ident x => rfl
  | funcCall x args =>
      simp only [swapLogical, ASTNode.funcCall.injEq, true_and] at h
      exact anyLogical_of_swapped args h
  | ifStmt c b els =>
      cases els with
      | none =>
          simp only [swapLogical, ASTNode.ifStmt.injEq, and_true] at h
          simp only [usesLogical, Bool.or_eq_false_iff]
          exact ⟨usesLogical_of_swapped c h.1, usesLogical_of_swapped b h.2⟩
      | some d =>
          simp only [swapLogical, ASTNode.ifStmt.injEq, Option.some.injEq] at h
          simp only [usesLogical, Bool.or_eq_false_iff]
          exact ⟨usesLogical_of_swapped c h.1, usesLogical_of_swapped b h.2.1,
            usesLogical_of_swapped d h.2.2⟩

/-- Trees that stay the same have no connective. -/
theorem anyLogical_of_swapped (es : List ASTNode) (h : swapAll es = es) :
    anyLogical es = false := by
  cases es with
  | nil => rfl
  | cons e es =>
      simp only [swapAll, List.cons.injEq] at h
      simp only [anyLogical, Bool.or_eq_false_iff]
      exact ⟨usesLogical_of_swapped e h.1, anyLogical_of_swapped es h.2⟩

end

/-! ## §2. The parser. -/

section Swap

variable {t : Token} {type : TokenType} {s s' : TokenSource} {e : ASTNode}

/-- An exchanged token has the exchanged type. -/
theorem swapToken_type (t : Token) : (swapToken t).type = swapOp t.type := by
  unfold swapToken
  split
  · rfl
  · rename_i hno
    rw [not_or, Bool.not_eq_true] at hno
    exact (swapOp_eq_self_iff.2 hno.1).symm

/-- Every other token keeps its type, and its text. -/
theorem swapToken_eq (h : t.type = type) (hlogical : logicalOps type = false)
    (hunknown : type ≠ .UNKNOWN) : swapToken t = t := by
  unfold swapToken
  rw [if_neg]
  rw [h, hlogical]
  simpa using hunknown

theorem swapOp_eq_iff {op : TokenType} (hlogical : logicalOps type = false) :
    swapOp op = type ↔ op = type := by
  have hself := swapOp_eq_self_iff.2 hlogical
  constructor
  · intro h
    rw [← swapOp_swapOp op, h, hself]
  · rintro rfl
    exact hself

theorem front_map (s : TokenSource) : front (s.map swapToken) = swapToken (front s) := by
  cases s <;> rfl

/-- The types the parser looks for are found at the same places. -/
theorem front_type_iff (hlogical : logicalOps type = false) :
    (front (s.map swapToken)).type = type ↔ (front s).type = type := by
  rw [front_map, swapToken_type, swapOp_eq_iff hlogical]

/-- An operator keeps its level. -/
theorem opsAt_swapToken (n : Nat) (t : Token) : opsAt n (swapToken t).type = opsAt n t.type := by
  rw [swapToken_type]
  match n with
  | 0 | 1 => rfl
  | 2 | 3 | 4 | 5 => cases t.type <;> rfl
  | n + 6 => rfl

theorem swapAll_append (es es' : List ASTNode) : swapAll (es ++ es') = swapAll es ++ swapAll es' := by
  induction es with
  | nil => rfl
  | cons e es ih =>
      rw [List.cons_append, swapAll, swapAll, ih]
      rfl

/-- The type of a token that is none of the two. -/
theorem swapToken_type_eq (h : t.type = type) (hlogical : logicalOps type = false) :
    (swapToken t).type = type := by
  rw [swapToken_type, swapOp_eq_iff hlogical]
  exact h

/-- The text of an identifier and of a number. -/
theorem swapToken_content (h : t.type = type) (hlogical : logicalOps type = false)
    (hunknown : type ≠ .UNKNOWN) : (swapToken t).content = t.content := by
  rw [swapToken_eq h hlogical hunknown]

/-- A goal whose trees so far are exchanged so. -/
def Goal.swap : Goal → Goal
  | .level n => .level n
  | .loop n left => .loop n (swapLogical left)
  | .args x found => .args x (swapAll found)

/-- **The parser treats the two operators alike.** -/
theorem Reads.swap {g : Goal} (h : Reads g s e s') :
    Reads g.swap (s.map swapToken) (swapLogical e) (s'.map swapToken) := by
  induction h with
  | number type value =>
      refine .number (swapToken_type_eq type rfl) ?_
      rw [swapToken_content type rfl (by decide)]
      exact value
  | call type hcolon _ ih =>
      refine .call (swapToken_type_eq type rfl) (swapToken_type_eq hcolon rfl) ?_
      rw [swapToken_content type rfl (by decide)]
      exact ih
  | assign type heq _ ih =>
      have hread := Reads.assign (swapToken_type_eq type rfl) (swapToken_type_eq heq rfl) ih
      rw [swapToken_content type rfl (by decide)] at hread
      exact hread
  | ident type noCall noAssign =>
      have hread := Reads.ident (swapToken_type_eq type rfl) (mt (front_type_iff rfl).1 noCall)
        (mt (front_type_iff rfl).1 noAssign)
      rw [swapToken_content type rfl (by decide)] at hread
      exact hread
  | paren left _ right ih =>
      exact .paren (swapToken_type_eq left rfl) ih (swapToken_type_eq right rfl)
  | @unary t s s' e type _ ih =>
      have hsame : (swapToken t).type = t.type := by
        rcases type with h | h
        · rw [swapToken_type_eq h rfl, h]
        · rw [swapToken_type_eq h rfl, h]
      have hread := Reads.unary (by rw [hsame]; exact type) ih
      rw [hsame] at hread
      exact hread
  | primary noSign _ ih =>
      refine .primary ?_ ih
      rw [front_type_iff rfl, front_type_iff rfl]
      exact noSign
  | binary _ _ ih₁ ih₂ => exact .binary ih₁ ih₂
  | loopEnd stop =>
      refine .loopEnd ?_
      rw [front_map, opsAt_swapToken]
      exact stop
  | @loopStep n left right e t s s₁ s' op _ _ ih₁ ih₂ =>
      refine .loopStep ?_ ih₁ ?_
      · rw [opsAt_swapToken]
        exact op
      · rw [swapToken_type]
        exact ih₂
  | argsEnd type => exact .argsEnd (swapToken_type_eq type rfl)
  | argsComma more _ hcomma _ ih₁ ih₂ =>
      refine .argsComma (mt (front_type_iff rfl).1 more) ih₁ (swapToken_type_eq hcomma rfl) ?_
      rw [Goal.swap, swapAll_append] at ih₂
      exact ih₂
  | argsLast more _ type ih =>
      rw [swapLogical, swapAll_append]
      exact .argsLast (mt (front_type_iff rfl).1 more) ih (swapToken_type_eq type rfl)

/-- A goal whose statements so far are exchanged so. -/
def StmtGoal.swap : StmtGoal → StmtGoal
  | .stmt => .stmt
  | .block stmts => .block (swapAll stmts)
  | .program stmts => .program (swapAll stmts)

theorem startsStatement_swapToken (t : Token) :
    startsStatement (swapToken t).type = startsStatement t.type := by
  rw [swapToken_type]
  cases t.type <;> rfl

/-- Statements are read alike. -/
theorem ReadsStmt.swap {g : StmtGoal} {events : List Event} (h : ReadsStmt g s e s' events) :
    ∃ events', ReadsStmt g.swap (s.map swapToken) (swapLogical e) (s'.map swapToken) events' := by
  induction h with
  | varDecl hv hx heq value =>
      have hread := ReadsStmt.varDecl (swapToken_type_eq hv rfl) (swapToken_type_eq hx rfl)
        (swapToken_type_eq heq rfl) value.swap
      rw [swapToken_content hx rfl (by decide)] at hread
      exact ⟨_, hread⟩
  | @varDeclTyped v x arrow type eq s s' e hv hx harrow heq value =>
      have hread : ReadsStmt .stmt (swapToken v :: swapToken x :: swapToken arrow ::
          swapToken type :: swapToken eq :: s.map swapToken) _ _ _ :=
        .varDeclTyped (swapToken_type_eq hv rfl) (swapToken_type_eq hx rfl)
          (swapToken_type_eq harrow rfl) (swapToken_type_eq heq rfl) value.swap
      rw [swapToken_content hx rfl (by decide)] at hread
      exact ⟨_, hread⟩
  | primary ident inner => exact ⟨_, .primary ((front_type_iff rfl).2 ident) inner.swap⟩
  | block left _ ih =>
      obtain ⟨events, hread⟩ := ih
      exact ⟨_, .block (swapToken_type_eq left rfl) hread⟩
  | ifThen hi hp condition hr hl _ noElse ih =>
      obtain ⟨events, hread⟩ := ih
      exact ⟨_, .ifThen (swapToken_type_eq hi rfl) (swapToken_type_eq hp rfl) condition.swap
        (swapToken_type_eq hr rfl) (swapToken_type_eq hl rfl) hread
        (mt (front_type_iff rfl).1 noElse)⟩
  | ifElse hi hp condition hr hl _ hels hl' _ ih₁ ih₂ =>
      obtain ⟨events, hread⟩ := ih₁
      obtain ⟨events', hread'⟩ := ih₂
      exact ⟨_, .ifElse (swapToken_type_eq hi rfl) (swapToken_type_eq hp rfl) condition.swap
        (swapToken_type_eq hr rfl) (swapToken_type_eq hl rfl) hread (swapToken_type_eq hels rfl)
        (swapToken_type_eq hl' rfl) hread'⟩
  | blockEnd right => exact ⟨_, .blockEnd (swapToken_type_eq right rfl)⟩
  | blockStmt starts _ _ ih₁ ih₂ =>
      obtain ⟨events, hread⟩ := ih₁
      obtain ⟨events', hread'⟩ := ih₂
      rw [StmtGoal.swap, swapAll_append] at hread'
      refine ⟨_, .blockStmt ?_ hread hread'⟩
      rw [startsStatement_swapToken]
      exact starts
  | blockSkip drops noEnd noFile _ ih =>
      obtain ⟨events, hread⟩ := ih
      refine ⟨_, .blockSkip ?_ ?_ ?_ hread⟩
      · rw [startsStatement_swapToken]
        exact drops
      · rw [swapToken_type, Ne, swapOp_eq_iff rfl]
        exact noEnd
      · rw [swapToken_type, Ne, swapOp_eq_iff rfl]
        exact noFile
  | programEnd => exact ⟨_, .programEnd⟩
  | programStmt starts _ _ ih₁ ih₂ =>
      obtain ⟨events, hread⟩ := ih₁
      obtain ⟨events', hread'⟩ := ih₂
      rw [StmtGoal.swap, swapAll_append] at hread'
      refine ⟨_, .programStmt ?_ hread hread'⟩
      rw [startsStatement_swapToken]
      exact starts
  | programSkip drops _ ih =>
      obtain ⟨events, hread⟩ := ih
      refine ⟨_, .programSkip ?_ hread⟩
      rw [startsStatement_swapToken]
      exact drops

end Swap

/-- **Exchanged tokens have the exchanged tree.** -/
theorem parseProgram_swap {tokens : List Token} {e : ASTNode} (h : parseProgram tokens = .ok e) :
    parseProgram (tokens.map swapToken) = .ok (swapLogical e) := by
  obtain ⟨events, hread⟩ := parseProgram_eq_ok_iff.1 h
  obtain ⟨events', hswap⟩ := hread.swap
  exact parseProgram_eq_ok_iff.2 ⟨events', hswap⟩

/-- So the other tree is parsed as well. -/
theorem Parsed.swap {e : ASTNode} (h : Parsed e) : Parsed (swapLogical e) := by
  obtain ⟨tokens, hidents, hparse⟩ := h
  refine ⟨tokens.map swapToken, ?_, parseProgram_swap hparse⟩
  intro t ht hident
  obtain ⟨u, hu, rfl⟩ := List.mem_map.1 ht
  rw [swapToken_type, swapOp_eq_iff rfl] at hident
  rw [swapToken_content hident rfl (by decide)]
  exact hidents u hu hident

end SproutLang.Compiler

/-! ## §3. The lexer. -/

namespace SproutLang.Compiler.Lexer

open Library

section Characters

variable {c d : Char} {p : Char → Bool} {w : List Char} {s : Source}

theorem swapChar_of_ne (hand : c ≠ '&') (hbar : c ≠ '|') : swapChar c = c := by
  unfold swapChar
  rw [if_neg hand, if_neg hbar]

/-- A class of characters with both of them or neither. -/
theorem class_swapChar (hp : p '&' = p '|') (c : Char) : p (swapChar c) = p c := by
  by_cases hand : c = '&'
  · rw [hand]
    exact hp.symm
  by_cases hbar : c = '|'
  · rw [hbar]
    exact hp
  · rw [swapChar_of_ne hand hbar]

theorem swapChar_eq_iff (hand : d ≠ '&') (hbar : d ≠ '|') : swapChar c = d ↔ c = d := by
  have hclass := class_swapChar (p := fun c => decide (c = d))
    (by rw [decide_eq_false hand.symm, decide_eq_false hbar.symm]) c
  simpa using hclass

/-- Words end at the same places. -/
theorem takeWhile_swap (hp : p '&' = p '|') (s : Source) :
    (s.map swapChar).takeWhile p = (s.takeWhile p).map swapChar := by
  rw [List.takeWhile_map]
  congr 2
  funext c
  exact class_swapChar hp c

theorem dropWhile_swap (hp : p '&' = p '|') (s : Source) :
    (s.map swapChar).dropWhile p = (s.dropWhile p).map swapChar := by
  rw [List.dropWhile_map]
  congr 2
  funext c
  exact class_swapChar hp c

/-- A text without the two characters. -/
theorem map_swapChar (hw : ∀ d ∈ w, p d = true) (hand : p '&' = false) (hbar : p '|' = false) :
    w.map swapChar = w := by
  refine (List.map_congr_left ?_).trans (List.map_id w)
  intro d hd
  show swapChar d = d
  apply swapChar_of_ne
  · rintro rfl
    exact absurd (hw _ hd) (by rw [hand]; exact Bool.false_ne_true)
  · rintro rfl
    exact absurd (hw _ hd) (by rw [hbar]; exact Bool.false_ne_true)

theorem peek_swap (s : Source) : peek (s.map swapChar) = swapChar (peek s) := by
  cases s <;> rfl

/-- Comments begin at the same places. -/
theorem atComment_swap (s : Source) : atComment (s.map swapChar) = atComment s := by
  have hhead : ∀ s : Source, ((s.map swapChar).head? = some '/') ↔ s.head? = some '/' := by
    intro s
    cases s with
    | nil => exact Iff.rfl
    | cons c s => simp only [List.map_cons, List.head?_cons, Option.some.injEq,
        swapChar_eq_iff (c := c) (d := '/') (by decide) (by decide)]
  unfold atComment
  simp only [← List.map_tail, hhead]

/-- And the same text is skipped. -/
theorem skipWhiteSpace_swap (s : Source) :
    skipWhiteSpace (s.map swapChar) = (skipWhiteSpace s).map swapChar := by
  -- along the comments
  induction s using skipWhiteSpace.induct with
  | case1 s text hcomment ih =>
      rw [skipWhiteSpace_eq (s.map swapChar), skipWhiteSpace_eq s,
        dropWhile_swap (by decide), atComment_swap, if_pos hcomment, if_pos hcomment, ← ih]
      unfold skipComment
      rw [dropWhile_swap (by decide)]
  | case2 s text hno =>
      rw [skipWhiteSpace_eq (s.map swapChar), skipWhiteSpace_eq s,
        dropWhile_swap (by decide), atComment_swap, if_neg hno, if_neg hno]

end Characters

section Tokens

variable {type two one : TokenType} {c second : Char} {w : List Char} {s : Source}

/-- A type that is exchanged, or a text that is not. -/
def Exchanges (type : TokenType) (w : List Char) : Prop :=
  logicalOps type = true ∨ type = .UNKNOWN ∨ swapOp type = type ∧ w.map swapChar = w

/-- A token of an exchanged text. -/
theorem swapToken_makeToken (h : Exchanges type w) :
    swapToken (makeToken type w) = makeToken (swapOp type) (w.map swapChar) := by
  unfold swapToken
  rw [content_makeToken]
  by_cases hexchanged : logicalOps type = true ∨ type = .UNKNOWN
  · exact if_pos hexchanged
  · rcases h with h | h | ⟨hop, hw⟩
    · exact absurd (Or.inl h) hexchanged
    · exact absurd (Or.inr h) hexchanged
    · rw [hop, hw]
      exact if_neg hexchanged

/-- The token and the text behind it. -/
def swapCut (r : Token × Source) : Token × Source := (swapToken r.1, r.2.map swapChar)

/-- Words are cut at the same places. -/
theorem lexWord_swap (s : Source) : lexWord (s.map swapChar) = swapCut (lexWord s) := by
  have hw : (s.takeWhile Char.isAlphanum).map swapChar = s.takeWhile Char.isAlphanum :=
    map_swapChar (fun d hd => List.mem_takeWhile_imp hd) (by decide) (by decide)
  -- a word is no operator
  have hall : ∀ t ∈ TokenType.IDENT :: keywords.map Prod.snd,
      logicalOps t = false ∧ t ≠ .UNKNOWN := by decide
  obtain ⟨hlogical, hunknown⟩ := hall _ (wordType_mem (s.takeWhile Char.isAlphanum))
  unfold lexWord swapCut
  rw [takeWhile_swap (by decide), dropWhile_swap (by decide), hw, swapToken_eq rfl hlogical hunknown]

/-- So are numbers. -/
theorem lexNumber_swap (s : Source) : lexNumber (s.map swapChar) = swapCut (lexNumber s) := by
  have hdigits : ∀ s : Source, (s.takeWhile Char.isDigit).map swapChar = s.takeWhile Char.isDigit :=
    fun s => map_swapChar (fun d hd => List.mem_takeWhile_imp hd) (by decide) (by decide)
  have hnumber : ∀ w : List Char, swapToken (makeToken .NUMBER w) = makeToken .NUMBER w :=
    fun w => swapToken_eq (show (makeToken .NUMBER w).type = .NUMBER from rfl) rfl (by decide)
  have hnext : ∀ s : Source, (s.map swapChar).head?.any Char.isDigit = s.head?.any Char.isDigit := by
    intro s
    cases s with
    | nil => rfl
    | cons c s => exact class_swapChar (p := Char.isDigit) (by decide) c
  unfold lexNumber swapCut
  simp only [takeWhile_swap (p := Char.isDigit) (by decide),
    dropWhile_swap (p := Char.isDigit) (by decide), ← List.map_tail, peek_swap, hnext,
    swapChar_eq_iff (d := '.') (by decide) (by decide), hdigits]
  split
  · rw [hnumber]
  · rw [hnumber]

/-- The rows of the table. -/
theorem compound_swap (c : Char) : compound (swapChar c) =
    (compound c).map fun r => (swapChar r.1, swapOp r.2.1, swapOp r.2.2) := by
  by_cases hand : c = '&'
  · rw [hand]
    rfl
  by_cases hbar : c = '|'
  · rw [hbar]
    rfl
  rw [swapChar_of_ne hand hbar]
  cases hrow : compound c with
  | none => rfl
  | some row =>
      obtain ⟨second, two, one⟩ := row
      unfold compound at hrow
      -- the rows in front of `&` and those behind `|`
      iterate 8
        rcases row_or_rest hrow with ⟨rfl, hrow⟩ | hrow
        · cases hrow
          first | rfl | exact absurd rfl hand | exact absurd rfl hbar
      cases hrow

theorem swapChar_swapChar (c : Char) : swapChar (swapChar c) = c := by
  by_cases hand : c = '&'
  · rw [hand]
    rfl
  by_cases hbar : c = '|'
  · rw [hbar]
    rfl
  · rw [swapChar_of_ne hand hbar, swapChar_of_ne hand hbar]

theorem swapChar_inj {d : Char} : swapChar c = swapChar d ↔ c = d := by
  constructor
  · intro h
    rw [← swapChar_swapChar c, h, swapChar_swapChar]
  · exact congrArg swapChar

theorem compound_not_ident (h : compound c = some (second, two, one)) :
    two ≠ .IDENT ∧ one ≠ .IDENT := by
  unfold compound at h
  iterate 8
    rcases row_or_rest h with ⟨rfl, hrow⟩ | h
    · cases hrow
      decide
  cases h

/-- The tokens of a row. -/
theorem compound_exchanges (h : compound c = some (second, two, one)) :
    Exchanges two [c, second] ∧ Exchanges one [c] := by
  unfold compound at h
  unfold Exchanges
  iterate 8
    rcases row_or_rest h with ⟨rfl, hrow⟩ | h
    · cases hrow
      decide
  cases h

/-- So are symbols of one or two characters. -/
theorem lexCompound_swap (h : compound c = some (second, two, one)) (s : Source) :
    lexCompound (swapChar c) (swapChar second) (swapOp two) (swapOp one) (s.map swapChar)
      = swapCut (lexCompound c second two one s) := by
  obtain ⟨htwo, hone⟩ := compound_exchanges h
  unfold lexCompound swapCut
  simp only [peek_swap, swapChar_inj]
  split
  · rw [swapToken_makeToken htwo, List.map_tail]
    rfl
  · rw [swapToken_makeToken hone]
    rfl

/-- So are directives. -/
theorem lexDirective_swap (s : Source) :
    lexDirective (s.map swapChar) = (lexDirective s).map swapCut := by
  have hw : ∀ s : Source, (s.takeWhile Char.isAlpha).map swapChar = s.takeWhile Char.isAlpha :=
    fun s => map_swapChar (fun d hd => List.mem_takeWhile_imp hd) (by decide) (by decide)
  unfold lexDirective
  simp only [takeWhile_swap (p := Char.isAlpha) (by decide),
    dropWhile_swap (p := Char.isAlpha) (by decide), hw, skipWhiteSpace_swap]
  split
  · -- the name behind the keyword has letters only
    have himport : ∀ w : List Char, swapToken (makeToken .IMPORT w) = makeToken .IMPORT w :=
      fun w => swapToken_eq (show (makeToken .IMPORT w).type = .IMPORT from rfl) rfl (by decide)
    show _ = Except.ok (swapToken (makeToken .IMPORT _), _)
    rw [himport]
  · rfl

/-- Both characters begin a row of the table. -/
theorem swapChar_of_symbol (h : compound c = none) : swapChar c = c := by
  apply swapChar_of_ne
  · rintro rfl
    exact absurd h (by decide)
  · rintro rfl
    exact absurd h (by decide)

/-- Single symbols stay as they are. -/
theorem symbol_swap (h : compound c = none) :
    swapToken (makeToken (symbolType c) [c]) = makeToken (symbolType c) [c] := by
  have htype : swapOp (symbolType c) = symbolType c := by
    rw [swapOp_eq_self_iff]
    have hand : symbolType c ≠ .DOUBLE_AND := symbolType_ne_of (by decide) c
    have hbar : symbolType c ≠ .DOUBLE_VBAR := symbolType_ne_of (by decide) c
    unfold logicalOps
    rw [decide_eq_false hand, decide_eq_false hbar]
    rfl
  have hw : [c].map swapChar = [c] := by rw [List.map_singleton, swapChar_of_symbol h]
  rw [swapToken_makeToken (Or.inr (Or.inr ⟨htype, hw⟩)), htype, hw]

/-- **The lexer treats the two characters alike.** -/
theorem nextToken_swap (s : Source) : nextToken (s.map swapChar) = (nextToken s).map swapCut := by
  unfold nextToken
  rw [skipWhiteSpace_swap]
  generalize skipWhiteSpace s = r
  -- every test of the lexer has one outcome on both texts
  simp only [peek_swap, swapChar_eq_iff (d := '\x00') (by decide) (by decide),
    swapChar_eq_iff (d := '#') (by decide) (by decide),
    class_swapChar (p := Char.isAlpha) (by decide), class_swapChar (p := Char.isDigit) (by decide),
    compound_swap]
  by_cases hend : peek r = '\x00'
  · rw [if_pos hend, if_pos hend]
    rfl
  rw [if_neg hend, if_neg hend]
  by_cases halpha : (peek r).isAlpha = true
  · rw [if_pos halpha, if_pos halpha, lexWord_swap]
    rfl
  rw [if_neg halpha, if_neg halpha]
  by_cases hdigit : (peek r).isDigit = true
  · rw [if_pos hdigit, if_pos hdigit, lexNumber_swap]
    rfl
  rw [if_neg hdigit, if_neg hdigit]
  cases hrow : compound (peek r) with
  | some row =>
      obtain ⟨second, two, one⟩ := row
      have htail := lexCompound_swap hrow r.tail
      rw [List.map_tail] at htail
      exact congrArg Except.ok htail
  | none =>
      by_cases hhash : peek r = '#'
      · simp only [Option.map_none, if_pos hhash]
        rw [← List.map_tail]
        exact lexDirective_swap r.tail
      · simp only [Option.map_none, if_neg hhash]
        rw [swapChar_of_symbol hrow, ← List.map_tail]
        show _ = Except.ok (swapToken _, _)
        rw [symbol_swap hrow]

end Tokens

/-- Round by round, the tokens are the exchanged ones. -/
theorem tokenizeLoop_swap (rounds : Nat) :
    ∀ s : Source, tokenizeLoop rounds (s.map swapChar)
      = (tokenizeLoop rounds s).map (List.map swapToken) := by
  induction rounds with
  | zero => exact fun s => rfl
  | succ rounds ih =>
      intro s
      cases hnext : nextToken s with
      | error e =>
          unfold tokenizeLoop
          rw [nextToken_swap, hnext]
          rfl
      | ok r =>
          obtain ⟨t, rest⟩ := r
          have hcut : nextToken (s.map swapChar) = .ok (swapToken t, rest.map swapChar) := by
            rw [nextToken_swap, hnext]
            rfl
          have hlast : swapOp t.type = .END_OF_FILE ↔ t.type = .END_OF_FILE := swapOp_eq_iff rfl
          unfold tokenizeLoop
          rw [except_bind_ok hcut, except_bind_ok hnext]
          simp only [swapToken_type, hlast]
          by_cases hend : t.type = .END_OF_FILE
          · rw [if_pos hend, if_pos hend]
            rfl
          · rw [if_neg hend, if_neg hend, ih rest]
            cases tokenizeLoop rounds rest <;> rfl

/-- **Exchanged texts have exchanged tokens.** -/
theorem tokenize_swap {code : Source} {tokens : List Token} (h : tokenize code = .ok tokens) :
    tokenize (code.map swapChar) = .ok (tokens.map swapToken) := by
  unfold tokenize at h ⊢
  rw [List.length_map, tokenizeLoop_swap, h]
  rfl

/-- An identifier of the lexer is a word. -/
theorem nextToken_ident {s rest : Source} {t : Token} (h : nextToken s = .ok (t, rest))
    (hident : t.type = .IDENT) : '\n' ∉ t.content.toList := by
  unfold nextToken at h
  generalize skipWhiteSpace s = r at h
  -- only a word becomes an identifier, and a word has no newline
  by_cases hend : peek r = '\x00'
  · simp only [if_pos hend, Except.ok.injEq, Prod.mk.injEq] at h
    rw [← h.1] at hident
    exact absurd hident (by decide)
  by_cases halpha : (peek r).isAlpha = true
  · simp only [if_neg hend, if_pos halpha, Except.ok.injEq, Prod.mk.injEq, lexWord] at h
    rw [← h.1, content_makeToken]
    intro hmem
    exact absurd (List.mem_takeWhile_imp hmem) (by decide)
  by_cases hdigit : (peek r).isDigit = true
  · simp only [if_neg hend, if_neg halpha, if_pos hdigit, Except.ok.injEq, lexNumber] at h
    have hnumber : ¬ TokenType.NUMBER = .IDENT := by decide
    split at h
    · rw [← (Prod.mk.inj h).1] at hident
      exact absurd hident hnumber
    · rw [← (Prod.mk.inj h).1] at hident
      exact absurd hident hnumber
  simp only [if_neg hend, if_neg halpha, if_neg hdigit] at h
  cases hrow : compound (peek r) with
  | some row =>
      obtain ⟨second, two, one⟩ := row
      simp only [hrow, Except.ok.injEq] at h
      have htypes := compound_not_ident hrow
      unfold lexCompound at h
      split at h
      · rw [← (Prod.mk.inj h).1] at hident
        exact absurd hident htypes.1
      · rw [← (Prod.mk.inj h).1] at hident
        exact absurd hident htypes.2
  | none =>
      simp only [hrow] at h
      by_cases hhash : peek r = '#'
      · simp only [if_pos hhash, lexDirective] at h
        split at h
        · rw [Except.ok.injEq] at h
          rw [← (Prod.mk.inj h).1] at hident
          exact absurd hident (show ¬ TokenType.IMPORT = .IDENT by decide)
        · exact absurd h (by simp)
      · simp only [if_neg hhash, Except.ok.injEq, Prod.mk.injEq] at h
        rw [← h.1] at hident
        exact absurd hident (symbolType_ne_of (by decide) _)

/-- The tokens of the lexer have no newline in an identifier. -/
theorem tokenizeLoop_idents (rounds : Nat) :
    ∀ {s tokens}, tokenizeLoop rounds s = .ok tokens → OneLineIdents tokens := by
  induction rounds with
  | zero => exact fun h => absurd h (by simp [tokenizeLoop])
  | succ rounds ih =>
      intro s tokens h
      unfold tokenizeLoop at h
      obtain ⟨⟨t, rest⟩, hnext, h⟩ := except_bind_eq_ok h
      simp only at h
      by_cases hend : t.type = .END_OF_FILE
      · rw [if_pos hend] at h
        injection h with h
        rw [← h]
        exact fun t ht => absurd ht List.not_mem_nil
      · rw [if_neg hend] at h
        obtain ⟨more, hmore, h⟩ := except_bind_eq_ok h
        injection h with h
        rw [← h]
        unfold OneLineIdents
        rw [List.forall_mem_cons]
        exact ⟨nextToken_ident hnext, ih hmore⟩

end SproutLang.Compiler.Lexer

/-! ## §4. Which trees the dump determines. -/

namespace SproutLang.Compiler

/-- `e` is the tree of a source text. -/
def Compiled (e : ASTNode) : Prop :=
  ∃ code tokens, Lexer.tokenize code = .ok tokens ∧ parseProgram tokens = .ok e

/-- No other tree of the class has the dump of `e`. -/
def Determined (D : ASTNode → Prop) (e : ASTNode) : Prop :=
  ∀ e', D e' → printAST e' 1 = printAST e 1 → e' = e

/-- A compiled tree is a parsed one. -/
theorem Compiled.parsed {e : ASTNode} (h : Compiled e) : Parsed e := by
  obtain ⟨code, tokens, hlex, hparse⟩ := h
  exact ⟨tokens, Lexer.tokenizeLoop_idents _ hlex, hparse⟩

/-- Compiled trees are exchanged for compiled trees. -/
theorem Compiled.swap {e : ASTNode} (h : Compiled e) : Compiled (swapLogical e) := by
  obtain ⟨code, tokens, hlex, hparse⟩ := h
  exact ⟨_, _, Lexer.tokenize_swap hlex, parseProgram_swap hparse⟩

/-- In a class of parsed trees that has the exchanged tree with each tree. -/
theorem determined_iff {D : ASTNode → Prop} (hparsed : ∀ e, D e → Parsed e)
    (hswap : ∀ e, D e → D (swapLogical e)) {e : ASTNode} (he : D e) :
    Determined D e ↔ usesLogical e = false := by
  constructor
  · intro h
    exact usesLogical_of_swapped e (h _ (hswap e he) (printAST_swapped e 1))
  · intro h e' he' htext
    exact (eq_of_printed (hparsed e he).dumpable (hparsed e' he').dumpable h htext.symm).symm

/-- **A dump determines its tree if and only if the tree has no `&&` and no
`||`**: among all trees the parser returns, and among those of source texts. -/
theorem dump_determines_iff (e : ASTNode) :
    (Parsed e → (Determined Parsed e ↔ usesLogical e = false)) ∧
    (Compiled e → (Determined Compiled e ↔ usesLogical e = false)) :=
  ⟨determined_iff (fun _ h => h) fun _ h => h.swap,
    determined_iff (fun _ h => h.parsed) fun _ h => h.swap⟩

/-- The tree of `var x = a && b`, or of `var x = a || b`. -/
def declared (op : TokenType) : ASTNode :=
  .program [.varDecl "x" (.binaryOp op (.ident "a") (.ident "b"))]

/-- The tokens of `var x = a && b`. -/
def declaredTokens : List Token :=
  [⟨.VAR, "var"⟩, ⟨.IDENT, "x"⟩, ⟨.EQ, "="⟩, ⟨.IDENT, "a"⟩, ⟨.DOUBLE_AND, "&&"⟩, ⟨.IDENT, "b"⟩]

/-- A declaration with a connective is compiled. -/
theorem declared_compiled : Lexer.tokenize "var x = a && b".toList = .ok declaredTokens ∧
    parseProgram declaredTokens = .ok (declared .DOUBLE_AND) := by
  have hword : ∀ c : Char, c.isAlpha = true → Lexer.Lexeme (Lexer.wordType [c]) [c] :=
    fun c hc => .word hc (by simp)
  have hrow : Lexer.compound '&' = some ('&', .DOUBLE_AND, .UNKNOWN) := rfl
  have heq : Lexer.compound '=' = some ('=', .EQEQ, .EQ) := rfl
  have hvar : Lexer.Lexeme (Lexer.wordType ['v', 'a', 'r']) ['v', 'a', 'r'] :=
    .word (c := 'v') (w := ['a', 'r']) (by decide)
      (List.forall_mem_cons.2 ⟨by decide, List.forall_mem_cons.2 ⟨by decide, by simp⟩⟩)
  have hlexemes : ∀ t ∈ declaredTokens, ∃ type w, Lexer.Lexeme type w ∧
      t = Lexer.makeToken type w := by
    simp only [declaredTokens, List.forall_mem_cons]
    exact ⟨⟨.VAR, ['v', 'a', 'r'], hvar, rfl⟩,
      ⟨.IDENT, ['x'], hword 'x' (by decide), rfl⟩, ⟨.EQ, ['='], .one heq, rfl⟩,
      ⟨.IDENT, ['a'], hword 'a' (by decide), rfl⟩, ⟨.DOUBLE_AND, ['&', '&'], .two hrow, rfl⟩,
      ⟨.IDENT, ['b'], hword 'b' (by decide), rfl⟩, by simp⟩
  exact ⟨Lexer.tokenize_lexemes hlexemes, rfl⟩

/-- **One dump for two programs.** -/
theorem and_dumped_as_or :
    Compiled (declared .DOUBLE_AND) ∧ Compiled (declared .DOUBLE_VBAR) ∧
    printAST (declared .DOUBLE_AND) 1 = printAST (declared .DOUBLE_VBAR) 1 ∧
    declared .DOUBLE_AND ≠ declared .DOUBLE_VBAR := by
  have hcompiled : Compiled (declared .DOUBLE_AND) := ⟨_, _, declared_compiled.1, declared_compiled.2⟩
  refine ⟨hcompiled, hcompiled.swap, (printAST_swapped (declared .DOUBLE_AND) 1).symm, ?_⟩
  simp [declared]

end SproutLang.Compiler
