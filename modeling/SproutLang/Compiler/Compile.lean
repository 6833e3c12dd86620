/-
  SproutLang.Compiler.Compile
  ───────────────────────────
  **THE COMPILER AS A PROGRAM** (`src/compiler/compiler.cpp`).

  `main` joins its arguments by blanks, prints the tokens and then the tree.
  It reads every text in which a program of the grammar is laid out:

    • `spells_codeOf` — the tokens of the arguments are those of the code,
    • `main_prints`   — however a program is written, laid out and cut into
                        arguments, `main` prints its tokens and its tree,
    • `main_render`   — a tree that is printed as text is read back.
-/
import SproutLang.Compiler.Dump
import SproutLang.Compiler.SourceTexts

namespace SproutLang.Compiler

open Library Lexer

/-! ## §1. The program. -/

/-- The exceptions that end it, none of which it catches. -/
inductive CompileError where
  | lexer (e : Fault)
  | parser (e : ParseError)
  deriving DecidableEq, Repr

/-- One more argument. -/
def withArgument (code arg : List Char) : List Char :=
  (if code = [] then code else code ++ [' ']) ++ arg

/-- The arguments, with blanks between them. -/
def codeOf (args : List (List Char)) : List Char := args.foldl withArgument []

/-- The number of an enumerator. -/
def TokenType.value (type : TokenType) : Nat := type.ctorIdx

/-- The line `tokenize` prints for a token. -/
def tokenLine (t : Token) : String :=
  "Token Type: " ++ toString t.type.value ++ " Token Value: " ++ t.content ++ "\n"

/-- `std::cout`. -/
def print (text : String) : EStateM CompileError String Unit := modify fun out => out ++ text

/-- The loop of `tokenize` over the tokens. -/
def printTokens : List Token → EStateM CompileError String Unit
  | [] => pure ()
  | t :: tokens => do
      print (tokenLine t)
      printTokens tokens

/-- `main`; the state is what has been printed. -/
def main (args : List (List Char)) : EStateM CompileError String Unit := do
  match Lexer.tokenize (codeOf args) with
  | .error e => throw (.lexer e)
  | .ok tokens =>
      printTokens tokens
      -- the tokens stand there also if the parser throws
      match parseProgram tokens with
      | .error e => throw (.parser e)
      | .ok tree => print (printAST tree 1)

/-! ## §2. Its arguments. -/

section Arguments

variable {s code arg : List Char} {args : List (List Char)} {ts us : List Token}
  {tss : List (List Token)}

/-- One more argument adds its tokens. -/
theorem spells_argument (h : Spells code ts) (hclosed : Closed code) (h' : Spells arg us) :
    Spells (withArgument code arg) (ts ++ us) := by
  unfold withArgument
  split
  · rename_i hnil
    rw [h.eq_nil hnil, hnil]
    exact h'
  · rw [List.append_assoc]
    exact h.append hclosed h'

theorem closed_argument (hclosed : Closed code) (harg : Closed arg) :
    Closed (withArgument code arg) := by
  unfold withArgument
  split
  · rename_i hnil
    rw [hnil]
    exact harg
  · rw [List.append_assoc]
    exact hclosed.append harg

/-- Behind code that has been read. -/
theorem spells_foldl (hspells : List.Forall₂ Spells args tss) :
    ∀ (code : List Char) (ts : List Token), Spells code ts → (args ≠ [] → Closed code) →
      (∀ a ∈ args.dropLast, Closed a) →
      Spells (args.foldl withArgument code) (ts ++ tss.flatten) := by
  induction hspells with
  | nil =>
      intro code ts hcode _ _
      rw [List.flatten_nil, List.append_nil]
      exact hcode
  | @cons arg us args tss harg _ ih =>
      intro code ts hcode hclosed hargs
      have hread := spells_argument hcode (hclosed (List.cons_ne_nil _ _)) harg
      rw [List.flatten_cons, ← List.append_assoc]
      cases args with
      | nil => exact ih _ _ hread (fun h => absurd rfl h) (by simp)
      | cons arg' args =>
          refine ih _ _ hread (fun _ => ?_) fun a ha => hargs a (List.mem_cons_of_mem _ ha)
          exact closed_argument (hclosed (List.cons_ne_nil _ _)) (hargs arg List.mem_cons_self)

/-- **The tokens of the arguments are those of the code**, if no comment goes
on from one argument to the next. -/
theorem spells_codeOf (hspells : List.Forall₂ Spells args tss)
    (hclosed : ∀ a ∈ args.dropLast, Closed a) : Spells (codeOf args) tss.flatten := by
  exact spells_foldl hspells [] [] (.done (Or.inl .nil)) (fun _ => by decide) hclosed

/-- A character of the code is one of an argument, or a blank. -/
theorem mem_codeOf {c : Char} (hc : c ≠ ' ') :
    c ∈ codeOf args → ∃ a ∈ args, c ∈ a := by
  have hfold : ∀ code : List Char, c ∈ args.foldl withArgument code →
      c ∈ code ∨ ∃ a ∈ args, c ∈ a := by
    induction args with
    | nil => exact fun code h => Or.inl h
    | cons arg args ih =>
        intro code h
        rcases ih _ h with hread | ⟨a, ha, hmem⟩
        · rcases List.mem_append.1 hread with hcode | harg
          · left
            -- the blank is the only character that is new
            split at hcode
            · exact hcode
            · rcases List.mem_append.1 hcode with hcode | hblank
              · exact hcode
              · exact absurd (List.mem_singleton.1 hblank) hc
          · exact Or.inr ⟨arg, List.mem_cons_self, harg⟩
        · exact Or.inr ⟨a, List.mem_cons_of_mem _ ha, hmem⟩
  intro h
  rcases hfold [] h with hnil | harg
  · exact absurd hnil List.not_mem_nil
  · exact harg

/-- Plain arguments make a plain text. -/
theorem plain_codeOf (hplain : ∀ a ∈ args, Lexer.Plain a) : Lexer.Plain (codeOf args) := by
  constructor
  · intro h
    obtain ⟨a, ha, hmem⟩ := mem_codeOf (by decide) h
    exact (hplain a ha).1 hmem
  · intro h
    obtain ⟨a, ha, hmem⟩ := mem_codeOf (by decide) h
    exact (hplain a ha).2 hmem

end Arguments

/-! ## §3. What it prints. -/

/-- The lines of the tokens. -/
def tokenLines : List Token → String
  | [] => ""
  | t :: tokens => tokenLine t ++ tokenLines tokens

/-- The loop prints one line a token. -/
theorem printTokens_eq (tokens : List Token) :
    ∀ out, printTokens tokens out = .ok () (out ++ tokenLines tokens) := by
  induction tokens with
  | nil =>
      intro out
      show EStateM.Result.ok () out = _
      rw [tokenLines, String.append_empty]
  | cons t tokens ih =>
      intro out
      have hprint : print (tokenLine t) out = .ok () (out ++ tokenLine t) := rfl
      rw [printTokens, bind_ok hprint, ih, tokenLines, String.append_assoc]

/-- The code has been cut into tokens that are parsed. -/
theorem main_of_tokens {args : List (List Char)} {ts : List Token} {e : ASTNode}
    (htokens : Lexer.tokenize (codeOf args) = .ok ts) (hparse : parseProgram ts = .ok e) :
    main args "" = .ok () (tokenLines ts ++ printAST e 1) := by
  have hlines := printTokens_eq ts ""
  rw [String.empty_append] at hlines
  unfold main
  rw [htokens]
  dsimp only
  rw [bind_ok hlines, hparse]
  rfl

/-- **The compiler reads every layout of a program.**  The arguments spell
tokens in which a tree is written, and no comment goes on from one argument to
the next: `main` prints the tokens and the tree. -/
theorem main_prints {args : List (List Char)} {tss : List (List Token)} {e : ASTNode}
    (hplain : ∀ a ∈ args, Lexer.Plain a) (hspells : List.Forall₂ Spells args tss)
    (hclosed : ∀ a ∈ args.dropLast, Closed a)
    (hwritten : RendersStmt (.program []) e tss.flatten) :
    main args "" = .ok () (tokenLines tss.flatten ++ printAST e 1) :=
  main_of_tokens (tokenize_of_spells (spells_codeOf hspells hclosed) (plain_codeOf hplain))
    (parseProgram_of_renders hwritten)

/-- `var x -> int`, `= (1 +// one` and, on the next line, `2`, and `)`. -/
theorem main_prints_sum :
    main ["var x -> int".toList, "= (1 +// one\n2".toList, ")".toList] "" = .ok ()
      (tokenLines [⟨.VAR, "var"⟩, ⟨.IDENT, "x"⟩, ⟨.ARR_RIGHT, "->"⟩, ⟨.INT, "int"⟩, ⟨.EQ, "="⟩,
          ⟨.L_PAREN, "("⟩, ⟨.NUMBER, "1"⟩, ⟨.PLUS, "+"⟩, ⟨.NUMBER, "2"⟩, ⟨.R_PAREN, ")"⟩]
        ++ printAST (.program [.varDecl "x" (.binaryOp .PLUS (.intLiteral 1) (.intLiteral 2))]) 1) := by
  have hplain : ∀ a ∈ ["var x -> int".toList, "= (1 +// one\n2".toList, ")".toList],
      Lexer.Plain a := by
    unfold Lexer.Plain
    decide +kernel
  have hfirst : Spells "var x -> int".toList
      [⟨.VAR, "var"⟩, ⟨.IDENT, "x"⟩, ⟨.ARR_RIGHT, "->"⟩, ⟨.INT, "int"⟩] :=
    spells_of_tokenize (by decide +kernel) (hplain _ (by simp))
  have hsecond : Spells "= (1 +// one\n2".toList
      [⟨.EQ, "="⟩, ⟨.L_PAREN, "("⟩, ⟨.NUMBER, "1"⟩, ⟨.PLUS, "+"⟩, ⟨.NUMBER, "2"⟩] :=
    spells_of_tokenize (by decide +kernel) (hplain _ (by simp))
  have hthird : Spells ")".toList [⟨.R_PAREN, ")"⟩] :=
    spells_of_tokenize (by decide +kernel) (hplain _ (by simp))
  have hone : Renders (.expr 0 false) (.intLiteral 1) [⟨.NUMBER, "1"⟩] :=
    .number rfl (isNumeral_toString (n := 1) (by decide)) (by decide)
  have htwo : Renders (.expr 0 false) (.intLiteral 2) [⟨.NUMBER, "2"⟩] :=
    .number rfl (isNumeral_toString (n := 2) (by decide)) (by decide)
  have hsum : Renders (.expr 3 false) (.binaryOp .PLUS (.intLiteral 1) (.intLiteral 2))
      [⟨.NUMBER, "1"⟩, ⟨.PLUS, "+"⟩, ⟨.NUMBER, "2"⟩] :=
    .binary (p := 1) (t := ⟨.PLUS, "+"⟩) (hone.lift_le (by decide)) rfl (htwo.lift_le (by decide))
  have hvalue : Renders (.expr 0 false) (.binaryOp .PLUS (.intLiteral 1) (.intLiteral 2))
      [⟨.L_PAREN, "("⟩, ⟨.NUMBER, "1"⟩, ⟨.PLUS, "+"⟩, ⟨.NUMBER, "2"⟩, ⟨.R_PAREN, ")"⟩] :=
    .paren (l := ⟨.L_PAREN, "("⟩) (r := ⟨.R_PAREN, ")"⟩) rfl (hsum.lift_le (by decide)) rfl
  have hstmt : RendersStmt .stmt (.varDecl "x" (.binaryOp .PLUS (.intLiteral 1) (.intLiteral 2)))
      [⟨.VAR, "var"⟩, ⟨.IDENT, "x"⟩, ⟨.ARR_RIGHT, "->"⟩, ⟨.INT, "int"⟩, ⟨.EQ, "="⟩, ⟨.L_PAREN, "("⟩,
        ⟨.NUMBER, "1"⟩, ⟨.PLUS, "+"⟩, ⟨.NUMBER, "2"⟩, ⟨.R_PAREN, ")"⟩] :=
    .varDeclTyped (x := ⟨.IDENT, "x"⟩) rfl rfl rfl rfl rfl (hvalue.lift_le (by decide))
  have hprogram : RendersStmt (.program []) (.program [_]) _ := .programStmt hstmt .programEnd
  exact main_prints hplain (.cons hfirst (.cons hsecond (.cons hthird .nil))) (by decide +kernel)
    hprogram

/-! ## §4. Programs as texts. -/

/-- A token the lexer can make. -/
def IsToken (t : Token) : Prop := ∃ type w, Lexeme type w ∧ t = makeToken type w

/-- A word of a type is read as a token of it. -/
theorem isToken_of_lexeme {t : Token} (h : Lexeme t.type t.content.toList) : IsToken t := by
  refine ⟨t.type, t.content.toList, h, ?_⟩
  unfold makeToken
  rw [String.ofList_toList]

/-- The types of `symbol`s in a printed program. -/
def printedTypes : List TokenType :=
  [.VAR, .IF, .ELSE, .PLUS, .MINUS, .STAR, .SLASH, .EQ, .EQEQ, .GREATER, .LOWER, .NOT_EQ,
    .DOUBLE_AND, .DOUBLE_VBAR, .COLON, .COMMA, .SEMICOLON, .NOT, .L_PAREN, .R_PAREN, .L_CURL_BRKT,
    .R_CURL_BRKT]

/-- The text of a type with a fixed text is read as one token. -/
theorem symbols_cut : ∀ type ∈ printedTypes, '\x00' ∉ type.text.toList ∧ '#' ∉ type.text.toList ∧
    nextToken type.text.toList = .ok (symbol type, []) := by
  decide +kernel

/-- Each of them has its text. -/
theorem symbol_isToken {type : TokenType} (h : type ∈ printedTypes) : IsToken (symbol type) := by
  obtain ⟨hnul, hhash, hcut⟩ := symbols_cut type h
  rcases nextToken_lexeme hnul hhash with hend | ⟨type', w, rest, hlex, -, -, hnext⟩
  · have hnext := nextToken_end hend
    rw [hcut] at hnext
    simp only [Except.ok.injEq, Prod.mk.injEq] at hnext
    have htype : type = .END_OF_FILE := congrArg Token.type hnext.1
    subst htype
    exact absurd h (by decide)
  · rw [hcut] at hnext
    simp only [Except.ok.injEq, Prod.mk.injEq] at hnext
    exact ⟨type', w, hlex, hnext.1⟩

/-- What a printer makes: a symbol, a numeral or a name. -/
inductive IsPrinted : Token → Prop where
  | symbol {type : TokenType} (mem : type ∈ printedTypes) : IsPrinted (symbol type)
  | number (n : Nat) : IsPrinted ⟨.NUMBER, toString n⟩
  | name (x : String) : IsPrinted ⟨.IDENT, x⟩

section Printed

variable {e : ASTNode} {ts us : List Token}

theorem forall_operand (h : ∀ t ∈ ts, IsPrinted t) (place level : Nat) :
    ∀ t ∈ operand place level ts, IsPrinted t := by
  unfold operand
  split
  · exact h
  · have hclose : ∀ t ∈ ts ++ [symbol .R_PAREN], IsPrinted t := List.forall_mem_append.2
      ⟨h, List.forall_mem_singleton.2 (.symbol (by decide))⟩
    exact List.forall_mem_cons.2 ⟨.symbol (by decide), hclose⟩

theorem forall_renderArgs (args : List ASTNode) (h : ∀ a ∈ args, ∀ t ∈ render a, IsPrinted t) :
    ∀ t ∈ renderArgs args, IsPrinted t := by
  have hend : ∀ t ∈ [symbol .SEMICOLON], IsPrinted t :=
    List.forall_mem_singleton.2 (.symbol (by decide))
  induction args with
  | nil =>
      rw [renderArgs]
      exact hend
  | cons a args ih =>
      have hfirst := h a List.mem_cons_self
      have hmore := ih fun b hb => h b (List.mem_cons_of_mem a hb)
      cases args with
      | nil =>
          rw [renderArgs]
          exact List.forall_mem_append.2 ⟨hfirst, hend⟩
      | cons b args =>
          rw [renderArgs]
          · exact List.forall_mem_append.2
              ⟨hfirst, List.forall_mem_cons.2 ⟨.symbol (by decide), hmore⟩⟩
          · exact List.cons_ne_nil b args

theorem forall_renderStmts (stmts : List ASTNode) (h : ∀ a ∈ stmts, ∀ t ∈ render a, IsPrinted t) :
    ∀ t ∈ renderStmts stmts, IsPrinted t := by
  induction stmts with
  | nil =>
      rw [renderStmts]
      exact fun t ht => absurd ht List.not_mem_nil
  | cons a stmts ih =>
      rw [renderStmts]
      exact List.forall_mem_append.2 ⟨h a List.mem_cons_self,
        ih fun b hb => h b (List.mem_cons_of_mem a hb)⟩

/-- The operators of an expression have a text. -/
theorem op_mem {op : TokenType} (h : levelOfOp op ≤ 5) : op ∈ printedTypes := by
  cases op <;> first | decide | exact absurd h (by decide)

/-- An expression is printed in tokens that can be read again. -/
theorem IsExpr.isPrinted (h : IsExpr e) : ∀ t ∈ render e, IsPrinted t := by
  induction h with
  | @intLiteral n low high =>
      rw [render]
      exact List.forall_mem_singleton.2 (.number _)
  | @ident x =>
      rw [render]
      exact List.forall_mem_singleton.2 (.name x)
  | @funcCall x args each ih =>
      rw [render]
      exact List.forall_mem_cons.2 ⟨.name x, List.forall_mem_cons.2
        ⟨.symbol (by decide), forall_renderArgs args ih⟩⟩
  | @varAssign x e value ih =>
      rw [render]
      exact List.forall_mem_cons.2 ⟨.name x, List.forall_mem_cons.2 ⟨.symbol (by decide), ih⟩⟩
  | @unaryOp op e sign operand ih =>
      rw [render]
      have hop : op ∈ printedTypes := by
        rcases sign with rfl | rfl <;> decide
      exact List.forall_mem_cons.2 ⟨.symbol hop, forall_operand ih _ _⟩
  | @binaryOp op left right level first second ih ih' =>
      rw [render]
      exact List.forall_mem_append.2 ⟨forall_operand ih _ _,
        List.forall_mem_cons.2 ⟨.symbol (op_mem level), forall_operand ih' _ _⟩⟩

/-- A block of statements. -/
theorem forall_renderBlock (stmts : List ASTNode) (h : ∀ a ∈ stmts, ∀ t ∈ render a, IsPrinted t) :
    ∀ t ∈ render (.block stmts), IsPrinted t := by
  rw [render]
  exact List.forall_mem_cons.2 ⟨.symbol (by decide), List.forall_mem_append.2
    ⟨forall_renderStmts stmts h, List.forall_mem_singleton.2 (.symbol (by decide))⟩⟩

/-- So is a statement. -/
theorem IsStmt.isPrinted {a : ASTNode} (h : IsStmt a) : ∀ t ∈ render a, IsPrinted t := by
  induction h with
  | @varDecl x e value =>
      rw [render]
      exact List.forall_mem_cons.2 ⟨.symbol (by decide), List.forall_mem_cons.2
        ⟨.name x, List.forall_mem_cons.2 ⟨.symbol (by decide), value.isPrinted⟩⟩⟩
  | simple _ expr => exact expr.isPrinted
  | @ifThen e stmts condition each ih =>
      rw [render]
      exact List.forall_mem_cons.2 ⟨.symbol (by decide), List.forall_mem_cons.2
        ⟨.symbol (by decide), List.forall_mem_append.2 ⟨condition.isPrinted,
          List.forall_mem_cons.2 ⟨.symbol (by decide), forall_renderBlock stmts ih⟩⟩⟩⟩
  | @ifElse e stmts stmts' condition each each' ih ih' =>
      rw [render]
      exact List.forall_mem_cons.2 ⟨.symbol (by decide), List.forall_mem_cons.2
        ⟨.symbol (by decide), List.forall_mem_append.2 ⟨condition.isPrinted,
          List.forall_mem_cons.2 ⟨.symbol (by decide), List.forall_mem_append.2
            ⟨forall_renderBlock stmts ih, List.forall_mem_cons.2
              ⟨.symbol (by decide), forall_renderBlock stmts' ih'⟩⟩⟩⟩⟩⟩
  | @block stmts each ih => exact forall_renderBlock stmts ih

/-- A numeral is a token. -/
theorem number_isToken (n : Nat) : IsToken ⟨.NUMBER, toString n⟩ := by
  obtain ⟨hne, hdigits, -⟩ := toString_digits n
  refine isToken_of_lexeme (t := ⟨.NUMBER, toString n⟩) ?_
  show Lexeme .NUMBER (toString n).toList
  cases htext : (toString n).toList with
  | nil => exact absurd htext hne
  | cons c w =>
      rw [htext, List.forall_mem_cons] at hdigits
      exact .number hdigits.1 hdigits.2

end Printed

/-- The text of a list of tokens. -/
def textOf (ts : List Token) : List Char :=
  List.intercalate [' '] (ts.map fun t => t.content.toList)

/-- **A program that is printed is compiled to itself.**  Its tree is printed
as text with as few parentheses as its operators ask for; the lexer cuts the
text into the tokens that were printed, the parser makes the tree of them, and
`main` prints both. -/
theorem main_render {stmts : List ASTNode} (h : ∀ a ∈ stmts, IsStmt a)
    (hnames : ∀ t ∈ render (.program stmts), t.type = .IDENT → Lexeme .IDENT t.content.toList) :
    Lexer.tokenize (textOf (render (.program stmts))) = .ok (render (.program stmts)) ∧
    parseProgram (render (.program stmts)) = .ok (.program stmts) ∧
    main [textOf (render (.program stmts))] "" = .ok ()
      (tokenLines (render (.program stmts)) ++ printAST (.program stmts) 1) := by
  have hprinted : ∀ t ∈ render (.program stmts), IsPrinted t := by
    rw [render]
    exact forall_renderStmts stmts fun a ha => (h a ha).isPrinted
  have htokens : ∀ t ∈ render (.program stmts), IsToken t := by
    intro t ht
    cases hprinted t ht with
    | symbol mem => exact symbol_isToken mem
    | number n => exact number_isToken n
    | name x => exact isToken_of_lexeme (hnames _ ht rfl)
  have hlex : Lexer.tokenize (textOf (render (.program stmts))) = .ok (render (.program stmts)) :=
    tokenize_lexemes htokens
  have hparse := parseProgram_of_renders
    (renderStmts_program stmts [] fun a ha => (h a ha).printed)
  -- one argument is the code
  exact ⟨hlex, hparse, main_of_tokens hlex hparse⟩

/-- `x = (y + 1) * 2`. -/
def product : List ASTNode :=
  [.varAssign "x" (.binaryOp .STAR (.binaryOp .PLUS (.ident "y") (.intLiteral 1)) (.intLiteral 2))]

/-- An assignment with a product, printed and compiled. -/
theorem main_render_product :
    Lexer.tokenize (textOf (render (.program product))) = .ok (render (.program product)) ∧
    parseProgram (render (.program product)) = .ok (.program product) ∧
    main [textOf (render (.program product))] "" = .ok ()
      (tokenLines (render (.program product)) ++ printAST (.program product) 1) := by
  have hsum : IsExpr (.binaryOp .PLUS (.ident "y") (.intLiteral 1)) :=
    .binaryOp (by decide) .ident (.intLiteral (by decide) (by decide))
  have hassign : IsStmt (.varAssign "x" (.binaryOp .STAR
      (.binaryOp .PLUS (.ident "y") (.intLiteral 1)) (.intLiteral 2))) :=
    .simple rfl (.varAssign (.binaryOp (by decide) hsum (.intLiteral (by decide) (by decide))))
  have hnames : ∀ t ∈ render (.program product), t.type = .IDENT →
      t = ⟨.IDENT, "x"⟩ ∨ t = ⟨.IDENT, "y"⟩ := by
    decide +kernel
  refine main_render (List.forall_mem_singleton.2 hassign) fun t ht htype => ?_
  rcases hnames t ht htype with rfl | rfl
  · exact .word (c := 'x') (w := []) rfl (List.forall_mem_nil _)
  · exact .word (c := 'y') (w := []) rfl (List.forall_mem_nil _)

end SproutLang.Compiler
