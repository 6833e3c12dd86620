/-
  SproutLang.Compiler.Printing
  ────────────────────────────
  **PRINTING A TREE AND PARSING IT BACK.**

  `render` writes a tree with as few parentheses as its operators ask for and
  nothing between two statements.  `parseProgram_render` reads the program
  back: the printed tokens are one of the ways to write it (`Renders`), and
  those are read to their end.
-/
import SproutLang.Compiler.Programs

namespace SproutLang.Compiler

/-! ## §1. The printer. -/

/-- The text of the tokens that have one text only (`lexer.cpp`). -/
def TokenType.text : TokenType → String
  | .VAR => "var" | .IF => "if" | .ELSE => "else"
  | .PLUS => "+" | .MINUS => "-" | .STAR => "*" | .SLASH => "/"
  | .EQ => "=" | .EQEQ => "==" | .GREATER => ">" | .LOWER => "<"
  | .GREATER_EQ => ">=" | .LOWER_EQ => "<=" | .NOT_EQ => "!="
  | .DOUBLE_AND => "&&" | .DOUBLE_VBAR => "||"
  | .COLON => ":" | .COMMA => "," | .SEMICOLON => ";" | .NOT => "!"
  | .L_PAREN => "(" | .R_PAREN => ")"
  | .L_CURL_BRKT => "\x7b" | .R_CURL_BRKT => "\x7d"
  | _ => ""

/-- The token of a type with a fixed text. -/
def symbol (type : TokenType) : Token := ⟨type, type.text⟩

/-- The level of a binary operator. -/
def levelOfOp (op : TokenType) : Nat :=
  if multiplicativeOps op then 2 else if additiveOps op then 3
  else if comparisonOps op then 4 else if logicalOps op then 5 else 6

/-- The level of an expression; an assignment is below all operators. -/
def levelOf : ASTNode → Nat
  | .intLiteral _ | .ident _ | .funcCall _ _ => 0
  | .unaryOp _ _ => 1
  | .binaryOp op _ _ => levelOfOp op
  | _ => 6

/-- An expression in a place for level `place`. -/
def operand (place level : Nat) (ts : List Token) : List Token :=
  if level ≤ place then ts else symbol .L_PAREN :: (ts ++ [symbol .R_PAREN])

mutual

/-- **The tokens of a tree.** -/
def render : ASTNode → List Token
  | .program stmts => renderStmts stmts
  | .block stmts => symbol .L_CURL_BRKT :: (renderStmts stmts ++ [symbol .R_CURL_BRKT])
  | .varDecl x e => symbol .VAR :: ⟨.IDENT, x⟩ :: symbol .EQ :: render e
  | .varAssign x e => ⟨.IDENT, x⟩ :: symbol .EQ :: render e
  | .funcCall x args => ⟨.IDENT, x⟩ :: symbol .COLON :: renderArgs args
  | .binaryOp op left right =>
      operand (levelOfOp op) (levelOf left) (render left)
        ++ symbol op :: operand (levelOfOp op - 1) (levelOf right) (render right)
  | .unaryOp op e => symbol op :: operand 1 (levelOf e) (render e)
  | .ident x => [⟨.IDENT, x⟩]
  | .intLiteral n => [⟨.NUMBER, toString n.toNat⟩]
  | .ifStmt e b none => symbol .IF :: symbol .L_PAREN :: (render e ++ symbol .R_PAREN :: render b)
  | .ifStmt e b (some c) =>
      symbol .IF :: symbol .L_PAREN ::
        (render e ++ symbol .R_PAREN :: (render b ++ symbol .ELSE :: render c))

/-- Arguments, with the semicolon that ends them. -/
def renderArgs : List ASTNode → List Token
  | [] => [symbol .SEMICOLON]
  | [a] => render a ++ [symbol .SEMICOLON]
  | a :: args => render a ++ symbol .COMMA :: renderArgs args

/-- Statements, one behind the other. -/
def renderStmts : List ASTNode → List Token
  | [] => []
  | a :: stmts => render a ++ renderStmts stmts

end

/-! ## §2. The trees. -/

/-- **The expressions of the language.** -/
inductive IsExpr : ASTNode → Prop
  | intLiteral {n : Int} (low : 0 ≤ n) (high : n < 2 ^ 63) : IsExpr (.intLiteral n)
  | ident {x : String} : IsExpr (.ident x)
  | funcCall {x : String} {args : List ASTNode} (each : ∀ a ∈ args, IsExpr a) :
      IsExpr (.funcCall x args)
  | varAssign {x : String} {e : ASTNode} (value : IsExpr e) : IsExpr (.varAssign x e)
  | unaryOp {op : TokenType} {e : ASTNode} (sign : op = .MINUS ∨ op = .NOT) (operand : IsExpr e) :
      IsExpr (.unaryOp op e)
  | binaryOp {op : TokenType} {left right : ASTNode} (level : levelOfOp op ≤ 5)
      (first : IsExpr left) (second : IsExpr right) : IsExpr (.binaryOp op left right)

/-- The expressions that are statements. -/
def isSimpleStmt : ASTNode → Bool
  | .ident _ | .funcCall _ _ | .varAssign _ _ => true
  | _ => false

/-- **The statements of the language.** -/
inductive IsStmt : ASTNode → Prop
  | varDecl {x : String} {e : ASTNode} (value : IsExpr e) : IsStmt (.varDecl x e)
  | simple {e : ASTNode} (simple : isSimpleStmt e = true) (expr : IsExpr e) : IsStmt e
  | ifThen {e : ASTNode} {stmts : List ASTNode} (condition : IsExpr e)
      (each : ∀ a ∈ stmts, IsStmt a) : IsStmt (.ifStmt e (.block stmts) none)
  | ifElse {e : ASTNode} {stmts stmts' : List ASTNode} (condition : IsExpr e)
      (each : ∀ a ∈ stmts, IsStmt a) (each' : ∀ a ∈ stmts', IsStmt a) :
      IsStmt (.ifStmt e (.block stmts) (some (.block stmts')))
  | block {stmts : List ASTNode} (each : ∀ a ∈ stmts, IsStmt a) : IsStmt (.block stmts)

/-! ## §3. What is printed is written. -/

/-- The digits of a number and the number they spell. -/
theorem toString_digits (n : Nat) : (toString n).toList ≠ [] ∧
    (∀ c ∈ (toString n).toList, c.isDigit = true) ∧ digitsValue (toString n).toList = n := by
  have htext : (toString n).toList = Nat.toDigits 10 n := Nat.toList_repr
  rw [htext]
  refine ⟨Nat.toDigits_ne_nil, ?_, Nat.ofDigitChars_ten_toDigits⟩
  intro c hc
  exact Nat.isDigit_of_mem_toDigits (by decide) (by decide) hc

/-- A printed number is read as itself. -/
theorem isNumeral_toString {n : Int} (h : 0 ≤ n) : IsNumeral (toString n.toNat) n := by
  obtain ⟨hne, hdigits, hvalue⟩ := toString_digits n.toNat
  refine ⟨hne, hdigits, ?_⟩
  rw [hvalue]
  omega

/-- A binary operator belongs to its level. -/
theorem opsAt_levelOfOp {op : TokenType} (h : levelOfOp op ≤ 5) :
    ∃ p, levelOfOp op = p + 2 ∧ opsAt (p + 2) op = true := by
  have hall : ∀ op : TokenType, levelOfOp op ≤ 5 →
      (levelOfOp op = 2 ∧ opsAt 2 op = true) ∨ (levelOfOp op = 3 ∧ opsAt 3 op = true) ∨
        (levelOfOp op = 4 ∧ opsAt 4 op = true) ∨ (levelOfOp op = 5 ∧ opsAt 5 op = true) := by
    intro op
    cases op <;> decide
  rcases hall op h with ⟨hl, ho⟩ | ⟨hl, ho⟩ | ⟨hl, ho⟩ | ⟨hl, ho⟩
  · exact ⟨0, hl, ho⟩
  · exact ⟨1, hl, ho⟩
  · exact ⟨2, hl, ho⟩
  · exact ⟨3, hl, ho⟩

/-- An expression is written at its level, closed, and in any way at the
lowest one. -/
structure Printed (e : ASTNode) : Prop where
  closed : levelOf e ≤ 5 → Renders (.expr (levelOf e) false) e (render e)
  full : ∃ o, Renders (.expr 5 o) e (render e)

/-- An expression printed at its own level is printed at every level. -/
theorem Printed.of_closed {e : ASTNode} (hlevel : levelOf e ≤ 5)
    (h : Renders (.expr (levelOf e) false) e (render e)) : Printed e :=
  ⟨fun _ => h, false, h.lift_le hlevel⟩

/-- Parentheses where the place asks for them. -/
theorem Printed.operand {e : ASTNode} (h : Printed e) {place : Nat} (hplace : place ≤ 5) :
    Renders (.expr place false) e (operand place (levelOf e) (render e)) := by
  unfold Compiler.operand
  split
  · rename_i hle
    exact (h.closed (hle.trans hplace)).lift_le hle
  · obtain ⟨o, hfull⟩ := h.full
    have hparen : Renders (.expr 0 false) e
        (symbol .L_PAREN :: (render e ++ [symbol .R_PAREN])) := .paren rfl hfull rfl
    exact hparen.lift_le (Nat.zero_le place)

/-- Printed arguments are read one after the other. -/
theorem renderArgs_written {x : String} (args : List ASTNode) :
    ∀ before, (∀ a ∈ args, Printed a) →
      Renders (.args x before) (.funcCall x (before ++ args)) (renderArgs args) := by
  induction args with
  | nil =>
      intro before _
      rw [List.append_nil]
      exact .argsEnd rfl
  | cons a args ih =>
      intro before hargs
      rw [List.forall_mem_cons] at hargs
      obtain ⟨o, ha⟩ := hargs.1.full
      -- the last argument has no comma behind it
      cases args with
      | nil => exact .argsLast ha rfl
      | cons b args =>
          have hrest := ih (before ++ [a]) hargs.2
          rw [List.append_assoc, List.singleton_append] at hrest
          exact .argsComma ha rfl hrest

/-- **An expression is printed in one of the ways to write it.** -/
theorem IsExpr.printed {e : ASTNode} (h : IsExpr e) : Printed e := by
  induction h with
  | @intLiteral n low high =>
      exact .of_closed (Nat.zero_le 5) (.number rfl (isNumeral_toString low) high)
  | @ident x => exact .of_closed (Nat.zero_le 5) (.ident (t := ⟨.IDENT, x⟩) rfl)
  | @funcCall x args _ ih =>
      exact .of_closed (Nat.zero_le 5)
        (.call (t := ⟨.IDENT, x⟩) rfl rfl (renderArgs_written args [] ih))
  | @varAssign x e _ ih =>
      -- an assignment is open at its right end
      refine ⟨fun hlevel => absurd hlevel (show ¬ 6 ≤ 5 by decide), true, ?_⟩
      obtain ⟨o, hvalue⟩ := ih.full
      have hassign : Renders (.expr 0 true) (.varAssign x e) (render (.varAssign x e)) :=
        .assign (t := ⟨.IDENT, x⟩) rfl rfl hvalue
      exact hassign.lift_le (by decide)
  | @unaryOp op e hop _ ih =>
      exact .of_closed (show 1 ≤ 5 by decide)
        (.unary (t := symbol op) hop (ih.operand (by decide)))
  | @binaryOp op left right hop _ _ ih₁ ih₂ =>
      obtain ⟨p, hlevel, hat⟩ := opsAt_levelOfOp hop
      have hbinary : Renders (.expr (p + 2) false) (.binaryOp op left right)
          (operand (p + 2) (levelOf left) (render left)
            ++ symbol op :: operand (p + 1) (levelOf right) (render right)) :=
        .binary (t := symbol op) (ih₁.operand (by omega)) hat (ih₂.operand (by omega))
      refine .of_closed hop ?_
      show Renders (.expr (levelOfOp op) false) _ (Compiler.operand (levelOfOp op) (levelOf left) (render left)
        ++ symbol op :: Compiler.operand (levelOfOp op - 1) (levelOf right) (render right))
      -- the left operand may be of the operator's level, the right one is of one below
      rw [hlevel]
      exact hbinary

/-- So are the statements of a block. -/
theorem renderStmts_block (stmts : List ASTNode) :
    ∀ before, (∀ a ∈ stmts, RendersStmt .stmt a (render a)) →
      RendersStmt (.block before) (.block (before ++ stmts))
        (renderStmts stmts ++ [symbol .R_CURL_BRKT]) := by
  induction stmts with
  | nil =>
      intro before _
      rw [List.append_nil]
      exact .blockEnd rfl
  | cons a stmts ih =>
      intro before hstmts
      rw [List.forall_mem_cons] at hstmts
      have hrest := ih (before ++ [a]) hstmts.2
      rw [List.append_assoc, List.singleton_append] at hrest
      show RendersStmt (.block before) _ ((render a ++ renderStmts stmts) ++ [symbol .R_CURL_BRKT])
      rw [List.append_assoc]
      exact .blockStmt hstmts.1 hrest

/-- So are those of a program. -/
theorem renderStmts_program (stmts : List ASTNode) :
    ∀ before, (∀ a ∈ stmts, RendersStmt .stmt a (render a)) →
      RendersStmt (.program before) (.program (before ++ stmts)) (renderStmts stmts) := by
  induction stmts with
  | nil =>
      intro before _
      rw [List.append_nil]
      exact .programEnd
  | cons a stmts ih =>
      intro before hstmts
      rw [List.forall_mem_cons] at hstmts
      have hrest := ih (before ++ [a]) hstmts.2
      rw [List.append_assoc, List.singleton_append] at hrest
      exact .programStmt hstmts.1 hrest

/-- A simple statement is written on level 0, from its identifier on. -/
theorem simple_written {e : ASTNode} (hsimple : isSimpleStmt e = true) (h : IsExpr e) :
    ∃ o, Renders (.expr 0 o) e (render e) ∧ (front (render e)).type = .IDENT := by
  cases h with
  | ident => exact ⟨false, IsExpr.ident.printed.closed (Nat.zero_le 5), rfl⟩
  | funcCall hargs => exact ⟨false, (IsExpr.funcCall hargs).printed.closed (Nat.zero_le 5), rfl⟩
  | @varAssign x e value =>
      obtain ⟨o, hvalue⟩ := value.printed.full
      exact ⟨true, .assign (t := ⟨.IDENT, x⟩) rfl rfl hvalue, rfl⟩
  | intLiteral | unaryOp | binaryOp => exact absurd hsimple Bool.false_ne_true

/-- **A statement is printed in one of the ways to write it.** -/
theorem IsStmt.printed {a : ASTNode} (h : IsStmt a) : RendersStmt .stmt a (render a) := by
  induction h with
  | @varDecl x e value =>
      obtain ⟨o, hvalue⟩ := value.printed.full
      exact .varDecl (x := ⟨.IDENT, x⟩) rfl rfl rfl hvalue
  | simple hsimple expr =>
      obtain ⟨o, hwritten, hident⟩ := simple_written hsimple expr
      exact .primary hident hwritten
  | @ifThen e stmts condition _ ih =>
      obtain ⟨o, hcondition⟩ := condition.printed.full
      exact .ifThen rfl rfl hcondition rfl rfl (renderStmts_block stmts [] ih)
  | @ifElse e stmts stmts' condition _ _ ih₁ ih₂ =>
      obtain ⟨o, hcondition⟩ := condition.printed.full
      exact .ifElse rfl rfl hcondition rfl rfl (renderStmts_block stmts [] ih₁) rfl rfl
        (renderStmts_block stmts' [] ih₂)
  | @block stmts _ ih => exact .block rfl (renderStmts_block stmts [] ih)

/-! ## §4. Parsing undoes printing. -/

/-- **Parsing undoes printing** for every program of the language. -/
theorem parseProgram_render {stmts : List ASTNode} (h : ∀ a ∈ stmts, IsStmt a) :
    parseProgram (render (.program stmts)) = .ok (.program stmts) := by
  have hwritten := renderStmts_program stmts [] fun a ha => (h a ha).printed
  exact parseProgram_of_renders hwritten

/-- `x = (y = 1) * -(2 - z)`, `f: x, g: ;;` and `if (!x) { x } else { }`. -/
def sample : List ASTNode :=
  [.varAssign "x" (.binaryOp .STAR (.varAssign "y" (.intLiteral 1))
      (.unaryOp .MINUS (.binaryOp .MINUS (.intLiteral 2) (.ident "z")))),
    .funcCall "f" [.ident "x", .funcCall "g" []],
    .ifStmt (.unaryOp .NOT (.ident "x")) (.block [.ident "x"]) (some (.block []))]

/-- A program with nested parts, printed and parsed. -/
theorem parseProgram_render_sample :
    parseProgram (render (.program sample)) = .ok (.program sample) := by
  have hg : IsExpr (.funcCall "g" []) := .funcCall (by simp)
  have hdifference : IsExpr (.binaryOp .MINUS (.intLiteral 2) (.ident "z")) :=
    .binaryOp (by decide) (.intLiteral (by decide) (by decide)) .ident
  have hproduct : IsExpr (.binaryOp .STAR (.varAssign "y" (.intLiteral 1))
      (.unaryOp .MINUS (.binaryOp .MINUS (.intLiteral 2) (.ident "z")))) :=
    .binaryOp (by decide) (.varAssign (.intLiteral (by decide) (by decide)))
      (.unaryOp (Or.inl rfl) hdifference)
  refine parseProgram_render (List.forall_mem_cons.2 ⟨.simple rfl (.varAssign hproduct),
    List.forall_mem_cons.2 ⟨.simple rfl (.funcCall ?_), List.forall_mem_cons.2 ⟨?_, by simp⟩⟩⟩)
  · exact List.forall_mem_cons.2 ⟨.ident, List.forall_mem_cons.2 ⟨hg, by simp⟩⟩
  · exact .ifElse (.unaryOp (Or.inr rfl) .ident)
      (List.forall_mem_cons.2 ⟨.simple rfl .ident, by simp⟩) (by simp)

end SproutLang.Compiler
