/-
  SproutLang.Compiler.Tree
  ────────────────────────
  **TOKENS AND SYNTAX TREES** (`src/compiler/lexer.h`, `parser.h`).

  An `ASTNode*` is the tree it points to; the null pointer of an `if` without
  `else` is `none`.
-/
import SproutLang.Shared.Values

namespace SproutLang.Compiler

/-! ## §1. Tokens (`lexer.h`). -/

/-- The types of tokens. -/
inductive TokenType where
  | VAR | ARRAY | INT | FLOAT | BOOL | CHAR6
  | PRINT
  | IMPORT
  | IF | ELSE | WHILE
  | FUNC | RET
  | NUMBER | IDENT
  | PLUS | MINUS | STAR | SLASH
  | EQ | EQEQ | GREATER | LOWER | GREATER_EQ | LOWER_EQ | NOT_EQ
  | DOUBLE_AND | DOUBLE_VBAR
  | COLON | COMMA
  | DOUBLECOLON
  | SEMICOLON | NOT
  | L_PAREN | R_PAREN
  | L_SQR_BRKT | R_SQR_BRKT
  | L_CURL_BRKT | R_CURL_BRKT
  | ARR_RIGHT
  | UNKNOWN
  | END_OF_FILE
  deriving DecidableEq, Repr

/-- A token: its type and its text. -/
structure Token where
  type : TokenType
  content : String
  deriving DecidableEq, Repr

/-! ## §2. Trees (`parser.h`). -/

/-- The nodes of the syntax tree. -/
inductive ASTNode where
  | program (program : List ASTNode)
  | varDecl (identifier : String) (expression : ASTNode)
  | varAssign (identifier : String) (expression : ASTNode)
  | funcCall (identifier : String) (args : List ASTNode)
  | binaryOp (op : TokenType) (left right : ASTNode)
  | unaryOp (op : TokenType) (operand : ASTNode)
  | ident (identifier : String)
  | intLiteral (number : Int)
  | ifStmt (expression ifBlock : ASTNode) (elseBlock : Option ASTNode)
  | block (block : List ASTNode)

end SproutLang.Compiler
