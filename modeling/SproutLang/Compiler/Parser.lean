/-
  SproutLang.Compiler.Parser
  ──────────────────────────
  **THE PARSER** (`src/compiler/parser.h`, `parser.cpp`).

  A `TokenSource` is the list of the tokens from `pos` on.  The functions that
  call each other are written with the callee as a parameter, `expr` for
  `parseExpression` and `block` for `parseBlock`, and their loops and
  recursions count down `fuel`.  `parseProgram` gives them more fuel than there
  are tokens, which is enough (`parseProgram_eq_ok_iff`).
-/
import SproutLang.Compiler.Tree
import SproutLang.Library.Exec

namespace SproutLang.Compiler

open Library

/-! ## §1. The token source (`parser.h`). -/

/-- The exceptions of the parser and of the conversion it calls. -/
inductive ParseError where
  /-- `std::runtime_error`. -/
  | runtimeError (what : String)
  /-- `std::invalid_argument`, thrown by `stoll`. -/
  | invalidArgument
  /-- `std::out_of_range`, thrown by `stoll`. -/
  | outOfRange
  /-- Not of the source: the model's counter is used up. -/
  | outOfFuel
  deriving DecidableEq, Repr

/-- The tokens from `pos` on. -/
abbrev TokenSource := List Token

/-- A parsing function. -/
abbrev Parse := EStateM ParseError TokenSource

/-- The token at `pos`. -/
def front : TokenSource → Token
  | [] => ⟨.END_OF_FILE, ""⟩
  | t :: _ => t

/-- The token at `pos`, which stays. -/
def peek : Parse Token := fun s => .ok (front s) s

/-- The token at `pos`, and on to the next one. -/
def advance : Parse Token := fun s => .ok (front s) s.tail

/-- A token of the given type, or an exception. -/
def expect (expected : TokenType) : Parse Token := fun s =>
  match s with
  | [] => .error (.runtimeError "Unexpected end of input") []
  | t :: s =>
      if t.type = expected then .ok t s
      else .error (.runtimeError "Other token expected!") (t :: s)

/-! ## §2. `std::stoll`. -/

/-- `isspace` in the C locale. -/
def isSpace (c : Char) : Bool := c = ' ' || ('\t' ≤ c && c ≤ '\r')

/-- The number a run of digits stands for. -/
def digitsValue (ds : List Char) : Nat := ds.foldl (fun n d => 10 * n + (d.toNat - '0'.toNat)) 0

/-- `std::stoll`: leading whitespace, a sign and the digits up to the first
other character. -/
def stoll (content : String) : Except ParseError Int :=
  let text := content.toList.dropWhile isSpace
  -- one sign at most
  let unsigned := if text.head? = some '-' ∨ text.head? = some '+' then text.tail else text
  let digits := unsigned.takeWhile Char.isDigit
  let number : Int := if text.head? = some '-' then -digitsValue digits else digitsValue digits
  if digits = [] then .error .invalidArgument
  else if -2 ^ 63 ≤ number ∧ number < 2 ^ 63 then .ok number
  else .error .outOfRange

/-- The value of a NUMBER token. -/
def readNumber (t : Token) : Parse Int := fun s =>
  match stoll t.content with
  | .ok n => .ok n s
  | .error e => .error e s

/-! ## §3. Expressions. -/

/-- The loop over the arguments of a call, up to the semicolon. -/
def argLoop (expr : Parse ASTNode) : Nat → List ASTNode → Parse (List ASTNode)
  | 0, _ => throw .outOfFuel
  | fuel + 1, args => do
      let t ← peek
      if t.type = .SEMICOLON then return args
      else do
        -- a comma may come last: the loop ends at the semicolon behind it
        let arg ← expr
        let next ← peek
        if next.type = .COMMA then do
          let _ ← advance
          argLoop expr fuel (args ++ [arg])
        else if next.type = .SEMICOLON then argLoop expr fuel (args ++ [arg])
        else throw (.runtimeError ("Expected ',' or ';' in argument list, got: " ++ next.content))

/-- The rest of a call whose name is `identifier`, behind the colon. -/
def finishCall (expr : Parse ASTNode) (fuel : Nat) (identifier : String) (args : List ASTNode) :
    Parse ASTNode := do
  let args ← argLoop expr fuel args
  -- the semicolon belongs to the call
  let _ ← advance
  return .funcCall identifier args

/-- A number, a call, an assignment, an identifier or an expression in
parentheses. -/
def parsePrimary (expr : Parse ASTNode) (fuel : Nat) : Parse ASTNode := do
  let t ← peek
  if t.type = .NUMBER then do
    let _ ← advance
    -- a number of more than 63 bits is refused here
    let number ← readNumber t
    return .intLiteral number
  else if t.type = .IDENT then do
    let _ ← advance
    let next ← peek
    if next.type = .COLON then do
      let _ ← advance
      finishCall expr fuel t.content []
    else if next.type = .EQ then do
      let _ ← expect .EQ
      let value ← expr
      return .varAssign t.content value
    else return .ident t.content
  else if t.type = .L_PAREN then do
    let _ ← advance
    -- no node of its own
    let inner ← expr
    let _ ← expect .R_PAREN
    return inner
  else throw (.runtimeError ("Unexpected token: " ++ t.content))

/-- Signs, and the primary behind them. -/
def parseUnary (expr : Parse ASTNode) : Nat → Parse ASTNode
  | 0 => throw .outOfFuel
  | fuel + 1 => do
      let t ← peek
      if t.type = .MINUS ∨ t.type = .NOT then do
        let op ← advance
        let operand ← parseUnary expr fuel
        return .unaryOp op.type operand
      else parsePrimary expr fuel

/-- The loop `while (peek(s).type is one of ops)` of the four binary levels. -/
def binaryLoop (ops : TokenType → Bool) (operand : Parse ASTNode) : Nat → ASTNode → Parse ASTNode
  | 0, _ => throw .outOfFuel
  | fuel + 1, left => do
      let t ← peek
      if ops t.type then do
        let op ← advance
        let right ← operand
        binaryLoop ops operand fuel (.binaryOp op.type left right)
      else return left

/-- A binary level: an operand and then the loop. -/
def parseBinary (ops : TokenType → Bool) (operand : Parse ASTNode) (fuel : Nat) :
    Parse ASTNode := do
  let left ← operand
  binaryLoop ops operand fuel left

/-- Operators of `parseMultiplicative`. -/
def multiplicativeOps (t : TokenType) : Bool := t = .STAR || t = .SLASH

/-- Operators of `parseAdditive`. -/
def additiveOps (t : TokenType) : Bool := t = .PLUS || t = .MINUS

/-- Operators of `parseComparison`; `<=` and `>=` are not among them. -/
def comparisonOps (t : TokenType) : Bool := t = .EQEQ || t = .NOT_EQ || t = .GREATER || t = .LOWER

/-- Operators of `parseLogical`. -/
def logicalOps (t : TokenType) : Bool := t = .DOUBLE_AND || t = .DOUBLE_VBAR

/-- Products and quotients. -/
def parseMultiplicative (expr : Parse ASTNode) (fuel : Nat) : Parse ASTNode :=
  parseBinary multiplicativeOps (parseUnary expr fuel) fuel

/-- Sums and differences. -/
def parseAdditive (expr : Parse ASTNode) (fuel : Nat) : Parse ASTNode :=
  parseBinary additiveOps (parseMultiplicative expr fuel) fuel

/-- Comparisons. -/
def parseComparison (expr : Parse ASTNode) (fuel : Nat) : Parse ASTNode :=
  parseBinary comparisonOps (parseAdditive expr fuel) fuel

/-- Conjunctions and disjunctions, on one level. -/
def parseLogical (expr : Parse ASTNode) (fuel : Nat) : Parse ASTNode :=
  parseBinary logicalOps (parseComparison expr fuel) fuel

/-- An expression; every expression inside takes a unit of fuel. -/
def parseExpression : Nat → Parse ASTNode
  | 0 => throw .outOfFuel
  | fuel + 1 => parseLogical (parseExpression fuel) fuel

/-! ## §4. Statements. -/

/-- `-> type`; the token behind the arrow is not looked at. -/
def skipType : Parse Unit := do
  let t ← peek
  if t.type = .ARR_RIGHT then do
    let _ ← advance
    let _ ← advance
    return ()
  else return ()

/-- `var`, a name, perhaps a type, and the value. -/
def parseVarDecl (fuel : Nat) : Parse ASTNode := do
  let _ ← expect .VAR
  let name ← peek
  let _ ← expect .IDENT
  skipType
  let _ ← expect .EQ
  let expr ← parseExpression fuel
  return .varDecl name.content expr

/-- `if`, a condition, a block, and perhaps an `else` block. -/
def parseIfStmt (block : Parse ASTNode) (fuel : Nat) : Parse ASTNode := do
  let _ ← expect .IF
  let _ ← expect .L_PAREN
  let expr ← parseExpression fuel
  let _ ← expect .R_PAREN
  let ifBlock ← block
  -- only the token behind the block tells the two forms apart
  let next ← peek
  if next.type = .ELSE then do
    let _ ← expect .ELSE
    let elseBlock ← block
    return .ifStmt expr ifBlock (some elseBlock)
  else return .ifStmt expr ifBlock none

/-- The `switch` of `parseBlock` and `parseProgram`; its default branch drops
the token. -/
def parseStatement (block : Parse ASTNode) (fuel : Nat) : Parse (Option ASTNode) := do
  let t ← peek
  match t.type with
  | .VAR => do
      let stmt ← parseVarDecl fuel
      return some stmt
  | .L_CURL_BRKT => do
      let stmt ← block
      return some stmt
  | .IF => do
      let stmt ← parseIfStmt block fuel
      return some stmt
  | .IDENT => do
      let stmt ← parsePrimary (parseExpression fuel) fuel
      return some stmt
  | _ => do
      -- a token no statement starts with, a semicolon among them
      let _ ← advance
      return none

/-- The loop of `parseBlock`; the statements inside have the fuel `inner`. -/
def blockLoop (block : Parse ASTNode) (inner : Nat) : Nat → List ASTNode → Parse (List ASTNode)
  | 0, _ => throw .outOfFuel
  | fuel + 1, stmts => do
      let t ← peek
      if t.type = .R_CURL_BRKT then return stmts
      -- behind the last token `peek` makes up an end-of-file token
      else if t.type = .END_OF_FILE then
        throw (.runtimeError "Unexpected EOF inside block, expected '\x7d'")
      else do
        let stmt ← parseStatement block inner
        blockLoop block inner fuel (stmts ++ stmt.toList)

/-- The rest of a block with the statements `stmts` so far. -/
def finishBlock (block : Parse ASTNode) (inner fuel : Nat) (stmts : List ASTNode) :
    Parse ASTNode := do
  let stmts ← blockLoop block inner fuel stmts
  let _ ← expect .R_CURL_BRKT
  return .block stmts

/-- The statements between two brackets; every block inside takes a unit of
fuel. -/
def parseBlock : Nat → Parse ASTNode
  | 0 => throw .outOfFuel
  | fuel + 1 => do
      let _ ← expect .L_CURL_BRKT
      finishBlock (parseBlock fuel) fuel fuel []

/-- The loop of `parseProgram`, up to the last token. -/
def programLoop (inner : Nat) : Nat → List ASTNode → Parse ASTNode
  | 0, _ => throw .outOfFuel
  | fuel + 1, stmts => do
      let s ← get
      match s with
      | [] => return .program stmts
      | _ :: _ => do
          -- a call among statements has taken its semicolon already
          let stmt ← parseStatement (parseBlock inner) inner
          programLoop inner fuel (stmts ++ stmt.toList)

/-- The tree of a token list. -/
def parseProgram (tokens : List Token) : Except ParseError ASTNode :=
  match programLoop (tokens.length + 2) (tokens.length + 2) [] tokens with
  | .ok program _ => .ok program
  | .error e _ => .error e

end SproutLang.Compiler
