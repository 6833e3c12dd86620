/-
  SproutLang.Compiler.Termination
  ───────────────────────────────
  **THE PARSER TERMINATES.**

  A `Place` is a function of the parser, or one of its loops with what it has
  so far.  `Calls` has one rule for each recursive call and for each round of
  a loop, with the tokens looked at and what was read before as premises.

    • `Calls.decreases` — each of them lowers (remaining tokens, grammar level),
    • `ends_of_calls`   — a place ends if the places it calls end,
    • `parseProgram_terminates` — so the parser ends on every token list.
-/
import SproutLang.Compiler.Statements
import SproutLang.Library.Fuel

namespace SproutLang.Compiler

open Library

/-! ## §1. Calls and rounds. -/

/-- A function of the parser, or a loop of one. -/
inductive Place where
  | expr (g : Goal)
  | stmt (g : StmtGoal)

/-- **One rule for each recursive call and each round of a loop.** -/
inductive Calls : Place × TokenSource → Place × TokenSource → Prop
  -- `parsePrimary`
  | arguments {t colon : Token} {s : TokenSource} (type : t.type = .IDENT)
      (hcolon : colon.type = .COLON) :
      Calls (.expr (.level 0), t :: colon :: s) (.expr (.args t.content []), s)
  | assigned {t eq : Token} {s : TokenSource} (type : t.type = .IDENT) (heq : eq.type = .EQ) :
      Calls (.expr (.level 0), t :: eq :: s) (.expr (.level 5), s)
  | paren {l : Token} {s : TokenSource} (left : l.type = .L_PAREN) :
      Calls (.expr (.level 0), l :: s) (.expr (.level 5), s)
  -- the loop over the arguments
  | argument {x : String} {args : List ASTNode} {s : TokenSource}
      (more : (front s).type ≠ .SEMICOLON) : Calls (.expr (.args x args), s) (.expr (.level 5), s)
  | nextArgument {x : String} {args : List ASTNode} {a : ASTNode} {comma : Token}
      {s s₁ : TokenSource} (more : (front s).type ≠ .SEMICOLON)
      (arg : Reads (.level 5) s a (comma :: s₁)) (hcomma : comma.type = .COMMA) :
      Calls (.expr (.args x args), s) (.expr (.args x (args ++ [a])), s₁)
  | lastArgument {x : String} {args : List ASTNode} {a : ASTNode} {t : Token} {s s₁ : TokenSource}
      (more : (front s).type ≠ .SEMICOLON) (arg : Reads (.level 5) s a (t :: s₁))
      (type : t.type = .SEMICOLON) :
      Calls (.expr (.args x args), s) (.expr (.args x (args ++ [a])), t :: s₁)
  -- `parseUnary` and the binary levels
  | sign {t : Token} {s : TokenSource} (type : t.type = .MINUS ∨ t.type = .NOT) :
      Calls (.expr (.level 1), t :: s) (.expr (.level 1), s)
  | primary {s : TokenSource} (noSign : ¬ ((front s).type = .MINUS ∨ (front s).type = .NOT)) :
      Calls (.expr (.level 1), s) (.expr (.level 0), s)
  | leftOperand {n : Nat} {s : TokenSource} :
      Calls (.expr (.level (n + 2)), s) (.expr (.level (n + 1)), s)
  | operators {n : Nat} {left : ASTNode} {s s₁ : TokenSource}
      (first : Reads (.level (n + 1)) s left s₁) :
      Calls (.expr (.level (n + 2)), s) (.expr (.loop (n + 2) left), s₁)
  | rightOperand {n : Nat} {left : ASTNode} {t : Token} {s : TokenSource}
      (op : opsAt (n + 2) t.type = true) :
      Calls (.expr (.loop (n + 2) left), t :: s) (.expr (.level (n + 1)), s)
  | nextOperator {n : Nat} {left right : ASTNode} {t : Token} {s s₁ : TokenSource}
      (op : opsAt (n + 2) t.type = true) (operand : Reads (.level (n + 1)) s right s₁) :
      Calls (.expr (.loop (n + 2) left), t :: s)
        (.expr (.loop (n + 2) (.binaryOp t.type left right)), s₁)
  -- the statements
  | varDecl {v x eq : Token} {s : TokenSource} (hv : v.type = .VAR) (hx : x.type = .IDENT)
      (heq : eq.type = .EQ) : Calls (.stmt .stmt, v :: x :: eq :: s) (.expr (.level 5), s)
  | varDeclTyped {v x arrow type eq : Token} {s : TokenSource} (hv : v.type = .VAR)
      (hx : x.type = .IDENT) (harrow : arrow.type = .ARR_RIGHT) (heq : eq.type = .EQ) :
      Calls (.stmt .stmt, v :: x :: arrow :: type :: eq :: s) (.expr (.level 5), s)
  | primaryStmt {s : TokenSource} (ident : (front s).type = .IDENT) :
      Calls (.stmt .stmt, s) (.expr (.level 0), s)
  | blockStmt {l : Token} {s : TokenSource} (left : l.type = .L_CURL_BRKT) :
      Calls (.stmt .stmt, l :: s) (.stmt (.block []), s)
  | condition {i p : Token} {s : TokenSource} (hi : i.type = .IF) (hp : p.type = .L_PAREN) :
      Calls (.stmt .stmt, i :: p :: s) (.expr (.level 5), s)
  | ifBlock {i p r l : Token} {s s₁ : TokenSource} {e : ASTNode} (hi : i.type = .IF)
      (hp : p.type = .L_PAREN) (condition : Reads (.level 5) s e (r :: l :: s₁))
      (hr : r.type = .R_PAREN) (hl : l.type = .L_CURL_BRKT) :
      Calls (.stmt .stmt, i :: p :: s) (.stmt (.block []), s₁)
  | elseBlock {i p r l els l' : Token} {s s₁ s₂ : TokenSource} {e b : ASTNode}
      {events : List Event} (hi : i.type = .IF) (hp : p.type = .L_PAREN)
      (condition : Reads (.level 5) s e (r :: l :: s₁)) (hr : r.type = .R_PAREN)
      (hl : l.type = .L_CURL_BRKT) (ifBlock : ReadsStmt (.block []) s₁ b (els :: l' :: s₂) events)
      (hels : els.type = .ELSE) (hl' : l'.type = .L_CURL_BRKT) :
      Calls (.stmt .stmt, i :: p :: s) (.stmt (.block []), s₂)
  -- the loops of blocks and of the program
  | inBlock {stmts : List ASTNode} {t : Token} {s : TokenSource}
      (starts : startsStatement t.type = true) :
      Calls (.stmt (.block stmts), t :: s) (.stmt .stmt, t :: s)
  | nextInBlock {stmts : List ASTNode} {a : ASTNode} {t : Token} {s s₁ : TokenSource}
      {events : List Event} (starts : startsStatement t.type = true)
      (stmt : ReadsStmt .stmt (t :: s) a s₁ events) :
      Calls (.stmt (.block stmts), t :: s) (.stmt (.block (stmts ++ [a])), s₁)
  | skipInBlock {stmts : List ASTNode} {t : Token} {s : TokenSource}
      (drops : startsStatement t.type = false) (noEnd : t.type ≠ .R_CURL_BRKT)
      (noFile : t.type ≠ .END_OF_FILE) :
      Calls (.stmt (.block stmts), t :: s) (.stmt (.block stmts), s)
  | inProgram {stmts : List ASTNode} {t : Token} {s : TokenSource}
      (starts : startsStatement t.type = true) :
      Calls (.stmt (.program stmts), t :: s) (.stmt .stmt, t :: s)
  | nextInProgram {stmts : List ASTNode} {a : ASTNode} {t : Token} {s s₁ : TokenSource}
      {events : List Event} (starts : startsStatement t.type = true)
      (stmt : ReadsStmt .stmt (t :: s) a s₁ events) :
      Calls (.stmt (.program stmts), t :: s) (.stmt (.program (stmts ++ [a])), s₁)
  | skipInProgram {stmts : List ASTNode} {t : Token} {s : TokenSource}
      (drops : startsStatement t.type = false) :
      Calls (.stmt (.program stmts), t :: s) (.stmt (.program stmts), s)

/-! ## §2. The measure. -/

/-- The grammar level of a place.  An operator loop calls nothing before it has
taken a token. -/
def Place.level : Place → Nat
  | .expr (.loop _ _) => 0
  | .expr (.level n) => n
  | .expr (.args _ _) => 6
  | .stmt .stmt => 7
  | .stmt (.block _) => 8
  | .stmt (.program _) => 8

/-- (remaining tokens, grammar level). -/
def progress (c : Place × TokenSource) : Nat × Nat := (c.2.length, c.1.level)

/-- The order of the measure: fewer tokens, or as many on a lower level. -/
def Before (m m' : Nat × Nat) : Prop := Prod.Lex (· < ·) (· < ·) m m'

/-- Taking a token makes progress. -/
theorem before_of_taken {p q : Place} {s s' : TokenSource} (h : s'.length < s.length) :
    Before (progress (q, s')) (progress (p, s)) :=
  Prod.Lex.left _ _ h

/-- So does going down a level at the same token. -/
theorem before_of_level {p q : Place} {s : TokenSource} (h : q.level < p.level) :
    Before (progress (q, s)) (progress (p, s)) :=
  Prod.Lex.right _ h

/-- The order has no infinite descent. -/
theorem before_wellFounded : WellFounded Before :=
  (Prod.lex Nat.lt_wfRel Nat.lt_wfRel).wf

/-- **Every recursive call and every round lowers the measure.** -/
theorem Calls.decreases {x y : Place × TokenSource} (h : Calls x y) :
    Before (progress y) (progress x) := by
  cases h with
  -- on the same tokens, a level below
  | argument => exact before_of_level (show 5 < 6 by omega)
  | primary => exact before_of_level (show 0 < 1 by omega)
  | leftOperand => exact before_of_level (Nat.lt_succ_self _)
  | primaryStmt => exact before_of_level (show 0 < 7 by omega)
  | inBlock | inProgram => exact before_of_level (show 7 < 8 by omega)
  -- behind tokens looked at
  | arguments | assigned | paren | sign | rightOperand | varDecl | varDeclTyped | blockStmt
  | condition | skipInBlock | skipInProgram =>
      apply before_of_taken
      simp only [List.length_cons]
      omega
  -- behind what another place has read
  | nextArgument _ arg =>
      have hlen := arg.length
      simp only [Goal.takes, List.length_cons] at hlen
      exact before_of_taken (by omega)
  | lastArgument _ arg =>
      have hlen := arg.length
      simp only [Goal.takes] at hlen
      exact before_of_taken hlen
  | operators first =>
      have hlen := first.length
      simp only [Goal.takes] at hlen
      exact before_of_taken hlen
  | nextOperator _ operand =>
      have hlen := operand.length
      simp only [Goal.takes] at hlen
      apply before_of_taken
      simp only [List.length_cons]
      omega
  | ifBlock _ _ condition =>
      have hlen := condition.length
      simp only [Goal.takes, List.length_cons] at hlen
      apply before_of_taken
      simp only [List.length_cons]
      omega
  | elseBlock _ _ condition _ _ ifBlock =>
      have hlen := condition.length
      have hlen' := ifBlock.length
      simp only [Goal.takes, StmtGoal.takes, List.length_cons] at hlen hlen'
      apply before_of_taken
      simp only [List.length_cons]
      omega
  | nextInBlock _ stmt | nextInProgram _ stmt =>
      have hlen := stmt.length
      simp only [StmtGoal.takes] at hlen
      exact before_of_taken hlen

/-! ## §3. Places that end. -/

/-- The counters of the model: the depth of an expression, the rounds of the
loops inside and those of the loop at hand. -/
structure Fuel where
  depth : Nat
  inner : Nat
  rounds : Nat

/-- A loop with a round left. -/
theorem Fuel.exists_round {k : Fuel} {n : Nat} (h : n < k.rounds) : ∃ r, k.rounds = r + 1 :=
  Nat.exists_eq_add_one.2 (Nat.zero_lt_of_lt h)

/-- The function of a place has one outcome, a tree or an exception, with
whatever fuel is enough for the tokens. -/
def Place.Ends : Place → TokenSource → Prop
  | .expr g, s =>
      Settles .outOfFuel (fun k : Fuel => g.Fueled s k.depth k.inner k.rounds)
        (fun k => g.parser (parseExpression k.depth) k.inner k.rounds s)
  | .stmt .stmt, s =>
      Settles .outOfFuel (fun k : Fuel => s.length < k.inner)
        (fun k => parseStatement (parseBlock k.inner) k.inner s)
  | .stmt (.block stmts), s =>
      Settles .outOfFuel (fun k : Fuel => s.length < k.inner ∧ s.length < k.rounds)
        (fun k => finishBlock (parseBlock k.inner) k.inner k.rounds stmts s)
  | .stmt (.program stmts), s =>
      Settles .outOfFuel (fun k : Fuel => s.length < k.inner ∧ s.length < k.rounds)
        (fun k => programLoop k.inner k.rounds stmts s)

/-- The places a place calls end. -/
def CalleesEnd (p : Place) (s : TokenSource) : Prop := ∀ q s', Calls (p, s) (q, s') → q.Ends s'

section Callees

variable {ι : Type} {enough : ι → Prop} {s : TokenSource}

/-- `expect` needs no fuel. -/
theorem expect_ne_outOfFuel (type : TokenType) (s : TokenSource) :
    ∀ s', expect type s ≠ .error .outOfFuel s' := by
  intro s' h
  unfold expect at h
  cases s with
  | nil => exact absurd h (by simp)
  | cons t s =>
      simp only at h
      split at h
      · exact absurd h (by simp)
      · exact absurd h (by simp)

/-- A call of `parseExpression`. -/
theorem settles_expression {fuel : ι → Nat} (h : (Place.expr (.level 5)).Ends s)
    (hfuel : ∀ k, enough k → s.length + 1 < fuel k) :
    Settles .outOfFuel enough (fun k => parseExpression (fuel k) s) := by
  refine Settles.reindex h ?_
  intro k hk
  have hlt := hfuel k hk
  obtain ⟨depth, hdepth⟩ : ∃ d, fuel k = d + 1 := ⟨fuel k - 1, by omega⟩
  have hlen : s.length < depth := by omega
  refine ⟨⟨depth, depth, depth⟩, Goal.fueled_level 5 hlen hlen hlen, ?_⟩
  rw [hdepth]
  rfl

/-- A call of `parseBlock`. -/
theorem settles_parseBlock {fuel : ι → Nat} (hfuel : ∀ k, enough k → s.length < fuel k)
    (h : ∀ l s', s = l :: s' → l.type = .L_CURL_BRKT → (Place.stmt (.block [])).Ends s') :
    Settles .outOfFuel enough (fun k => parseBlock (fuel k) s) := by
  have hinner : Settles .outOfFuel (fun d => s.length < d + 1) (fun d =>
      (expect .L_CURL_BRKT >>= fun _ => finishBlock (parseBlock d) d d []) s) := by
    refine Settles.bind_const (expect_ne_outOfFuel _ s) ?_
    intro l s' hl
    obtain ⟨htype, hs⟩ := expect_eq_ok hl
    refine Settles.reindex (h l s' hs htype) ?_
    intro d hd
    rw [hs, List.length_cons] at hd
    -- a bracket less, and a level less
    have hlen : s'.length < d := by omega
    exact ⟨⟨d, d, d⟩, ⟨hlen, hlen⟩, rfl⟩
  refine Settles.reindex hinner ?_
  intro k hk
  have hlt := hfuel k hk
  obtain ⟨d, hd⟩ : ∃ d, fuel k = d + 1 := ⟨fuel k - 1, by omega⟩
  exact ⟨d, by omega, by rw [hd]; rfl⟩

end Callees

/-! ## §4. Expressions. -/

section Expressions

variable {expr : Parse ASTNode} {fuel : Nat} {t u : Token} {s : TokenSource} {args : List ASTNode}
  {x : String}

/-- Nor does `stoll`. -/
theorem stoll_ne_outOfFuel (content : String) : stoll content ≠ .error .outOfFuel := by
  unfold stoll
  extract_lets text unsigned digits number
  by_cases hdigits : digits = []
  · rw [if_pos hdigits]
    simp
  rw [if_neg hdigits]
  by_cases hrange : -2 ^ 63 ≤ number ∧ number < 2 ^ 63
  · rw [if_pos hrange]
    simp
  · rw [if_neg hrange]
    simp

/-- An assignment is its value with a name. -/
theorem parsePrimary_assign_eq (type : t.type = .IDENT) (heq : u.type = .EQ) :
    parsePrimary expr fuel (t :: u :: s)
      = (expr >>= fun value => pure (.varAssign t.content value)) s := by
  have hne : t.type ≠ .NUMBER := by rw [type]; decide
  have hnocall : u.type ≠ .COLON := by rw [heq]; decide
  unfold parsePrimary
  rw [peek_bind, front_cons, if_neg hne, if_pos type, advance_bind, List.tail_cons, peek_bind,
    front_cons, if_neg hnocall, if_pos heq, expect_bind heq]

/-- Parentheses are the expression inside and the closing one. -/
theorem parsePrimary_paren_eq (left : t.type = .L_PAREN) :
    parsePrimary expr fuel (t :: s)
      = (expr >>= fun inner => expect .R_PAREN >>= fun _ => pure inner) s := by
  have hnumber : t.type ≠ .NUMBER := by rw [left]; decide
  have hident : t.type ≠ .IDENT := by rw [left]; decide
  unfold parsePrimary
  rw [peek_bind, front_cons, if_neg hnumber, if_neg hident, if_pos left, advance_bind,
    List.tail_cons]

/-- Other tokens are refused. -/
theorem parsePrimary_throw (hnumber : (front s).type ≠ .NUMBER) (hident : (front s).type ≠ .IDENT)
    (hparen : (front s).type ≠ .L_PAREN) :
    parsePrimary expr fuel s
      = .error (.runtimeError ("Unexpected token: " ++ (front s).content)) s := by
  unfold parsePrimary
  rw [peek_bind, if_neg hnumber, if_neg hident, if_neg hparen]
  rfl

/-- A primary ends if the calls in it do. -/
theorem parsePrimary_ends (hcalls : CalleesEnd (.expr (.level 0)) s) :
    (Place.expr (.level 0)).Ends s := by
  by_cases hnumber : (front s).type = .NUMBER
  · rw [cons_of_front_eq hnumber (by decide)]
    cases hvalue : stoll (front s).content with
    | ok n => exact settles_ok fun k _ => parsePrimary_number hnumber hvalue
    | error e =>
        have hne : e ≠ .outOfFuel := by
          rintro rfl
          exact stoll_ne_outOfFuel _ hvalue
        exact settles_error hne fun k _ => parsePrimary_refused hnumber hvalue
  by_cases hident : (front s).type = .IDENT
  · have hs := cons_of_front_eq hident (by decide)
    by_cases hcolon : (front s.tail).type = .COLON
    · -- a call
      rw [hs, cons_of_front_eq hcolon (by decide)] at hcalls ⊢
      refine Settles.reindex (hcalls _ _ (.arguments hident hcolon)) ?_
      intro k hk
      simp only [Goal.Fueled, List.length_cons] at hk
      exact ⟨k, ⟨by omega, by omega, by omega⟩, parsePrimary_call hident hcolon⟩
    by_cases heq : (front s.tail).type = .EQ
    · -- an assignment
      rw [hs, cons_of_front_eq heq (by decide)] at hcalls ⊢
      refine Settles.of_eq ?_ fun k _ => parsePrimary_assign_eq hident heq
      refine Settles.bind (settles_expression (hcalls _ _ (.assigned hident heq)) ?_) ?_
      · intro k hk
        simp only [Goal.Fueled, List.length_cons] at hk
        omega
      · intro value s' _
        exact settles_ok fun k _ => rfl
    · rw [hs]
      exact settles_ok fun k _ => parsePrimary_ident hident hcolon heq
  by_cases hparen : (front s).type = .L_PAREN
  · rw [cons_of_front_eq hparen (by decide)] at hcalls ⊢
    refine Settles.of_eq ?_ fun k _ => parsePrimary_paren_eq hparen
    refine Settles.bind (settles_expression (hcalls _ _ (.paren hparen)) ?_) ?_
    · intro k hk
      simp only [Goal.Fueled, List.length_cons] at hk
      omega
    · intro inner s' _
      refine Settles.bind_const (expect_ne_outOfFuel _ _) ?_
      intro r s₁ _
      exact settles_ok fun k _ => rfl
  · exact settles_error (by simp) fun k _ => parsePrimary_throw hnumber hident hparen

/-- A sign is its operand with a node. -/
theorem parseUnary_sign_eq (type : t.type = .MINUS ∨ t.type = .NOT) :
    parseUnary expr (fuel + 1) (t :: s)
      = (parseUnary expr fuel >>= fun operand => pure (ASTNode.unaryOp t.type operand)) s := by
  conv_lhs => unfold parseUnary
  rw [peek_bind, front_cons, if_pos type, advance_bind, List.tail_cons, front_cons]

/-- So does a unary expression. -/
theorem parseUnary_ends (hcalls : CalleesEnd (.expr (.level 1)) s) :
    (Place.expr (.level 1)).Ends s := by
  by_cases hsign : (front s).type = .MINUS ∨ (front s).type = .NOT
  · have hne : (front s).type ≠ .END_OF_FILE := by
      intro hend
      rw [hend] at hsign
      exact absurd hsign (by decide)
    rw [cons_of_front hne] at hcalls ⊢
    -- one sign less, with a round less
    have hoperand : Settles .outOfFuel
        (fun k : Fuel => (Goal.level 1).Fueled s.tail k.depth k.inner k.rounds)
        (fun k => (parseUnary (parseExpression k.depth) k.rounds
          >>= fun operand => pure (ASTNode.unaryOp (front s).type operand)) s.tail) := by
      refine Settles.bind (hcalls _ _ (.sign hsign)) ?_
      intro operand s' _
      exact settles_ok fun k _ => rfl
    refine Settles.reindex hoperand ?_
    intro k hk
    simp only [Goal.Fueled, List.length_cons] at hk
    obtain ⟨rounds, hrounds⟩ : ∃ n, k.rounds = n + 1 := ⟨k.rounds - 1, by omega⟩
    refine ⟨⟨k.depth, k.inner, rounds⟩, ⟨?_, ?_, ?_⟩, ?_⟩
    · show s.tail.length < k.depth
      omega
    · show s.tail.length < k.inner
      omega
    · show s.tail.length < rounds
      omega
    · rw [hrounds]
      exact parseUnary_sign_eq hsign
  · refine Settles.reindex (hcalls _ _ (.primary hsign)) ?_
    intro k hk
    simp only [Goal.Fueled] at hk
    obtain ⟨rounds, hrounds⟩ : ∃ n, k.rounds = n + 1 := ⟨k.rounds - 1, by omega⟩
    refine ⟨⟨k.depth, k.inner, rounds⟩, ?_, ?_⟩
    · show s.length < k.depth ∧ s.length < k.inner ∧ s.length < rounds + 1
      rw [← hrounds]
      exact hk
    · rw [hrounds]
      exact parseUnary_primary hsign

/-- What a level returns with fuel enough, it reads. -/
theorem reads_of_settled {n : Nat} {e : ASTNode} {s' : TokenSource}
    (h : ∀ k : Fuel, (Goal.level n).Fueled s k.depth k.inner k.rounds →
      levelParser (parseExpression k.depth) k.rounds n s = .ok e s') : Reads (.level n) s e s' := by
  have hok := h ⟨s.length + 2, s.length + 1, s.length + 1⟩ (Goal.fueled_length _ s)
  exact levelParser_sound (parseExpression_sound _) n hok

/-- So does a binary level. -/
theorem parseBinary_ends {n : Nat} (hcalls : CalleesEnd (.expr (.level (n + 2))) s) :
    (Place.expr (.level (n + 2))).Ends s := by
  have hfirst : Settles .outOfFuel
      (fun k : Fuel => (Goal.level (n + 1)).Fueled s k.depth k.inner k.rounds)
      (fun k => levelParser (parseExpression k.depth) k.rounds (n + 1) s) :=
    hcalls _ _ .leftOperand
  show Settles _ _ (fun k : Fuel => (levelParser (parseExpression k.depth) k.rounds (n + 1)
    >>= fun left => binaryLoop (opsAt (n + 2))
      (levelParser (parseExpression k.depth) k.rounds (n + 1)) k.rounds left) s)
  refine Settles.bind hfirst ?_
  intro left s₁ hleft
  have hread : Reads (.level (n + 1)) s left s₁ := reads_of_settled hleft
  have hlen := hread.length
  simp only [Goal.takes] at hlen
  refine Settles.reindex (hcalls _ _ (.operators hread)) ?_
  intro k hk
  simp only [Goal.Fueled] at hk
  -- the operands of the loop have the fuel of the level
  refine ⟨⟨k.depth, k.rounds, k.rounds⟩, ⟨?_, ?_, ?_⟩, rfl⟩
  · show s₁.length < k.depth
    omega
  · show s₁.length < k.rounds
    omega
  · show s₁.length < k.rounds
    omega

/-- A round of the loop takes an operand. -/
theorem binaryLoop_step_eq {ops : TokenType → Bool} {operand : Parse ASTNode} {left : ASTNode}
    (op : ops t.type = true) :
    binaryLoop ops operand (fuel + 1) left (t :: s)
      = (operand >>= fun right => binaryLoop ops operand fuel (.binaryOp t.type left right)) s := by
  conv_lhs => unfold binaryLoop
  rw [peek_bind, front_cons, if_pos op, advance_bind, List.tail_cons, front_cons]

/-- So does its loop. -/
theorem binaryLoop_ends {n : Nat} {left : ASTNode} (hcalls : CalleesEnd (.expr (.loop n left)) s) :
    (Place.expr (.loop n left)).Ends s := by
  cases hop : opsAt n (front s).type with
  | false =>
      -- no operator, the loop stops in its first round
      refine settles_ok (a := left) (s := s) ?_
      intro k hk
      simp only [Goal.Fueled] at hk
      obtain ⟨rounds, hrounds⟩ := Fuel.exists_round hk.2.2
      rw [hrounds]
      exact binaryLoop_stop hop
  | true =>
      obtain ⟨hne, m, rfl⟩ := opsAt_inv hop
      rw [cons_of_front hne] at hcalls ⊢
      -- the right operand, with the whole of the loop's fuel
      have hright : Settles .outOfFuel
          (fun k : Fuel => s.tail.length < k.depth ∧ s.tail.length < k.inner ∧
            s.tail.length < k.rounds)
          (fun k => levelParser (parseExpression k.depth) k.inner (m + 1) s.tail) := by
        refine Settles.reindex (hcalls _ _ (.rightOperand hop)) ?_
        intro k hk
        have hdepth := hk.1
        have hinner := hk.2.1
        exact ⟨⟨k.depth, k.inner, k.inner⟩, ⟨hdepth, hinner, hinner⟩, rfl⟩
      -- and the next round, with a round less
      have hround : Settles .outOfFuel
          (fun k : Fuel => s.tail.length < k.depth ∧ s.tail.length < k.inner ∧
            s.tail.length < k.rounds)
          (fun k => (levelParser (parseExpression k.depth) k.inner (m + 1) >>= fun right =>
            binaryLoop (opsAt (m + 2)) (levelParser (parseExpression k.depth) k.inner (m + 1))
              k.rounds (.binaryOp (front s).type left right)) s.tail) := by
        refine Settles.bind hright ?_
        intro right s₁ hok
        have hread : Reads (.level (m + 1)) s.tail right s₁ := by
          apply reads_of_settled
          intro k hk
          exact hok ⟨k.depth, k.rounds, k.rounds⟩ ⟨hk.1, hk.2.2, hk.2.2⟩
        have hlen := hread.length
        simp only [Goal.takes] at hlen
        refine Settles.reindex (hcalls _ _ (.nextOperator hop hread)) ?_
        intro k hk
        exact ⟨k, ⟨by omega, by omega, by omega⟩, rfl⟩
      refine Settles.reindex hround ?_
      intro k hk
      simp only [Goal.Fueled, List.length_cons] at hk
      obtain ⟨rounds, hrounds⟩ := Fuel.exists_round hk.2.2
      refine ⟨⟨k.depth, k.inner, rounds⟩, ⟨?_, ?_, ?_⟩, ?_⟩
      · show s.tail.length < k.depth
        omega
      · show s.tail.length < k.inner
        omega
      · show s.tail.length < rounds
        omega
      · rw [hrounds]
        exact binaryLoop_step_eq hop

/-- What follows an argument in the loop over the arguments. -/
def afterArgument (expr : Parse ASTNode) (fuel : Nat) (identifier : String)
    (args : List ASTNode) : Parse ASTNode := fun s =>
  if (front s).type = .COMMA then finishCall expr fuel identifier args s.tail
  else if (front s).type = .SEMICOLON then finishCall expr fuel identifier args s
  else .error (.runtimeError
    ("Expected ',' or ';' in argument list, got: " ++ (front s).content)) s

/-- An argument and what follows it. -/
theorem finishCall_more (more : (front s).type ≠ .SEMICOLON) :
    finishCall expr (fuel + 1) x args s
      = (expr >>= fun a => afterArgument expr fuel x (args ++ [a])) s := by
  cases harg : expr s with
  | error e s₁ =>
      have hloop : argLoop expr (fuel + 1) args s = .error e s₁ := by
        unfold argLoop
        rw [peek_bind, if_neg more, bind_error harg]
      rw [bind_error harg]
      unfold finishCall
      rw [bind_error hloop]
  | ok a s₁ =>
      rw [bind_ok harg]
      unfold afterArgument
      by_cases hcomma : (front s₁).type = .COMMA
      · rw [if_pos hcomma]
        rw [cons_of_front_eq hcomma (by decide)] at harg
        exact finishCall_step (argLoop_comma more harg hcomma)
      rw [if_neg hcomma]
      by_cases hsemi : (front s₁).type = .SEMICOLON
      · rw [if_pos hsemi]
        apply finishCall_step
        conv_lhs => unfold argLoop
        rw [peek_bind, if_neg more, bind_ok harg, peek_bind, if_neg hcomma, if_pos hsemi]
      · rw [if_neg hsemi]
        unfold finishCall argLoop
        apply bind_error
        rw [peek_bind, if_neg more, bind_ok harg, peek_bind, if_neg hcomma, if_neg hsemi]
        rfl

/-- The arguments of a call end if the calls in them do. -/
theorem finishCall_ends (hcalls : CalleesEnd (.expr (.args x args)) s) :
    (Place.expr (.args x args)).Ends s := by
  by_cases hsemi : (front s).type = .SEMICOLON
  · rw [cons_of_front_eq hsemi (by decide)]
    refine settles_ok (a := .funcCall x args) (s := s.tail) ?_
    intro k hk
    simp only [Goal.Fueled, List.length_cons] at hk
    obtain ⟨rounds, hrounds⟩ := Fuel.exists_round hk.2.2
    rw [hrounds]
    exact finishCall_ok (argLoop_end hsemi)
  have hround : Settles .outOfFuel
      (fun k : Fuel => s.length + 1 < k.depth ∧ s.length < k.inner ∧ s.length < k.rounds + 1)
      (fun k => (parseExpression k.depth >>= fun a =>
        afterArgument (parseExpression k.depth) k.rounds x (args ++ [a])) s) := by
    refine Settles.bind (settles_expression (hcalls _ _ (.argument hsemi)) fun k hk => hk.1) ?_
    intro a s₁ hok
    have hread : Reads (.level 5) s a s₁ :=
      parseExpression_sound _
        (hok ⟨s.length + 2, s.length + 1, s.length⟩ ⟨by simp, by simp, by simp⟩)
    have hlen := hread.length
    simp only [Goal.takes] at hlen
    -- what comes behind the argument
    by_cases hcomma : (front s₁).type = .COMMA
    · have hs₁ := cons_of_front_eq hcomma (by decide)
      have hlen₁ := congrArg List.length hs₁
      rw [List.length_cons] at hlen₁
      rw [hs₁] at hread
      refine Settles.reindex (hcalls _ _ (.nextArgument hsemi hread hcomma)) ?_
      intro k hk
      exact ⟨k, ⟨by omega, by omega, by omega⟩, if_pos hcomma⟩
    by_cases hlast : (front s₁).type = .SEMICOLON
    · rw [cons_of_front_eq hlast (by decide)] at hread
      have hends := hcalls _ _ (.lastArgument hsemi hread hlast)
      rw [← cons_of_front_eq hlast (by decide)] at hends
      refine Settles.reindex hends ?_
      intro k hk
      refine ⟨k, ⟨by omega, by omega, by omega⟩, ?_⟩
      exact (if_neg hcomma).trans (if_pos hlast)
    · refine settles_error ?_ fun k _ => (if_neg hcomma).trans (if_neg hlast)
      simp
  refine Settles.reindex hround ?_
  intro k hk
  simp only [Goal.Fueled] at hk
  obtain ⟨rounds, hrounds⟩ := Fuel.exists_round hk.2.2
  refine ⟨⟨k.depth, k.inner, rounds⟩, ⟨?_, ?_, ?_⟩, ?_⟩
  · show s.length + 1 < k.depth
    omega
  · show s.length < k.inner
    omega
  · show s.length < rounds + 1
    omega
  · rw [hrounds]
    exact finishCall_more hsemi

end Expressions

/-! ## §5. Statements. -/

section Statements

variable {s s₁ s' : TokenSource} {stmts : List ASTNode} {inner fuel : Nat} {t : Token}

/-- Skipping a type needs no fuel. -/
theorem skipType_ne_outOfFuel (s : TokenSource) : ∀ s', skipType s ≠ .error .outOfFuel s' := by
  intro s' h
  unfold skipType at h
  rw [peek_bind] at h
  split at h
  · exact absurd h (by rw [advance_bind, advance_bind]; simp)
  · exact absurd h (by simp)

/-- With enough fuel, a declaration does not depend on it. -/
theorem parseVarDecl_settles (hcalls : CalleesEnd (.stmt .stmt) s) :
    Settles .outOfFuel (fun k : Fuel => s.length < k.inner) (fun k => parseVarDecl k.inner s) := by
  show Settles _ _ (fun k : Fuel => (expect .VAR >>= fun _ => peek >>= fun name =>
    expect .IDENT >>= fun _ => skipType >>= fun _ => expect .EQ >>= fun _ =>
    parseExpression k.inner >>= fun e => pure (ASTNode.varDecl name.content e)) s)
  refine Settles.bind_const (expect_ne_outOfFuel _ _) ?_
  intro v s₁ hv
  obtain ⟨hvtype, rfl⟩ := expect_eq_ok hv
  refine Settles.bind_const (fun s' => by simp [peek]) ?_
  intro name s₂ hname
  injection hname with _ hs₂
  subst hs₂
  refine Settles.bind_const (expect_ne_outOfFuel _ _) ?_
  intro x s₃ hx
  obtain ⟨hxtype, rfl⟩ := expect_eq_ok hx
  refine Settles.bind_const (skipType_ne_outOfFuel _) ?_
  intro u s₄ hskip
  refine Settles.bind_const (expect_ne_outOfFuel _ _) ?_
  intro eq s₅ heq
  obtain ⟨heqtype, _⟩ := expect_eq_ok heq
  -- with the annotation or without
  have hvalue : (Place.expr (.level 5)).Ends s₅ ∧ s₅.length < s₃.length := by
    rcases skipType_eq_ok hskip heq with rfl | ⟨arrow, type, harrow, rfl⟩
    · exact ⟨hcalls _ _ (.varDecl hvtype hxtype heqtype), by simp⟩
    · exact ⟨hcalls _ _ (.varDeclTyped hvtype hxtype harrow heqtype), by simp; omega⟩
  obtain ⟨hends, hlen⟩ := hvalue
  refine Settles.bind (settles_expression hends ?_) ?_
  · intro k hk
    simp only [List.length_cons] at hk
    omega
  · intro e s₆ _
    exact settles_ok fun k _ => rfl

/-- Nor does an `if` statement. -/
theorem parseIfStmt_settles (hcalls : CalleesEnd (.stmt .stmt) s) :
    Settles .outOfFuel (fun k : Fuel => s.length < k.inner)
      (fun k => parseIfStmt (parseBlock k.inner) k.inner s) := by
  show Settles _ _ (fun k : Fuel => (expect .IF >>= fun _ => expect .L_PAREN >>= fun _ =>
    parseExpression k.inner >>= fun e => expect .R_PAREN >>= fun _ => parseBlock k.inner >>= fun b =>
    peek >>= fun next => if next.type = .ELSE
      then expect .ELSE >>= fun _ => parseBlock k.inner >>= fun c => pure (ASTNode.ifStmt e b (some c))
      else pure (ASTNode.ifStmt e b none)) s)
  refine Settles.bind_const (expect_ne_outOfFuel _ _) ?_
  intro i s₁ hi
  obtain ⟨hitype, rfl⟩ := expect_eq_ok hi
  refine Settles.bind_const (expect_ne_outOfFuel _ _) ?_
  intro p s₂ hp
  obtain ⟨hptype, rfl⟩ := expect_eq_ok hp
  simp only [List.length_cons]
  refine Settles.bind (settles_expression (hcalls _ _ (.condition hitype hptype)) fun k hk => by omega)
    ?_
  intro e s₃ hok
  have hcondition : Reads (.level 5) s₂ e s₃ :=
    parseExpression_sound _
      (hok ⟨s₂.length + 3, s₂.length + 3, s₂.length + 3⟩ (by show _ < s₂.length + 3; omega))
  have hlen := hcondition.length
  simp only [Goal.takes] at hlen
  refine Settles.bind_const (expect_ne_outOfFuel _ _) ?_
  intro r s₄ hr
  obtain ⟨hrtype, rfl⟩ := expect_eq_ok hr
  rw [List.length_cons] at hlen
  -- the block behind the condition
  refine Settles.bind (settles_parseBlock (fun k hk => by omega) ?_) ?_
  · rintro l s' rfl hl
    exact hcalls _ _ (.ifBlock hitype hptype hcondition hrtype hl)
  intro b s₅ hblock
  obtain ⟨l, s₆, events, rfl, hl, hifBlock⟩ := parseBlock_sound _
    (hblock ⟨s₂.length + 3, s₂.length + 3, s₂.length + 3⟩ (by show _ < s₂.length + 3; omega))
  have hlen' := hifBlock.length
  simp only [StmtGoal.takes] at hlen'
  rw [List.length_cons] at hlen
  refine Settles.bind_const (fun s' => by simp [peek]) ?_
  intro next s₇ hnext
  injection hnext with hfront hs₇
  subst hfront hs₇
  by_cases helse : (front s₅).type = .ELSE
  · simp only [if_pos helse]
    rw [cons_of_front_eq helse (by decide)] at hifBlock hlen' ⊢
    rw [List.length_cons] at hlen'
    refine Settles.bind_const (expect_ne_outOfFuel _ _) ?_
    intro els s₈ hels
    obtain ⟨-, hs₈⟩ := expect_eq_ok hels
    injection hs₈ with _ hs₈
    subst hs₈
    -- and the one behind `else`
    refine Settles.bind (settles_parseBlock (fun k hk => by omega) ?_) ?_
    · intro l' s' hs' hl'
      rw [hs'] at hifBlock
      exact hcalls _ _ (.elseBlock hitype hptype hcondition hrtype hl hifBlock helse hl')
    · intro c s₉ _
      exact settles_ok fun k _ => rfl
  · simp only [if_neg helse]
    exact settles_ok fun k _ => rfl

/-- A statement ends if the calls in it do. -/
theorem parseStatement_ends (hcalls : CalleesEnd (.stmt .stmt) s) :
    (Place.stmt .stmt).Ends s := by
  -- a branch that calls `parser`
  have hbranch : ∀ parser : Fuel → Parse ASTNode,
      (∀ k : Fuel, branchParser (parseBlock k.inner) k.inner (front s).type = some (parser k)) →
      Settles .outOfFuel (fun k : Fuel => s.length < k.inner) (fun k => parser k s) →
      (Place.stmt .stmt).Ends s := by
    intro parser hparser hsettles
    have hsome : Settles .outOfFuel (fun k : Fuel => s.length < k.inner)
        (fun k => (parser k >>= fun stmt => pure (some stmt)) s) := by
      refine Settles.bind hsettles ?_
      intro a s' _
      exact settles_ok fun k _ => rfl
    refine Settles.of_eq hsome ?_
    intro k _
    rw [parseStatement_eq, hparser k]
  cases hstarts : startsStatement (front s).type with
  | false => exact settles_ok fun k _ => parseStatement_skip hstarts
  | true =>
      -- the cases of the switch
      by_cases hvar : (front s).type = .VAR
      · apply hbranch (fun k => parseVarDecl k.inner) ?_ (parseVarDecl_settles hcalls)
        intro k
        rw [hvar]
        rfl
      by_cases hleft : (front s).type = .L_CURL_BRKT
      · refine hbranch (fun k => parseBlock k.inner) ?_ (settles_parseBlock (fun k hk => hk) ?_)
        · intro k
          rw [hleft]
          rfl
        · rintro l s' rfl hl
          exact hcalls _ _ (.blockStmt hl)
      by_cases hif : (front s).type = .IF
      · apply hbranch (fun k => parseIfStmt (parseBlock k.inner) k.inner) ?_
          (parseIfStmt_settles hcalls)
        intro k
        rw [hif]
        rfl
      by_cases hident : (front s).type = .IDENT
      · refine hbranch (fun k => parsePrimary (parseExpression k.inner) k.inner) ?_
          (Settles.reindex (hcalls _ _ (.primaryStmt hident)) ?_)
        · intro k
          rw [hident]
          rfl
        · intro k hk
          exact ⟨⟨k.inner, k.inner, k.inner⟩, Goal.fueled_level 0 hk hk hk, rfl⟩
      · simp only [startsStatement, hvar, hleft, hif, hident, decide_false, Bool.or_self] at hstarts
        exact absurd hstarts (by simp)

/-- The `switch` inside a loop, on the token `t`. -/
theorem settles_switch {g : StmtGoal} (hcalls : CalleesEnd (.stmt g) (t :: s))
    (hstmt : startsStatement t.type = true → Calls (.stmt g, t :: s) (.stmt .stmt, t :: s)) :
    (Place.stmt .stmt).Ends (t :: s) := by
  cases hstarts : startsStatement t.type with
  | true => exact hcalls _ _ (hstmt hstarts)
  | false => exact settles_ok fun k _ => parseStatement_skip hstarts

/-- A round of the block takes a statement. -/
theorem finishBlock_round (noEnd : t.type ≠ .R_CURL_BRKT) (noFile : t.type ≠ .END_OF_FILE)
    {block : Parse ASTNode} :
    finishBlock block inner (fuel + 1) stmts (t :: s)
      = (parseStatement block inner >>= fun stmt =>
          finishBlock block inner fuel (stmts ++ stmt.toList)) (t :: s) := by
  have hloop : blockLoop block inner (fuel + 1) stmts (t :: s)
      = (parseStatement block inner >>= fun stmt =>
          blockLoop block inner fuel (stmts ++ stmt.toList)) (t :: s) := by
    conv_lhs => unfold blockLoop
    rw [peek_bind, front_cons, if_neg noEnd, if_neg noFile]
  unfold finishBlock
  rw [bind_eq_bind hloop, bind_assoc]

/-- The end of the file inside a block is refused. -/
theorem finishBlock_throw (hfile : (front s).type = .END_OF_FILE) {block : Parse ASTNode} :
    finishBlock block inner (fuel + 1) stmts s
      = .error (.runtimeError "Unexpected EOF inside block, expected '\x7d'") s := by
  have hne : (front s).type ≠ .R_CURL_BRKT := by rw [hfile]; decide
  unfold finishBlock blockLoop
  apply bind_error
  rw [peek_bind, if_neg hne, if_pos hfile]
  rfl

/-- **A round of a loop over statements.**  `f` is the rest of the loop, given the
statement of the round. -/
theorem settles_round {g : StmtGoal} {f : Fuel → Option ASTNode → Parse ASTNode}
    (hcalls : CalleesEnd (.stmt g) (t :: s))
    (hstmt : startsStatement t.type = true → Calls (.stmt g, t :: s) (.stmt .stmt, t :: s))
    (hskip : startsStatement t.type = false →
      Settles .outOfFuel (fun k : Fuel => s.length < k.inner ∧ s.length < k.rounds)
        (fun k => f k none s))
    (hnext : ∀ a s₁ events, startsStatement t.type = true → ReadsStmt .stmt (t :: s) a s₁ events →
      Settles .outOfFuel (fun k : Fuel => s₁.length < k.inner ∧ s₁.length < k.rounds)
        (fun k => f k (some a) s₁)) :
    Settles .outOfFuel (fun k : Fuel => s.length + 1 < k.inner ∧ s.length < k.rounds)
      (fun k => (parseStatement (parseBlock k.inner) k.inner >>= f k) (t :: s)) := by
  have hswitch : Settles .outOfFuel (fun k : Fuel => s.length + 1 < k.inner ∧ s.length < k.rounds)
      (fun k => parseStatement (parseBlock k.inner) k.inner (t :: s)) :=
    Settles.reindex (settles_switch hcalls hstmt) fun k hk => ⟨k, hk.1, rfl⟩
  refine Settles.bind hswitch ?_
  intro result s₁ hok
  have hfuel := hok ⟨0, s.length + 2, s.length + 1⟩ ⟨by simp, by simp⟩
  rcases parseStatement_sound (parseBlock_sound _) hfuel with
    ⟨rfl, hdrops, rfl⟩ | ⟨a, events, rfl, hstarts, hread⟩
  · refine Settles.reindex (hskip hdrops) ?_
    intro k ⟨hinner, hrounds⟩
    exact ⟨k, ⟨by omega, hrounds⟩, rfl⟩
  · -- the statement has taken a token at least
    have hlen := hread.length
    simp only [StmtGoal.takes, List.length_cons] at hlen
    refine Settles.reindex (hnext a s₁ events hstarts hread) ?_
    intro k ⟨hinner, hrounds⟩
    exact ⟨k, ⟨by omega, by omega⟩, rfl⟩

/-- The rest of a block ends if the calls in it do. -/
theorem finishBlock_ends (hcalls : CalleesEnd (.stmt (.block stmts)) s) :
    (Place.stmt (.block stmts)).Ends s := by
  by_cases hright : (front s).type = .R_CURL_BRKT
  · rw [cons_of_front_eq hright (by decide)]
    -- the block is closed
    refine settles_ok (a := .block stmts) (s := s.tail) ?_
    intro k ⟨_, hk⟩
    obtain ⟨rounds, hrounds⟩ := Fuel.exists_round hk
    rw [hrounds]
    exact finishBlock_end hright
  by_cases hfile : (front s).type = .END_OF_FILE
  · -- the text ends inside it
    have hthrow : ∀ k : Fuel, s.length < k.inner ∧ s.length < k.rounds →
        finishBlock (parseBlock k.inner) k.inner k.rounds stmts s
          = .error (.runtimeError "Unexpected EOF inside block, expected '\x7d'") s := by
      intro k ⟨_, hk⟩
      obtain ⟨rounds, hrounds⟩ := Fuel.exists_round hk
      rw [hrounds]
      exact finishBlock_throw hfile
    exact settles_error (by simp) hthrow
  cases s with
  | nil => exact absurd rfl hfile
  | cons t s =>
      rw [front_cons] at hright hfile
      -- a statement, or a token that is dropped
      have hround := settles_round
        (f := fun k stmt => finishBlock (parseBlock k.inner) k.inner k.rounds
          (stmts ++ stmt.toList)) hcalls .inBlock
        (fun hdrops => by
          rw [Option.toList_none, List.append_nil]
          exact hcalls _ _ (.skipInBlock hdrops hright hfile))
        (fun a s₁ events hstarts hread => hcalls _ _ (.nextInBlock hstarts hread))
      refine Settles.reindex hround ?_
      intro k ⟨hinner, hk⟩
      rw [List.length_cons] at hinner hk
      obtain ⟨rounds, hrounds⟩ := Fuel.exists_round hk
      refine ⟨⟨k.depth, k.inner, rounds⟩, ⟨hinner, by show s.length < rounds; omega⟩, ?_⟩
      rw [hrounds]
      exact finishBlock_round hright hfile

/-- So does the rest of a program. -/
theorem programLoop_ends (hcalls : CalleesEnd (.stmt (.program stmts)) s) :
    (Place.stmt (.program stmts)).Ends s := by
  cases s with
  | nil =>
      refine settles_ok (a := .program stmts) (s := []) ?_
      intro k ⟨_, hk⟩
      obtain ⟨rounds, hrounds⟩ := Fuel.exists_round hk
      rw [hrounds]
      rfl
  | cons t s =>
      have hround := settles_round
        (f := fun k stmt => programLoop k.inner k.rounds (stmts ++ stmt.toList))
        hcalls .inProgram
        (fun hdrops => by
          rw [Option.toList_none, List.append_nil]
          exact hcalls _ _ (.skipInProgram hdrops))
        (fun a s₁ events hstarts hread => hcalls _ _ (.nextInProgram hstarts hread))
      refine Settles.reindex hround ?_
      intro k ⟨hinner, hk⟩
      rw [List.length_cons] at hinner hk
      obtain ⟨rounds, hrounds⟩ := Fuel.exists_round hk
      refine ⟨⟨k.depth, k.inner, rounds⟩, ⟨hinner, by show s.length < rounds; omega⟩, ?_⟩
      rw [hrounds]
      rfl

end Statements

/-! ## §6. Every place ends. -/

/-- **A place ends if the places it calls end.** -/
theorem ends_of_calls {p : Place} {s : TokenSource} (hcalls : CalleesEnd p s) : p.Ends s := by
  cases p with
  | expr g =>
      cases g with
      | level n =>
          match n, hcalls with
          | 0, hcalls => exact parsePrimary_ends hcalls
          | 1, hcalls => exact parseUnary_ends hcalls
          | n + 2, hcalls => exact parseBinary_ends hcalls
      | loop n left => exact binaryLoop_ends hcalls
      | args x args => exact finishCall_ends hcalls
  | stmt g =>
      cases g with
      | stmt => exact parseStatement_ends hcalls
      | block stmts => exact finishBlock_ends hcalls
      | program stmts => exact programLoop_ends hcalls

/-- **Every place ends.** -/
theorem place_ends (c : Place × TokenSource) : c.1.Ends c.2 := by
  -- on the measure
  induction c using (InvImage.wf progress before_wellFounded).induction with
  | _ c ih =>
      apply ends_of_calls
      intro q s' hcall
      exact ih (q, s') hcall.decreases

/-- The outcome of `parseProgram`: a tree, or an exception of the source. -/
def Finishes (r : Except ParseError ASTNode) : Prop :=
  (∃ e, r = .ok e) ∨ ∃ err, r = .error err ∧ err ≠ .outOfFuel

/-- **The parser terminates on every input.**  Each recursive call and each
round of a loop lowers (remaining tokens, grammar level), a place whose calls
end ends, and so the program loop has one outcome, a tree or an exception. -/
theorem parseProgram_terminates :
    (∀ x y, Calls x y → Before (progress y) (progress x)) ∧
    (∀ p s, (∀ q s', Calls (p, s) (q, s') → q.Ends s') → p.Ends s) ∧
    ∀ tokens, Finishes (parseProgram tokens) ∧
      ∀ fuel, tokens.length < fuel → ∀ inner, tokens.length < inner →
        programLoop inner fuel [] tokens
          = programLoop (tokens.length + 2) (tokens.length + 2) [] tokens := by
  refine ⟨fun x y h => h.decreases, fun p s => ends_of_calls, ?_⟩
  intro tokens
  have hends : (Place.stmt (.program [])).Ends tokens := place_ends (.stmt (.program []), tokens)
  have hlen : tokens.length < tokens.length + 2 := by omega
  constructor
  · unfold parseProgram
    rcases Settles.outcome hends (k := ⟨0, tokens.length + 2, tokens.length + 2⟩) ⟨hlen, hlen⟩ with
      ⟨e, s, hrun⟩ | ⟨err, s, hne, hrun⟩
    · simp only at hrun
      rw [hrun]
      exact Or.inl ⟨e, rfl⟩
    · simp only at hrun
      rw [hrun]
      exact Or.inr ⟨err, rfl, hne⟩
  · intro fuel hfuel inner hinner
    obtain ⟨r, -, hrun⟩ := hends
    calc programLoop inner fuel [] tokens
        = r := hrun ⟨0, inner, fuel⟩ ⟨hinner, hfuel⟩
      _ = programLoop (tokens.length + 2) (tokens.length + 2) [] tokens :=
          (hrun ⟨0, tokens.length + 2, tokens.length + 2⟩ ⟨hlen, hlen⟩).symm

end SproutLang.Compiler
