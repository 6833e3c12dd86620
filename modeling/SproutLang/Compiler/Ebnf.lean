/-
  SproutLang.Compiler.Ebnf
  ────────────────────────
  **THE GRAMMAR IN `Sprout_lang.ebnf`.**

  `Ebnf nt e ts`: the tokens `ts` are derived from the production `nt`, and
  `e` has the structure of the derivation.  Of the statements those are here
  that the parser has a function for; of the expressions those whose tokens
  the lexer makes, without decimal fractions, texts, arrays and libraries.

    • `parse_derived_iff` — `parseProgram` returns the derivation's tree
                            exactly if the derivation keeps to what is
                            implemented.
-/
import SproutLang.Compiler.Programs

namespace SproutLang.Compiler

/-! ## §1. Productions. -/

/-- The operators of a level; `%` has no token. -/
def ebnfOps : Nat → TokenType → Bool
  | 2, t => t = .STAR || t = .SLASH
  | 3, t => t = .PLUS || t = .MINUS
  | 4, t => t = .EQEQ || t = .NOT_EQ || t = .LOWER || t = .GREATER || t = .LOWER_EQ ||
      t = .GREATER_EQ
  | 5, t => t = .DOUBLE_AND || t = .DOUBLE_VBAR
  | _, _ => false

/-- The nonterminals of the grammar. -/
inductive Nonterminal where
  | simplePrimary
  /-- `primary` and `unary`, then `multiplicative` up to `logical_expr`. -/
  | expr (level : Nat)
  | positionalArgList (identifier : String)
  | namedArgList (identifier : String)
  | funcCall
  /-- What stands behind an `if`. -/
  | ifRest
  | statement
  | block
  | program

/-- **The productions.**  A list of arguments is given by its call, the
statements of a block by the block. -/
inductive Ebnf : Nonterminal → ASTNode → List Token → Prop
  | intLit {t : Token} {n : Int} (type : t.type = .NUMBER) (value : IsNumeral t.content n) :
      Ebnf .simplePrimary (.intLiteral n) [t]
  | identifier {t : Token} (type : t.type = .IDENT) : Ebnf .simplePrimary (.ident t.content) [t]
  | simple {e : ASTNode} {ts : List Token} (inner : Ebnf .simplePrimary e ts) :
      Ebnf (.expr 0) e ts
  | call {e : ASTNode} {ts : List Token} (inner : Ebnf .funcCall e ts) : Ebnf (.expr 0) e ts
  | paren {l r : Token} {e : ASTNode} {ts : List Token} (left : l.type = .L_PAREN)
      (inner : Ebnf (.expr 5) e ts) (right : r.type = .R_PAREN) :
      Ebnf (.expr 0) e (l :: (ts ++ [r]))
  | sign {t : Token} {e : ASTNode} {ts : List Token} (type : t.type = .NOT ∨ t.type = .MINUS)
      (inner : Ebnf .simplePrimary e ts) : Ebnf (.expr 1) (.unaryOp t.type e) (t :: ts)
  | first {p : Nat} {e : ASTNode} {ts : List Token} (inner : Ebnf (.expr p) e ts) :
      Ebnf (.expr (p + 1)) e ts
  | more {p : Nat} {t : Token} {left right : ASTNode} {ts ts' : List Token}
      (before : Ebnf (.expr (p + 2)) left ts) (op : ebnfOps (p + 2) t.type = true)
      (operand : Ebnf (.expr (p + 1)) right ts') :
      Ebnf (.expr (p + 2)) (.binaryOp t.type left right) (ts ++ t :: ts')
  | positionalArg {x : String} {a : ASTNode} {ts : List Token} (arg : Ebnf (.expr 5) a ts) :
      Ebnf (.positionalArgList x) (.funcCall x [a]) ts
  | positionalArgs {x : String} {a : ASTNode} {args : List ASTNode} {comma : Token}
      {ts ts' : List Token} (arg : Ebnf (.expr 5) a ts) (hcomma : comma.type = .COMMA)
      (rest : Ebnf (.positionalArgList x) (.funcCall x args) ts') :
      Ebnf (.positionalArgList x) (.funcCall x (a :: args)) (ts ++ comma :: ts')
  | namedArg {x : String} {t eq : Token} {a : ASTNode} {ts : List Token} (type : t.type = .IDENT)
      (heq : eq.type = .EQ) (arg : Ebnf (.expr 5) a ts) :
      Ebnf (.namedArgList x) (.funcCall x [.varAssign t.content a]) (t :: eq :: ts)
  | namedArgs {x : String} {t eq comma : Token} {a : ASTNode} {args : List ASTNode}
      {ts ts' : List Token} (type : t.type = .IDENT) (heq : eq.type = .EQ)
      (arg : Ebnf (.expr 5) a ts) (hcomma : comma.type = .COMMA)
      (rest : Ebnf (.namedArgList x) (.funcCall x args) ts') :
      Ebnf (.namedArgList x) (.funcCall x (.varAssign t.content a :: args))
        (t :: eq :: (ts ++ comma :: ts'))
  | callEmpty {t colon semi : Token} (type : t.type = .IDENT) (hcolon : colon.type = .COLON)
      (hsemi : semi.type = .SEMICOLON) :
      Ebnf .funcCall (.funcCall t.content []) [t, colon, semi]
  | callPositional {t colon semi : Token} {e : ASTNode} {ts : List Token} (type : t.type = .IDENT)
      (hcolon : colon.type = .COLON) (args : Ebnf (.positionalArgList t.content) e ts)
      (hsemi : semi.type = .SEMICOLON) : Ebnf .funcCall e (t :: colon :: (ts ++ [semi]))
  | callNamed {t colon semi : Token} {e : ASTNode} {ts : List Token} (type : t.type = .IDENT)
      (hcolon : colon.type = .COLON) (args : Ebnf (.namedArgList t.content) e ts)
      (hsemi : semi.type = .SEMICOLON) : Ebnf .funcCall e (t :: colon :: (ts ++ [semi]))
  | varDecl {v x eq : Token} {e : ASTNode} {ts : List Token} (hv : v.type = .VAR)
      (hx : x.type = .IDENT) (heq : eq.type = .EQ) (value : Ebnf (.expr 5) e ts) :
      Ebnf .statement (.varDecl x.content e) (v :: x :: eq :: ts)
  | varDeclTyped {v x arrow type eq : Token} {e : ASTNode} {ts : List Token} (hv : v.type = .VAR)
      (hx : x.type = .IDENT) (harrow : arrow.type = .ARR_RIGHT) (htype : isTypeToken type = true)
      (heq : eq.type = .EQ) (value : Ebnf (.expr 5) e ts) :
      Ebnf .statement (.varDecl x.content e) (v :: x :: arrow :: type :: eq :: ts)
  | assignment {t eq : Token} {e : ASTNode} {ts : List Token} (type : t.type = .IDENT)
      (heq : eq.type = .EQ) (value : Ebnf (.expr 5) e ts) :
      Ebnf .statement (.varAssign t.content e) (t :: eq :: ts)
  | exprStmt {e : ASTNode} {ts : List Token} (call : Ebnf .funcCall e ts) : Ebnf .statement e ts
  | ifStmt {i : Token} {e : ASTNode} {ts : List Token} (hi : i.type = .IF)
      (rest : Ebnf .ifRest e ts) : Ebnf .statement e (i :: ts)
  | ifOnly {p r l r' : Token} {e : ASTNode} {stmts : List ASTNode} {ts ts' : List Token}
      (hp : p.type = .L_PAREN) (condition : Ebnf (.expr 5) e ts) (hr : r.type = .R_PAREN)
      (hl : l.type = .L_CURL_BRKT) (body : Ebnf .block (.block stmts) ts')
      (hr' : r'.type = .R_CURL_BRKT) :
      Ebnf .ifRest (.ifStmt e (.block stmts) none) (p :: (ts ++ r :: l :: (ts' ++ [r'])))
  | ifElse {p r l r' els l' r'' : Token} {e : ASTNode} {stmts stmts' : List ASTNode}
      {ts ts' ts'' : List Token}
      (hp : p.type = .L_PAREN) (condition : Ebnf (.expr 5) e ts) (hr : r.type = .R_PAREN)
      (hl : l.type = .L_CURL_BRKT) (body : Ebnf .block (.block stmts) ts')
      (hr' : r'.type = .R_CURL_BRKT) (hels : els.type = .ELSE) (hl' : l'.type = .L_CURL_BRKT)
      (body' : Ebnf .block (.block stmts') ts'') (hr'' : r''.type = .R_CURL_BRKT) :
      Ebnf .ifRest (.ifStmt e (.block stmts) (some (.block stmts')))
        (p :: (ts ++ r :: l :: (ts' ++ r' :: els :: l' :: (ts'' ++ [r'']))))
  | ifElseIf {p r l r' els i : Token} {e c : ASTNode} {stmts : List ASTNode}
      {ts ts' ts'' : List Token}
      (hp : p.type = .L_PAREN) (condition : Ebnf (.expr 5) e ts) (hr : r.type = .R_PAREN)
      (hl : l.type = .L_CURL_BRKT) (body : Ebnf .block (.block stmts) ts')
      (hr' : r'.type = .R_CURL_BRKT) (hels : els.type = .ELSE) (hi : i.type = .IF)
      (rest : Ebnf .ifRest c ts'') :
      Ebnf .ifRest (.ifStmt e (.block stmts) (some c))
        (p :: (ts ++ r :: l :: (ts' ++ r' :: els :: i :: ts'')))
  | blockNil : Ebnf .block (.block []) []
  | blockCons {a : ASTNode} {stmts : List ASTNode} {ts ts' : List Token}
      (stmt : Ebnf .statement a ts) (rest : Ebnf .block (.block stmts) ts') :
      Ebnf .block (.block (a :: stmts)) (ts ++ ts')
  | programNil : Ebnf .program (.program []) []
  | programCons {a : ASTNode} {stmts : List ASTNode} {ts ts' : List Token}
      (stmt : Ebnf .statement a ts) (rest : Ebnf .program (.program stmts) ts') :
      Ebnf .program (.program (a :: stmts)) (ts ++ ts')

/-! ## §2. What is implemented. -/

/-- The tree is a block. -/
def isBlock : ASTNode → Bool
  | .block _ => true
  | _ => false

mutual

/-- **No `<=` and `>=`, no `else if`, and integers of 64 bits.** -/
def implemented : ASTNode → Bool
  | .program stmts => implementedAll stmts
  | .block stmts => implementedAll stmts
  | .varDecl _ e => implemented e
  | .varAssign _ e => implemented e
  | .funcCall _ args => implementedAll args
  | .binaryOp op left right =>
      op ≠ .LOWER_EQ && op ≠ .GREATER_EQ && implemented left && implemented right
  | .unaryOp _ e => implemented e
  | .ident _ => true
  | .intLiteral n => n < 2 ^ 63
  | .ifStmt e b none => implemented e && implemented b
  | .ifStmt e b (some c) => implemented e && implemented b && implemented c && isBlock c

/-- All trees of a list are implemented. -/
def implementedAll : List ASTNode → Bool
  | [] => true
  | a :: as => implemented a && implementedAll as

end

theorem implementedAll_append (as bs : List ASTNode) :
    implementedAll (as ++ bs) = (implementedAll as && implementedAll bs) := by
  induction as with
  | nil => rfl
  | cons a as ih =>
      show (implemented a && implementedAll (as ++ bs)) = _
      rw [ih, ← Bool.and_assoc]
      rfl

/-- One more tree that is implemented. -/
theorem implementedAll_snoc {as : List ASTNode} {a : ASTNode} (has : implementedAll as = true)
    (ha : implemented a = true) : implementedAll (as ++ [a]) = true := by
  rw [implementedAll_append, has, Bool.true_and]
  exact (Bool.and_true _).trans ha

/-- `stoll` returns less than 2^63. -/
theorem stoll_lt {content : String} {n : Int} (h : stoll content = .ok n) : n < 2 ^ 63 := by
  unfold stoll at h
  extract_lets text unsigned digits number at h
  by_cases hdigits : digits = []
  · rw [if_pos hdigits] at h
    exact absurd h (by simp)
  · rw [if_neg hdigits] at h
    by_cases hrange : -2 ^ 63 ≤ number ∧ number < 2 ^ 63
    · rw [if_pos hrange] at h
      injection h with h
      rw [← h]
      exact hrange.2
    · rw [if_neg hrange] at h
      exact absurd h (by simp)

/-- **Every expression the parser returns is implemented.** -/
theorem Reads.implemented {g : Goal} {s s' : TokenSource} {e : ASTNode} (h : Reads g s e s') :
    match g with
    | .level _ => Compiler.implemented e = true
    | .loop _ left => Compiler.implemented left = true → Compiler.implemented e = true
    | .args _ found => implementedAll found = true → Compiler.implemented e = true := by
  induction h with
  | number _ value => exact decide_eq_true (stoll_lt value)
  | call _ _ _ ih => exact ih rfl
  | assign _ _ _ ih => exact ih
  | ident => rfl
  | paren _ _ _ ih => exact ih
  | unary _ _ ih => exact ih
  | primary _ _ ih => exact ih
  | binary _ _ ih₁ ih₂ => exact ih₂ ih₁
  | loopEnd => exact fun h => h
  | @loopStep n left right e t s s₁ s' op _ _ ih₁ ih₂ =>
      intro hleft
      refine ih₂ ?_
      -- the comparisons the parser takes are those that are implemented
      have hop : t.type ≠ .LOWER_EQ ∧ t.type ≠ .GREATER_EQ := by
        have hall : ∀ u : TokenType, opsAt (n + 2) u = true → u ≠ .LOWER_EQ ∧ u ≠ .GREATER_EQ := by
          intro u hu
          match n, hu with
          | 0, hu | 1, hu | 2, hu | 3, hu =>
              constructor <;> (rintro rfl; exact absurd hu (by decide))
        exact hall _ op
      unfold Compiler.implemented
      rw [decide_eq_true hop.1, decide_eq_true hop.2, hleft, ih₁]
      rfl
  | argsEnd => exact fun h => h
  | argsComma _ _ _ _ ih₁ ih₂ => exact fun h => ih₂ (implementedAll_snoc h ih₁)
  | argsLast _ _ _ ih => exact fun h => implementedAll_snoc h ih

/-- **Every program the parser returns is implemented.** -/
theorem ReadsStmt.implemented {g : StmtGoal} {s s' : TokenSource} {e : ASTNode}
    {events : List Event} (h : ReadsStmt g s e s' events) :
    match g with
    | .stmt => Compiler.implemented e = true
    | .block stmts => implementedAll stmts = true → Compiler.implemented e = true ∧ isBlock e = true
    | .program stmts => implementedAll stmts = true → Compiler.implemented e = true := by
  induction h with
  | varDecl _ _ _ value => exact value.implemented
  | varDeclTyped _ _ _ _ value => exact value.implemented
  | primary _ inner => exact inner.implemented
  | block _ _ ih => exact (ih rfl).1
  | ifThen _ _ condition _ _ _ _ ih =>
      unfold Compiler.implemented
      rw [condition.implemented, (ih rfl).1]
      rfl
  | ifElse _ _ condition _ _ _ _ _ _ ih₁ ih₂ =>
      unfold Compiler.implemented
      -- the branch behind `else` is a block
      rw [condition.implemented, (ih₁ rfl).1, (ih₂ rfl).1, (ih₂ rfl).2]
      rfl
  | blockEnd => exact fun h => ⟨h, rfl⟩
  | blockStmt _ _ _ ih₁ ih₂ => exact fun h => ih₂ (implementedAll_snoc h ih₁)
  | blockSkip _ _ _ _ ih => exact ih
  | programEnd => exact fun h => h
  | programStmt _ _ _ ih₁ ih₂ => exact fun h => ih₂ (implementedAll_snoc h ih₁)
  | programSkip _ _ ih => exact ih

/-! ## §3. A derivation is one of the ways to write its tree. -/

/-- The operators that are implemented. -/
theorem opsAt_of_ebnfOps {p : Nat} {t : TokenType} (h : ebnfOps p t = true)
    (hlower : t ≠ .LOWER_EQ) (hgreater : t ≠ .GREATER_EQ) : opsAt p t = true := by
  match p, h with
  | 2, h | 3, h | 4, h | 5, h =>
      revert h hlower hgreater
      cases t <;> decide

/-- How the derivation of an implemented tree is written in the syntax of the
parser. -/
def Nonterminal.Written (e : ASTNode) (ts : List Token) : Nonterminal → Prop
  | .simplePrimary => Renders (.expr 0 false) e ts
  | .expr p => Renders (.expr p false) e ts
  | .positionalArgList x | .namedArgList x => ∀ args, e = .funcCall x args → ∀ before semi,
      semi.type = .SEMICOLON → Renders (.args x before) (.funcCall x (before ++ args)) (ts ++ [semi])
  | .funcCall => Renders (.expr 0 false) e ts ∧ (front ts).type = .IDENT
  | .ifRest => ∀ i, i.type = .IF → RendersStmt .stmt e (i :: ts)
  | .statement => RendersStmt .stmt e ts
  | .block => ∀ stmts, e = .block stmts → ∀ before r, r.type = .R_CURL_BRKT →
      RendersStmt (.block before) (.block (before ++ stmts)) (ts ++ [r])
  | .program => ∀ stmts, e = .program stmts → ∀ before,
      RendersStmt (.program before) (.program (before ++ stmts)) ts

/-- An argument list is given by a call. -/
theorem Ebnf.isCall {nt : Nonterminal} {e : ASTNode} {ts : List Token} {x : String}
    (h : Ebnf nt e ts) (hnt : nt = .positionalArgList x ∨ nt = .namedArgList x) :
    ∃ args, e = .funcCall x args := by
  cases h with
  | positionalArg | positionalArgs | namedArg | namedArgs =>
      simp only [Nonterminal.positionalArgList.injEq, Nonterminal.namedArgList.injEq, reduceCtorEq,
        or_false, false_or] at hnt
      exact ⟨_, by rw [hnt]⟩
  | _ => exact absurd hnt (by simp)

/-- What follows `else if` is no block. -/
theorem Ebnf.not_isBlock {nt : Nonterminal} {e : ASTNode} {ts : List Token} (h : Ebnf nt e ts)
    (hnt : nt = .ifRest) : isBlock e = false := by
  cases h with
  | ifOnly | ifElse | ifElseIf => rfl
  | _ => exact absurd hnt (by simp)

/-- **A derivation that keeps to what is implemented is one of the ways to
write its tree.** -/
theorem Ebnf.written {nt : Nonterminal} {e : ASTNode} {ts : List Token} (h : Ebnf nt e ts)
    (himpl : implemented e = true) : nt.Written e ts := by
  induction h with
  | intLit type value => exact .number type value (of_decide_eq_true himpl)
  | identifier type => exact .ident type
  | simple _ ih => exact ih himpl
  | call _ ih => exact (ih himpl).1
  | paren left _ right ih => exact .paren left (ih himpl) right
  | sign type _ ih =>
      -- the operand of a sign is a primary
      have hinner : Renders (.expr 0 false) _ _ := ih himpl
      exact .unary type.symm (.lift hinner)
  | first _ ih => exact .lift (ih himpl)
  | @more p t left right ts ts' _ op _ ih₁ ih₂ =>
      unfold implemented at himpl
      simp only [Bool.and_eq_true, decide_eq_true_eq] at himpl
      obtain ⟨⟨⟨hlower, hgreater⟩, hleft⟩, hright⟩ := himpl
      exact .binary (ih₁ hleft) (opsAt_of_ebnfOps op hlower hgreater) (ih₂ hright)
  | @positionalArg x a ts _ ih =>
      rintro args ⟨⟩ before semi hsemi
      have ha : implemented a = true := ((Bool.and_true _).symm.trans himpl)
      exact .argsLast (ih ha) hsemi
  | @positionalArgs x a args comma ts ts' _ hcomma _ ih₁ ih₂ =>
      rintro args' ⟨⟩ before semi hsemi
      obtain ⟨ha, hargs⟩ := (Bool.and_eq_true _ _).mp himpl
      -- the arguments behind the comma, after one more
      have hrest := ih₂ hargs args rfl (before ++ [a]) semi hsemi
      rw [List.append_assoc, List.singleton_append] at hrest
      rw [List.append_assoc]
      exact .argsComma (ih₁ ha) hcomma hrest
  | @namedArg x t eq a ts type heq _ ih =>
      rintro args ⟨⟩ before semi hsemi
      have ha : implemented a = true := ((Bool.and_true _).symm.trans himpl)
      -- a named argument is an assignment in the tree
      have harg : Renders (.expr 0 true) (.varAssign t.content a) (t :: eq :: ts) :=
        .assign type heq (ih ha)
      exact .argsLast (harg.lift_le (Nat.zero_le 5)) hsemi
  | @namedArgs x t eq comma a args ts ts' type heq _ hcomma _ ih₁ ih₂ =>
      rintro args' ⟨⟩ before semi hsemi
      obtain ⟨ha, hargs⟩ := (Bool.and_eq_true _ _).mp himpl
      have harg : Renders (.expr 0 true) (.varAssign t.content a) (t :: eq :: ts) :=
        .assign type heq (ih₁ ha)
      have hrest := ih₂ hargs args rfl (before ++ [.varAssign t.content a]) semi hsemi
      rw [List.append_assoc, List.singleton_append] at hrest
      have hall := Renders.argsComma (harg.lift_le (Nat.zero_le 5)) hcomma hrest
      simp only [List.cons_append, List.append_assoc] at hall ⊢
      exact hall
  | callEmpty type hcolon hsemi => exact ⟨.call type hcolon (.argsEnd hsemi), type⟩
  | callPositional type hcolon args hsemi ih =>
      obtain ⟨found, hfound⟩ := args.isCall (Or.inl rfl)
      have hargs := ih himpl found hfound [] _ hsemi
      rw [hfound]
      exact ⟨.call type hcolon hargs, type⟩
  | callNamed type hcolon args hsemi ih =>
      obtain ⟨found, hfound⟩ := args.isCall (Or.inr rfl)
      have hargs := ih himpl found hfound [] _ hsemi
      rw [hfound]
      exact ⟨.call type hcolon hargs, type⟩
  | varDecl hv hx heq _ ih => exact .varDecl hv hx heq (ih himpl)
  | varDeclTyped hv hx harrow htype heq _ ih =>
      exact .varDeclTyped hv hx harrow htype heq (ih himpl)
  | assignment type heq _ ih => exact .primary type (.assign type heq (ih himpl))
  | exprStmt _ ih => exact .primary (ih himpl).2 (ih himpl).1
  | ifStmt hi _ ih => exact ih himpl _ hi
  | @ifOnly p r l r' e stmts ts ts' hp _ hr hl _ hr' ih₁ ih₂ =>
      intro i hi
      obtain ⟨he, hstmts⟩ := (Bool.and_eq_true _ _).mp himpl
      exact .ifThen hi hp (ih₁ he) hr hl (ih₂ hstmts stmts rfl [] r' hr')
  | @ifElse p r l r' els l' r'' e stmts stmts' ts ts' ts'' hp _ hr hl _ hr' hels hl' _ hr''
      ih₁ ih₂ ih₃ =>
      intro i hi
      unfold implemented at himpl
      simp only [Bool.and_eq_true] at himpl
      obtain ⟨⟨⟨he, hstmts⟩, hstmts'⟩, -⟩ := himpl
      have hall := RendersStmt.ifElse hi hp (ih₁ he) hr hl (ih₂ hstmts stmts rfl [] r' hr') hels hl'
        (ih₃ hstmts' stmts' rfl [] r'' hr'')
      simp only [List.append_assoc, List.singleton_append] at hall ⊢
      exact hall
  | @ifElseIf p r l r' els i e c stmts ts ts' ts'' _ _ _ _ _ _ _ _ rest =>
      -- the tree of an `else if` is no block
      unfold implemented at himpl
      rw [rest.not_isBlock rfl, Bool.and_false] at himpl
      exact absurd himpl (by decide)
  | blockNil =>
      rintro stmts ⟨⟩ before r hr
      rw [List.append_nil]
      exact .blockEnd hr
  | @blockCons a stmts ts ts' _ _ ih₁ ih₂ =>
      rintro stmts' ⟨⟩ before r hr
      obtain ⟨ha, hstmts⟩ := (Bool.and_eq_true _ _).mp himpl
      -- the statements behind the first, after one more
      have hrest := ih₂ hstmts stmts rfl (before ++ [a]) r hr
      rw [List.append_assoc, List.singleton_append] at hrest
      rw [List.append_assoc]
      exact .blockStmt (ih₁ ha) hrest
  | programNil =>
      rintro stmts ⟨⟩ before
      rw [List.append_nil]
      exact .programEnd
  | @programCons a stmts ts ts' _ _ ih₁ ih₂ =>
      rintro stmts' ⟨⟩ before
      obtain ⟨ha, hstmts⟩ := (Bool.and_eq_true _ _).mp himpl
      have hrest := ih₂ hstmts stmts rfl (before ++ [a])
      rw [List.append_assoc, List.singleton_append] at hrest
      exact .programStmt (ih₁ ha) hrest

/-! ## §4. Completeness. -/

/-- **`parseProgram` returns the tree of a derivation if and only if the
derivation keeps to what is implemented**: no `<=` and no `>=`, no `else if`,
and integers below `2^63`. -/
theorem parse_derived_iff {tokens : List Token} {stmts : List ASTNode}
    (h : Ebnf .program (.program stmts) tokens) :
    parseProgram tokens = .ok (.program stmts) ↔ implemented (.program stmts) = true := by
  constructor
  · intro hok
    obtain ⟨events, hread⟩ := parseProgram_eq_ok_iff.1 hok
    exact hread.implemented rfl
  · intro himpl
    obtain ⟨events, hread, -⟩ := reads_of_rendersStmt (h.written himpl stmts rfl [])
    exact parseProgram_eq_ok_iff.2 ⟨events, hread⟩

/-- The tokens of `x = a <op> b`. -/
def comparison (op : Token) : List Token :=
  [⟨.IDENT, "x"⟩, ⟨.EQ, "="⟩, ⟨.IDENT, "a"⟩, op, ⟨.IDENT, "b"⟩]

/-- Their derivation. -/
theorem comparison_derived {op : Token} (hop : ebnfOps 4 op.type = true) :
    Ebnf .program (.program [.varAssign "x" (.binaryOp op.type (.ident "a") (.ident "b"))])
      (comparison op) := by
  have hident : ∀ x : String, Ebnf (.expr 3) (.ident x) [⟨.IDENT, x⟩] := fun x =>
    .first (.first (.first (.simple (.identifier (t := ⟨.IDENT, x⟩) rfl))))
  have hvalue := Ebnf.first (.more (.first (hident "a")) hop (hident "b"))
  have hassign : Ebnf .statement (.varAssign "x" (.binaryOp op.type (.ident "a") (.ident "b")))
      (comparison op) := .assignment (t := ⟨.IDENT, "x"⟩) rfl rfl hvalue
  exact .programCons hassign .programNil

/-- Both sides hold of `x = a < b`. -/
theorem parse_derived_iff_lower :
    parseProgram (comparison ⟨.LOWER, "<"⟩)
        = .ok (.program [.varAssign "x" (.binaryOp .LOWER (.ident "a") (.ident "b"))]) ↔
      implemented (.program [.varAssign "x" (.binaryOp .LOWER (.ident "a") (.ident "b"))]) = true :=
  parse_derived_iff (@comparison_derived ⟨.LOWER, "<"⟩ rfl)

/-- **`x = a <= b` is split in two**: an assignment of `a`, and `b`. -/
theorem lowerEq_splits :
    Ebnf .program (.program [.varAssign "x" (.binaryOp .LOWER_EQ (.ident "a") (.ident "b"))])
      (comparison ⟨.LOWER_EQ, "<="⟩) ∧
    parseProgram (comparison ⟨.LOWER_EQ, "<="⟩)
      = .ok (.program [.varAssign "x" (.ident "a"), .ident "b"]) :=
  ⟨@comparison_derived ⟨.LOWER_EQ, "<="⟩ rfl, rfl⟩

end SproutLang.Compiler
