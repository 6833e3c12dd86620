/-
  SproutLang.Compiler.Reading
  ───────────────────────────
  **WHAT THE EXPRESSION PARSER READS.**

  `Reads g s e s'` says that the function `g` stands for, started on the
  tokens `s`, returns the tree `e` and leaves `s'`.  It has one rule for each
  way through the source, with the tokens looked at as premises, and no fuel:

    • `parseExpression_sound` — what a function returns, it reads,
    • `parser_of_reads`       — with more fuel than tokens the function returns
                                it.
-/
import SproutLang.Compiler.Parser

namespace SproutLang.Compiler

open Library

/-! ## §1. The functions by level. -/

/-- The operators of a binary level. -/
def opsAt : Nat → TokenType → Bool
  | 2 => multiplicativeOps
  | 3 => additiveOps
  | 4 => comparisonOps
  | 5 => logicalOps
  | _ => fun _ => false

/-- `parsePrimary`, `parseUnary` and the four binary levels. -/
def levelParser (expr : Parse ASTNode) (fuel : Nat) : Nat → Parse ASTNode
  | 0 => parsePrimary expr fuel
  | 1 => parseUnary expr fuel
  | n + 2 => parseBinary (opsAt (n + 2)) (levelParser expr fuel (n + 1)) fuel

/-- `parseExpression` is the parser of level 5. -/
theorem parseExpression_succ (fuel : Nat) :
    parseExpression (fuel + 1) = levelParser (parseExpression fuel) fuel 5 := rfl

/-- A function of the parser, or a loop with what it has so far. -/
inductive Goal where
  | level (n : Nat)
  | loop (n : Nat) (left : ASTNode)
  | args (identifier : String) (args : List ASTNode)

/-- `inner` is the fuel of the operands of a loop. -/
def Goal.parser (expr : Parse ASTNode) (inner fuel : Nat) : Goal → Parse ASTNode
  | .level n => levelParser expr fuel n
  | .loop n left => binaryLoop (opsAt n) (levelParser expr inner (n - 1)) fuel left
  | .args identifier found => finishCall expr fuel identifier found

/-- **One rule for each way through the expression parser.** -/
inductive Reads : Goal → TokenSource → ASTNode → TokenSource → Prop
  | number {t : Token} {s : TokenSource} {n : Int} (type : t.type = .NUMBER)
      (value : stoll t.content = .ok n) : Reads (.level 0) (t :: s) (.intLiteral n) s
  | call {t colon : Token} {s s' : TokenSource} {e : ASTNode} (type : t.type = .IDENT)
      (hcolon : colon.type = .COLON) (args : Reads (.args t.content []) s e s') :
      Reads (.level 0) (t :: colon :: s) e s'
  | assign {t eq : Token} {s s' : TokenSource} {e : ASTNode} (type : t.type = .IDENT)
      (heq : eq.type = .EQ) (value : Reads (.level 5) s e s') :
      Reads (.level 0) (t :: eq :: s) (.varAssign t.content e) s'
  | ident {t : Token} {s : TokenSource} (type : t.type = .IDENT)
      (noCall : (front s).type ≠ .COLON) (noAssign : (front s).type ≠ .EQ) :
      Reads (.level 0) (t :: s) (.ident t.content) s
  | paren {l r : Token} {s s' : TokenSource} {e : ASTNode} (left : l.type = .L_PAREN)
      (inner : Reads (.level 5) s e (r :: s')) (right : r.type = .R_PAREN) :
      Reads (.level 0) (l :: s) e s'
  | unary {t : Token} {s s' : TokenSource} {e : ASTNode} (type : t.type = .MINUS ∨ t.type = .NOT)
      (operand : Reads (.level 1) s e s') : Reads (.level 1) (t :: s) (.unaryOp t.type e) s'
  | primary {s s' : TokenSource} {e : ASTNode}
      (noSign : ¬ ((front s).type = .MINUS ∨ (front s).type = .NOT))
      (inner : Reads (.level 0) s e s') : Reads (.level 1) s e s'
  | binary {n : Nat} {s s₁ s' : TokenSource} {left e : ASTNode}
      (first : Reads (.level (n + 1)) s left s₁) (loop : Reads (.loop (n + 2) left) s₁ e s') :
      Reads (.level (n + 2)) s e s'
  | loopEnd {n : Nat} {left : ASTNode} {s : TokenSource} (stop : opsAt n (front s).type = false) :
      Reads (.loop n left) s left s
  | loopStep {n : Nat} {left right e : ASTNode} {t : Token} {s s₁ s' : TokenSource}
      (op : opsAt (n + 2) t.type = true) (operand : Reads (.level (n + 1)) s right s₁)
      (loop : Reads (.loop (n + 2) (.binaryOp t.type left right)) s₁ e s') :
      Reads (.loop (n + 2) left) (t :: s) e s'
  | argsEnd {x : String} {args : List ASTNode} {t : Token} {s : TokenSource}
      (type : t.type = .SEMICOLON) : Reads (.args x args) (t :: s) (.funcCall x args) s
  | argsComma {x : String} {args : List ASTNode} {a e : ASTNode} {comma : Token}
      {s s₁ s' : TokenSource} (more : (front s).type ≠ .SEMICOLON)
      (arg : Reads (.level 5) s a (comma :: s₁)) (hcomma : comma.type = .COMMA)
      (rest : Reads (.args x (args ++ [a])) s₁ e s') : Reads (.args x args) s e s'
  | argsLast {x : String} {args : List ASTNode} {a : ASTNode} {t : Token} {s s₁ : TokenSource}
      (more : (front s).type ≠ .SEMICOLON) (arg : Reads (.level 5) s a (t :: s₁))
      (type : t.type = .SEMICOLON) : Reads (.args x args) s (.funcCall x (args ++ [a])) s₁

/-! ## §2. The token source. -/

section Source

variable {α : Type} {f : Token → Parse α} {s s' : TokenSource} {t : Token} {type : TokenType}

theorem front_cons : front (t :: s) = t := rfl

theorem peek_bind : (peek >>= f) s = f (front s) s := rfl

theorem advance_bind : (advance >>= f) s = f (front s) s.tail := rfl

theorem expect_bind (h : t.type = type) : (expect type >>= f) (t :: s) = f t s := by
  have hexpect : expect type (t :: s) = .ok t s := if_pos h
  rw [bind_ok hexpect]

/-- What `expect` lets pass. -/
theorem expect_eq_ok (h : expect type s = .ok t s') : t.type = type ∧ s = t :: s' := by
  unfold expect at h
  cases s with
  | nil => exact absurd h (by simp)
  | cons u s =>
      simp only at h
      split at h
      · rename_i htype
        injection h with htoken hrest
        subst htoken hrest
        exact ⟨htype, rfl⟩
      · exact absurd h (by simp)

/-- A front token that is not the end of the file is there. -/
theorem cons_of_front (h : (front s).type ≠ .END_OF_FILE) : s = front s :: s.tail := by
  cases s with
  | nil => exact absurd rfl h
  | cons t s => rfl

theorem cons_of_front_eq (h : (front s).type = type) (hne : type ≠ .END_OF_FILE) :
    s = front s :: s.tail := cons_of_front (by rw [h]; exact hne)

end Source

/-- The end of the file is no operator, and neither level 0 nor 1 has one. -/
theorem opsAt_inv {n : Nat} {t : TokenType} (h : opsAt n t = true) :
    t ≠ .END_OF_FILE ∧ ∃ m, n = m + 2 := by
  match n, h with
  | 2, h => exact ⟨by rintro rfl; exact absurd h (by decide), 0, rfl⟩
  | 3, h => exact ⟨by rintro rfl; exact absurd h (by decide), 1, rfl⟩
  | 4, h => exact ⟨by rintro rfl; exact absurd h (by decide), 2, rfl⟩
  | 5, h => exact ⟨by rintro rfl; exact absurd h (by decide), 3, rfl⟩

/-! ## §3. What a function returns, it reads. -/

/-- `expr` returns only what `parseExpression` reads. -/
def ExprSound (expr : Parse ASTNode) : Prop :=
  ∀ {s e s'}, expr s = .ok e s' → Reads (.level 5) s e s'

section Sound

variable {expr : Parse ASTNode} (hexpr : ExprSound expr) {s s' : TokenSource} {e : ASTNode}
include hexpr

/-- What `finishCall` returns is read by the rules of arguments. -/
theorem finishCall_sound {x : String} (fuel : Nat) :
    ∀ {args s}, finishCall expr fuel x args s = .ok e s' → Reads (.args x args) s e s' := by
  induction fuel with
  | zero =>
      intro args s h
      have hfuel : finishCall expr 0 x args s = .error .outOfFuel s := rfl
      rw [hfuel] at h
      exact absurd h (by simp)
  | succ fuel ih =>
      intro args s h
      unfold finishCall at h
      obtain ⟨args', s₁, hloop, h⟩ := bind_eq_ok.1 h
      unfold argLoop at hloop
      rw [peek_bind] at hloop
      split at hloop
      · rename_i hsemi
        injection hloop with hargs hs
        subst hargs hs
        rw [advance_bind] at h
        injection h with he hs
        rw [← he, ← hs, cons_of_front_eq hsemi (by decide)]
        -- the semicolon is taken with the call
        exact .argsEnd hsemi
      · rename_i hmore
        obtain ⟨a, s₂, harg, hloop⟩ := bind_eq_ok.1 hloop
        have harg := hexpr harg
        rw [peek_bind] at hloop
        split at hloop
        · rename_i hcomma
          rw [advance_bind] at hloop
          -- a comma: the loop goes on behind it
          have hrest : finishCall expr fuel x (args ++ [a]) s₂.tail = .ok e s' := by
            unfold finishCall
            rw [bind_ok hloop]
            exact h
          rw [cons_of_front_eq hcomma (by decide)] at harg
          exact .argsComma hmore harg hcomma (ih hrest)
        · split at hloop
          · rename_i hsemi
            have hrest : finishCall expr fuel x (args ++ [a]) s₂ = .ok e s' := by
              unfold finishCall
              rw [bind_ok hloop]
              exact h
            have hread := ih hrest
            rw [cons_of_front_eq hsemi (by decide)] at harg hread
            -- at the semicolon the next round ends
            cases hread with
            | argsEnd => exact .argsLast hmore harg hsemi
            | argsComma more => exact absurd hsemi more
            | argsLast more => exact absurd hsemi more
          · exact absurd hloop (by simp [throw_apply])

/-- A primary is read by those of level 0. -/
theorem parsePrimary_sound {fuel : Nat} (h : parsePrimary expr fuel s = .ok e s') :
    Reads (.level 0) s e s' := by
  unfold parsePrimary at h
  rw [peek_bind] at h
  split at h
  · rename_i hnumber
    rw [advance_bind] at h
    obtain ⟨n, s₁, hread, h⟩ := bind_eq_ok.1 h
    injection h with he hs
    unfold readNumber at hread
    -- only the value of a number can be refused
    cases hvalue : stoll (front s).content with
    | error err =>
        simp only [hvalue] at hread
        exact absurd hread (by simp)
    | ok m =>
        simp only [hvalue] at hread
        injection hread with hm hs₁
        rw [← he, ← hs, ← hm, ← hs₁, cons_of_front_eq hnumber (by decide)]
        exact .number hnumber hvalue
  · split at h
    · rename_i hident
      have hs := cons_of_front_eq hident (by decide)
      rw [advance_bind, peek_bind] at h
      split at h
      · rename_i hcolon
        rw [advance_bind] at h
        rw [hs, cons_of_front_eq hcolon (by decide)]
        -- an identifier with a colon behind it
        exact .call hident hcolon (finishCall_sound hexpr fuel h)
      · rename_i hnocall
        split at h
        · rename_i heq
          rw [cons_of_front_eq heq (by decide), expect_bind heq] at h
          obtain ⟨value, s₁, hvalue, h⟩ := bind_eq_ok.1 h
          injection h with he hs'
          rw [← he, ← hs', hs, cons_of_front_eq heq (by decide)]
          exact .assign hident heq (hexpr hvalue)
        · rename_i hnoassign
          injection h with he hs'
          -- an identifier alone
          have hread := Reads.ident hident hnocall hnoassign
          rw [← hs] at hread
          rw [← he, ← hs']
          exact hread
    · split at h
      · rename_i hparen
        rw [advance_bind] at h
        obtain ⟨inner, s₁, hinner, h⟩ := bind_eq_ok.1 h
        obtain ⟨r, s₂, hright, h⟩ := bind_eq_ok.1 h
        injection h with he hs'
        obtain ⟨hr, rfl⟩ := expect_eq_ok hright
        rw [← he, ← hs', cons_of_front_eq hparen (by decide)]
        exact .paren hparen (hexpr hinner) hr
      · exact absurd h (by simp [throw_apply])

/-- A unary expression is read by those of level 1. -/
theorem parseUnary_sound (fuel : Nat) :
    ∀ {s e s'}, parseUnary expr fuel s = .ok e s' → Reads (.level 1) s e s' := by
  induction fuel with
  | zero =>
      intro s e s' h
      exact absurd h (by simp [parseUnary, throw_apply])
  | succ fuel ih =>
      intro s e s' h
      unfold parseUnary at h
      rw [peek_bind] at h
      split at h
      · rename_i hsign
        rw [advance_bind] at h
        obtain ⟨operand, s₁, hoperand, h⟩ := bind_eq_ok.1 h
        injection h with he hs
        -- a sign is a token
        have hne : (front s).type ≠ .END_OF_FILE := by
          rcases hsign with h | h
          · rw [h]
            decide
          · rw [h]
            decide
        rw [← he, ← hs, cons_of_front hne]
        exact .unary hsign (ih hoperand)
      · rename_i hnosign
        exact .primary hnosign (parsePrimary_sound hexpr h)

omit hexpr in
/-- The loop of a binary level is read by those of the loop. -/
theorem binaryLoop_sound {n : Nat} {operand : Parse ASTNode}
    (hoperand : ∀ {s e s'}, operand s = .ok e s' → Reads (.level (n + 1)) s e s') (fuel : Nat) :
    ∀ {s left e s'}, binaryLoop (opsAt (n + 2)) operand fuel left s = .ok e s' →
      Reads (.loop (n + 2) left) s e s' := by
  induction fuel with
  | zero =>
      intro s left e s' h
      exact absurd h (by simp [binaryLoop, throw_apply])
  | succ fuel ih =>
      intro s left e s' h
      unfold binaryLoop at h
      rw [peek_bind] at h
      split at h
      · rename_i hop
        rw [advance_bind] at h
        obtain ⟨right, s₁, hright, h⟩ := bind_eq_ok.1 h
        rw [cons_of_front (opsAt_inv hop).1]
        -- the tree so far becomes the left operand
        exact .loopStep hop (hoperand hright) (ih h)
      · rename_i hstop
        injection h with he hs
        rw [← he, ← hs]
        exact .loopEnd (Bool.eq_false_iff.2 hstop)

/-- Every level is read by its own. -/
theorem levelParser_sound {fuel : Nat} (n : Nat) :
    ∀ {s e s'}, levelParser expr fuel n s = .ok e s' → Reads (.level n) s e s' := by
  induction n using Nat.twoStepInduction with
  | zero => exact fun h => parsePrimary_sound hexpr h
  | one => exact fun h => parseUnary_sound hexpr fuel h
  | more n _ ih =>
      intro s e s' h
      have hbinary : parseBinary (opsAt (n + 2)) (levelParser expr fuel (n + 1)) fuel s = .ok e s' := h
      unfold parseBinary at hbinary
      obtain ⟨left, s₁, hfirst, hloop⟩ := bind_eq_ok.1 hbinary
      exact .binary (ih hfirst) (binaryLoop_sound ih fuel hloop)

end Sound

/-- **What `parseExpression` returns, it reads.** -/
theorem parseExpression_sound (fuel : Nat) : ExprSound (parseExpression fuel) := by
  induction fuel with
  | zero =>
      intro s e s' h
      exact absurd h (by simp [parseExpression, throw_apply])
  | succ fuel ih =>
      intro s e s' h
      rw [parseExpression_succ] at h
      exact levelParser_sound ih 5 h

/-! ## §4. One rule, one result. -/

section Rules

variable {expr : Parse ASTNode} {fuel : Nat} {t u : Token} {s s₁ s' : TokenSource} {e a : ASTNode}
  {x : String} {args args' : List ASTNode}

/-- A number is a literal. -/
theorem parsePrimary_number {n : Int} (type : t.type = .NUMBER) (value : stoll t.content = .ok n) :
    parsePrimary expr fuel (t :: s) = .ok (.intLiteral n) s := by
  have hread : readNumber t s = .ok n s := by
    unfold readNumber
    rw [value]
  unfold parsePrimary
  rw [peek_bind, front_cons, if_pos type, advance_bind, List.tail_cons, bind_ok hread]
  rfl

/-- A number that `stoll` refuses is an error. -/
theorem parsePrimary_refused {err : ParseError} (type : t.type = .NUMBER)
    (value : stoll t.content = .error err) : parsePrimary expr fuel (t :: s) = .error err s := by
  have hread : readNumber t s = .error err s := by
    unfold readNumber
    rw [value]
  unfold parsePrimary
  rw [peek_bind, front_cons, if_pos type, advance_bind, List.tail_cons, bind_error hread]

/-- An identifier with a colon begins a call. -/
theorem parsePrimary_call (type : t.type = .IDENT) (hcolon : u.type = .COLON) :
    parsePrimary expr fuel (t :: u :: s) = finishCall expr fuel t.content [] s := by
  have hne : t.type ≠ .NUMBER := by rw [type]; decide
  unfold parsePrimary
  rw [peek_bind, front_cons, if_neg hne, if_pos type, advance_bind, List.tail_cons, peek_bind,
    front_cons, if_pos hcolon, advance_bind, List.tail_cons]

/-- With an equals sign it is assigned to. -/
theorem parsePrimary_assign (type : t.type = .IDENT) (heq : u.type = .EQ)
    (value : expr s = .ok e s') :
    parsePrimary expr fuel (t :: u :: s) = .ok (.varAssign t.content e) s' := by
  have hne : t.type ≠ .NUMBER := by rw [type]; decide
  have hnocall : u.type ≠ .COLON := by rw [heq]; decide
  unfold parsePrimary
  rw [peek_bind, front_cons, if_neg hne, if_pos type, advance_bind, List.tail_cons, peek_bind,
    front_cons, if_neg hnocall, if_pos heq, expect_bind heq, bind_ok value]
  rfl

/-- Otherwise it stands for itself. -/
theorem parsePrimary_ident (type : t.type = .IDENT) (noCall : (front s).type ≠ .COLON)
    (noAssign : (front s).type ≠ .EQ) :
    parsePrimary expr fuel (t :: s) = .ok (.ident t.content) s := by
  have hne : t.type ≠ .NUMBER := by rw [type]; decide
  unfold parsePrimary
  rw [peek_bind, front_cons, if_neg hne, if_pos type, advance_bind, List.tail_cons, peek_bind,
    if_neg noCall, if_neg noAssign]
  rfl

/-- Parentheses leave no node. -/
theorem parsePrimary_paren (left : t.type = .L_PAREN) (inner : expr s = .ok e (u :: s'))
    (right : u.type = .R_PAREN) : parsePrimary expr fuel (t :: s) = .ok e s' := by
  have hnumber : t.type ≠ .NUMBER := by rw [left]; decide
  have hident : t.type ≠ .IDENT := by rw [left]; decide
  unfold parsePrimary
  rw [peek_bind, front_cons, if_neg hnumber, if_neg hident, if_pos left, advance_bind,
    List.tail_cons, bind_ok inner, expect_bind right]
  rfl

/-- A sign and its operand. -/
theorem parseUnary_sign (type : t.type = .MINUS ∨ t.type = .NOT)
    (operand : parseUnary expr fuel s = .ok e s') :
    parseUnary expr (fuel + 1) (t :: s) = .ok (.unaryOp t.type e) s' := by
  unfold parseUnary
  rw [peek_bind, front_cons, if_pos type, advance_bind, List.tail_cons, bind_ok operand]
  rfl

/-- Without a sign, a primary. -/
theorem parseUnary_primary (noSign : ¬ ((front s).type = .MINUS ∨ (front s).type = .NOT)) :
    parseUnary expr (fuel + 1) s = parsePrimary expr fuel s := by
  unfold parseUnary
  rw [peek_bind, if_neg noSign]

section Loop

variable {ops : TokenType → Bool} {operand : Parse ASTNode} {left : ASTNode}

/-- The loop stops where no operator of the level is in front. -/
theorem binaryLoop_stop (stop : ops (front s).type = false) :
    binaryLoop ops operand (fuel + 1) left s = .ok left s := by
  unfold binaryLoop
  rw [peek_bind, stop, if_neg Bool.false_ne_true]
  rfl

/-- And takes an operand for each operator. -/
theorem binaryLoop_step (op : ops t.type = true) (right : operand s = .ok a s₁) :
    binaryLoop ops operand (fuel + 1) left (t :: s)
      = binaryLoop ops operand fuel (.binaryOp t.type left a) s₁ := by
  conv_lhs => unfold binaryLoop
  rw [peek_bind, front_cons, if_pos op, advance_bind, List.tail_cons, bind_ok right, front_cons]

end Loop

/-- A semicolon ends the arguments. -/
theorem argLoop_end (type : t.type = .SEMICOLON) :
    argLoop expr (fuel + 1) args (t :: s) = .ok args (t :: s) := by
  unfold argLoop
  rw [peek_bind, front_cons, if_pos type]
  rfl

/-- A comma separates them. -/
theorem argLoop_comma (more : (front s).type ≠ .SEMICOLON) (arg : expr s = .ok a (u :: s₁))
    (hcomma : u.type = .COMMA) :
    argLoop expr (fuel + 1) args s = argLoop expr fuel (args ++ [a]) s₁ := by
  conv_lhs => unfold argLoop
  rw [peek_bind, if_neg more, bind_ok arg, peek_bind, front_cons, if_pos hcomma, advance_bind,
    List.tail_cons]

/-- The last one is followed by the semicolon. -/
theorem argLoop_last (more : (front s).type ≠ .SEMICOLON) (arg : expr s = .ok a (t :: s₁))
    (type : t.type = .SEMICOLON) :
    argLoop expr (fuel + 2) args s = .ok (args ++ [a]) (t :: s₁) := by
  have hne : t.type ≠ .COMMA := by rw [type]; decide
  have hend : argLoop expr (fuel + 1) (args ++ [a]) (t :: s₁) = .ok (args ++ [a]) (t :: s₁) :=
    argLoop_end type
  unfold argLoop
  rw [peek_bind, if_neg more, bind_ok arg, peek_bind, front_cons, if_neg hne, if_pos type, hend]

/-- The call takes its semicolon. -/
theorem finishCall_ok (h : argLoop expr fuel args s = .ok args' (t :: s₁)) :
    finishCall expr fuel x args s = .ok (.funcCall x args') s₁ := by
  unfold finishCall
  rw [bind_ok h]
  rfl

/-- A call goes on behind an argument as if it had been found before. -/
theorem finishCall_step {fuel' : Nat} (h : argLoop expr fuel' args s = argLoop expr fuel args' s₁) :
    finishCall expr fuel' x args s = finishCall expr fuel x args' s₁ := by
  unfold finishCall
  exact bind_eq_bind h

end Rules

/-! ## §5. What is read, the function returns. -/

/-- Tokens a function takes at least. -/
def Goal.takes : Goal → Nat
  | .loop _ _ => 0
  | _ => 1

/-- **Every rule takes tokens.** -/
theorem Reads.length {g : Goal} {s s' : TokenSource} {e : ASTNode} (h : Reads g s e s') :
    s'.length + g.takes ≤ s.length := by
  induction h with
  | number | argsEnd => exact Nat.le_refl _
  | ident => exact Nat.le_refl _
  | call _ _ _ ih | assign _ _ _ ih | paren _ _ _ ih | unary _ _ ih =>
      simp only [Goal.takes, List.length_cons] at ih ⊢
      omega
  | primary _ _ ih => exact ih
  | loopEnd => exact Nat.le_refl _
  | binary _ _ ih₁ ih₂ | argsComma _ _ _ _ ih₁ ih₂ | loopStep _ _ _ ih₁ ih₂ =>
      simp only [Goal.takes, List.length_cons] at ih₁ ih₂ ⊢
      omega
  | argsLast _ _ _ ih =>
      simp only [Goal.takes, List.length_cons] at ih ⊢
      omega

/-- **Fuel that suffices** for a goal on `s`.  An argument is parsed with
nothing taken in between, so it needs one level more; `parsePrimary` has no
loop before it has taken a token. -/
def Goal.Fueled (s : TokenSource) (depth inner fuel : Nat) : Goal → Prop
  | .level 0 => s.length < depth ∧ s.length < inner ∧ s.length < fuel + 1
  | .args _ _ => s.length + 1 < depth ∧ s.length < inner ∧ s.length < fuel
  | _ => s.length < depth ∧ s.length < inner ∧ s.length < fuel

/-- Every level has enough if `parseUnary` has. -/
theorem Goal.fueled_level {s : TokenSource} {depth inner fuel : Nat} (n : Nat)
    (hdepth : s.length < depth) (hinner : s.length < inner) (hfuel : s.length < fuel) :
    (Goal.level n).Fueled s depth inner fuel := by
  cases n with
  | zero => exact ⟨hdepth, hinner, Nat.lt_succ_of_lt hfuel⟩
  | succ n => exact ⟨hdepth, hinner, hfuel⟩

/-- **With more fuel than tokens a function returns what is read.** -/
theorem parser_of_reads {g : Goal} {s s' : TokenSource} {e : ASTNode} (h : Reads g s e s') :
    ∀ {depth inner fuel : Nat}, g.Fueled s depth inner fuel →
      g.parser (parseExpression depth) inner fuel s = .ok e s' := by
  -- an expression inside is parsed with one level less
  have hexpr : ∀ {s s' : TokenSource} {e : ASTNode} {depth : Nat},
      (∀ {depth inner fuel : Nat}, (Goal.level 5).Fueled s depth inner fuel →
        (Goal.level 5).parser (parseExpression depth) inner fuel s = .ok e s') →
      s.length + 1 < depth + 1 → parseExpression (depth + 1) s = .ok e s' := by
    intro s s' e depth ih hdepth
    exact @ih depth depth depth (Goal.fueled_level 5 (by omega) (by omega) (by omega))
  induction h with
  | number type value => exact fun _ => parsePrimary_number type value
  | @call t colon s s' e type hcolon args ih =>
      intro depth inner fuel hfueled
      simp only [Goal.Fueled, List.length_cons] at hfueled
      exact (parsePrimary_call type hcolon).trans
        (@ih depth inner fuel ⟨by omega, by omega, by omega⟩)
  | @assign t eq s s' e type heq value ih =>
      intro depth inner fuel hfueled
      simp only [Goal.Fueled, List.length_cons] at hfueled
      -- an expression inside takes one level of the depth
      obtain ⟨depth, rfl⟩ : ∃ d, depth = d + 1 := ⟨depth - 1, by omega⟩
      exact parsePrimary_assign type heq (hexpr ih (by omega))
  | ident type noCall noAssign => exact fun _ => parsePrimary_ident type noCall noAssign
  | @paren l r s s' e left inner right ih =>
      intro depth inner fuel hfueled
      simp only [Goal.Fueled, List.length_cons] at hfueled
      obtain ⟨depth, rfl⟩ : ∃ d, depth = d + 1 := ⟨depth - 1, by omega⟩
      exact parsePrimary_paren left (hexpr ih (by omega)) right
  | @unary t s s' e type operand ih =>
      intro depth inner fuel hfueled
      simp only [Goal.Fueled, List.length_cons] at hfueled
      obtain ⟨fuel, rfl⟩ : ∃ k, fuel = k + 1 := ⟨fuel - 1, by omega⟩
      exact parseUnary_sign type
        (@ih depth inner fuel (Goal.fueled_level 1 (by omega) (by omega) (by omega)))
  | @primary s s' e noSign _ ih =>
      intro depth inner fuel hfueled
      simp only [Goal.Fueled] at hfueled
      obtain ⟨fuel, rfl⟩ : ∃ k, fuel = k + 1 := ⟨fuel - 1, by omega⟩
      exact (parseUnary_primary noSign).trans (@ih depth inner fuel hfueled)
  | @binary n s s₁ s' left e first loop ih₁ ih₂ =>
      intro depth inner fuel hfueled
      -- the operand has taken a token at least
      have hlen := first.length
      simp only [Goal.takes, Goal.Fueled] at hlen hfueled
      have hfirst : levelParser (parseExpression depth) fuel (n + 1) s = .ok left s₁ :=
        @ih₁ depth inner fuel (Goal.fueled_level _ (by omega) (by omega) (by omega))
      show parseBinary (opsAt (n + 2)) (levelParser (parseExpression depth) fuel (n + 1)) fuel s = _
      unfold parseBinary
      rw [bind_ok hfirst]
      -- the operands of the loop have the fuel of the level
      exact @ih₂ depth fuel fuel ⟨by omega, by omega, by omega⟩
  | @loopEnd n left s stop =>
      intro depth inner fuel hfueled
      simp only [Goal.Fueled] at hfueled
      obtain ⟨fuel, rfl⟩ : ∃ k, fuel = k + 1 := ⟨fuel - 1, by omega⟩
      exact binaryLoop_stop stop
  | @loopStep n left right e t s s₁ s' op operand loop ih₁ ih₂ =>
      intro depth inner fuel hfueled
      have hlen := operand.length
      simp only [Goal.takes, Goal.Fueled, List.length_cons] at hlen hfueled
      obtain ⟨fuel, rfl⟩ : ∃ k, fuel = k + 1 := ⟨fuel - 1, by omega⟩
      have hoperand : levelParser (parseExpression depth) inner (n + 1) s = .ok right s₁ :=
        @ih₁ depth inner inner (Goal.fueled_level _ (by omega) (by omega) (by omega))
      exact (binaryLoop_step op hoperand).trans
        (@ih₂ depth inner fuel ⟨by omega, by omega, by omega⟩)
  | @argsEnd x args t s type =>
      intro depth inner fuel hfueled
      simp only [Goal.Fueled] at hfueled
      obtain ⟨fuel, rfl⟩ : ∃ k, fuel = k + 1 := ⟨fuel - 1, by omega⟩
      exact finishCall_ok (argLoop_end type)
  | @argsComma x args a e comma s s₁ s' more arg hcomma rest ih₁ ih₂ =>
      intro depth inner fuel hfueled
      have hlen := arg.length
      simp only [Goal.takes, Goal.Fueled, List.length_cons] at hlen hfueled
      obtain ⟨fuel, rfl⟩ : ∃ k, fuel = k + 1 := ⟨fuel - 1, by omega⟩
      obtain ⟨depth, rfl⟩ : ∃ d, depth = d + 1 := ⟨depth - 1, by omega⟩
      have harg : parseExpression (depth + 1) s = .ok a (comma :: s₁) := hexpr ih₁ (by omega)
      exact (finishCall_step (argLoop_comma more harg hcomma)).trans
        (@ih₂ (depth + 1) inner fuel ⟨by omega, by omega, by omega⟩)
  | @argsLast x args a t s s₁ more arg type ih =>
      intro depth inner fuel hfueled
      have hlen := arg.length
      simp only [Goal.takes, Goal.Fueled, List.length_cons] at hlen hfueled
      obtain ⟨fuel, rfl⟩ : ∃ k, fuel = k + 2 := ⟨fuel - 2, by omega⟩
      obtain ⟨depth, rfl⟩ : ∃ d, depth = d + 1 := ⟨depth - 1, by omega⟩
      exact finishCall_ok (argLoop_last more (hexpr ih (by omega)) type)

section Function

variable {s s₁ s' : TokenSource} {e e₁ : ASTNode} {fuel : Nat}

/-- An expression by the rules is what `parseExpression` returns. -/
theorem parseExpression_of_reads (h : Reads (.level 5) s e s') (hfuel : s.length + 1 < fuel) :
    parseExpression fuel s = .ok e s' := by
  obtain ⟨fuel, rfl⟩ : ∃ k, fuel = k + 1 := ⟨fuel - 1, by omega⟩
  exact @parser_of_reads _ _ _ _ h _ fuel _ (Goal.fueled_level 5 (by omega) (by omega) (by omega))

/-- A primary is what `parsePrimary` returns. -/
theorem parsePrimary_of_reads (h : Reads (.level 0) s e s') (hfuel : s.length < fuel) :
    parsePrimary (parseExpression fuel) fuel s = .ok e s' :=
  @parser_of_reads _ _ _ _ h _ fuel _ (Goal.fueled_level 0 hfuel hfuel hfuel)

/-- Some fuel is enough. -/
theorem Goal.fueled_length (g : Goal) (s : TokenSource) :
    g.Fueled s (s.length + 2) (s.length + 1) (s.length + 1) := by
  cases g with
  | level n => exact Goal.fueled_level n (by omega) (by omega) (by omega)
  | loop => exact ⟨by omega, by omega, by omega⟩
  | args => exact ⟨by omega, by omega, by omega⟩

/-- **Reading is a function.** -/
theorem Reads.unique {g : Goal} (h : Reads g s e s') (h₁ : Reads g s e₁ s₁) : e = e₁ ∧ s' = s₁ := by
  have hok := parser_of_reads h (g.fueled_length s)
  rw [parser_of_reads h₁ (g.fueled_length s)] at hok
  injection hok with he hs
  exact ⟨he.symm, hs.symm⟩

end Function

end SproutLang.Compiler
