/-
  SproutLang.Compiler.Grammar
  ───────────────────────────
  **HOW A TREE MAY BE WRITTEN.**

  `Renders shape e ts`: the tokens `ts` are the tree `e` in the syntax of the
  parser, with any number of parentheses around a subexpression and at least
  those its place asks for.  An assignment takes everything that follows it as
  its value, so an expression that ends in one is `open_`: nothing but its end
  may come behind it.

    • `reads_of_renders` — what is written so is read, up to its end,
    • `renders_of_reads` — what is read is written so.
-/
import SproutLang.Compiler.Statements
import SproutLang.Library.Lexing
import Mathlib.Data.List.TakeWhile

namespace SproutLang.Compiler

open Library

/-! ## §1. Numerals. -/

/-- `content` is the number `n` in decimal digits. -/
def IsNumeral (content : String) (n : Int) : Prop :=
  content.toList ≠ [] ∧ (∀ c ∈ content.toList, c.isDigit = true) ∧ n = digitsValue content.toList

/-- A digit is neither white space nor a sign. -/
theorem isDigit_facts {c : Char} (h : c.isDigit = true) : isSpace c = false ∧ c ≠ '-' ∧ c ≠ '+' := by
  rw [Char.isDigit_iff_toNat] at h
  have hzero : '0'.toNat = 48 := rfl
  have hne : ∀ d : Char, d.toNat < 48 → c ≠ d := by
    rintro d hd rfl
    omega
  refine ⟨?_, hne _ (by decide), hne _ (by decide)⟩
  unfold isSpace
  rw [decide_eq_false (hne ' ' (by decide)), Bool.false_or, Bool.and_eq_false_iff]
  refine Or.inr (decide_eq_false fun hle => ?_)
  have hle' : c.toNat ≤ '\r'.toNat := hle
  have hreturn : '\r'.toNat = 13 := rfl
  omega

/-- `stoll` is the number the digits at the front spell, if it has 64 bits;
what stands behind them is not looked at. -/
theorem stoll_front {content : String} {ds rest : List Char} (hcontent : content.toList = ds ++ rest)
    (hne : ds ≠ []) (hdigits : ∀ c ∈ ds, c.isDigit = true)
    (hrest : ∀ c ∈ rest.head?, c.isDigit = false) :
    stoll content = if (digitsValue ds : Int) < 2 ^ 63 then .ok (digitsValue ds : Int)
      else .error .outOfRange := by
  obtain ⟨c, cs, hcons⟩ := List.exists_cons_of_ne_nil hne
  have hc := isDigit_facts (hdigits c (by rw [hcons]; exact List.mem_cons_self))
  have hdrop : content.toList.dropWhile isSpace = ds ++ rest := by
    rw [hcontent, hcons, List.cons_append, List.dropWhile_cons, hc.1, if_neg Bool.false_ne_true]
  have hhead : (ds ++ rest).head? = some c := by
    rw [hcons]
    rfl
  have htake : (ds ++ rest).takeWhile Char.isDigit = ds := takeWhile_append_stop hdigits hrest
  have hminus : ¬ some c = some '-' := fun h => hc.2.1 (Option.some.inj h)
  have hplus : ¬ some c = some '+' := fun h => hc.2.2 (Option.some.inj h)
  unfold stoll
  -- no white space, no sign, digits up to `rest`
  simp only [hdrop, hhead, hminus, hplus, or_self, if_false, htake, hne]
  have hlow : (-2 ^ 63 : Int) ≤ digitsValue ds := by omega
  simp only [hlow, true_and]

/-- On digits alone it is the number they spell. -/
theorem stoll_digits {content : String} (hne : content.toList ≠ [])
    (hdigits : ∀ c ∈ content.toList, c.isDigit = true) :
    stoll content = if (digitsValue content.toList : Int) < 2 ^ 63 then
      .ok (digitsValue content.toList : Int) else .error .outOfRange :=
  stoll_front (List.append_nil _).symm hne hdigits fun c hc => by cases hc

/-- `stoll` reads a number of 63 bits. -/
theorem stoll_numeral {content : String} {n : Int} (h : IsNumeral content n) (hn : n < 2 ^ 63) :
    stoll content = .ok n := by
  obtain ⟨hne, hdigits, rfl⟩ := h
  rw [stoll_digits hne hdigits, if_pos hn]

/-- And a text of digits it reads is such a number. -/
theorem numeral_of_stoll {content : String} {n : Int} (h : stoll content = .ok n)
    (hdigits : ∀ c ∈ content.toList, c.isDigit = true) : IsNumeral content n ∧ n < 2 ^ 63 := by
  have hne : content.toList ≠ [] := by
    intro hnil
    unfold stoll at h
    simp only [hnil, List.dropWhile_nil, List.head?_nil, reduceCtorEq, or_self, if_false,
      List.takeWhile_nil, if_true] at h
  rw [stoll_digits hne hdigits] at h
  split at h
  · rename_i hlt
    injection h with h
    exact ⟨⟨hne, hdigits, h.symm⟩, by rw [← h]; exact hlt⟩
  · exact absurd h (by simp)

/-! ## §2. Expressions. -/

/-- An expression of a level, or the arguments of a call behind those so far. -/
inductive Shape where
  | expr (level : Nat) (open_ : Bool)
  | args (identifier : String) (args : List ASTNode)

/-- **The ways to write an expression.** -/
inductive Renders : Shape → ASTNode → List Token → Prop
  | number {t : Token} {n : Int} (type : t.type = .NUMBER) (value : IsNumeral t.content n)
      (small : n < 2 ^ 63) : Renders (.expr 0 false) (.intLiteral n) [t]
  | ident {t : Token} (type : t.type = .IDENT) : Renders (.expr 0 false) (.ident t.content) [t]
  | call {t colon : Token} {e : ASTNode} {ts : List Token} (type : t.type = .IDENT)
      (hcolon : colon.type = .COLON) (args : Renders (.args t.content []) e ts) :
      Renders (.expr 0 false) e (t :: colon :: ts)
  | assign {t eq : Token} {o : Bool} {e : ASTNode} {ts : List Token} (type : t.type = .IDENT)
      (heq : eq.type = .EQ) (value : Renders (.expr 5 o) e ts) :
      Renders (.expr 0 true) (.varAssign t.content e) (t :: eq :: ts)
  | paren {l r : Token} {o : Bool} {e : ASTNode} {ts : List Token} (left : l.type = .L_PAREN)
      (inner : Renders (.expr 5 o) e ts) (right : r.type = .R_PAREN) :
      Renders (.expr 0 false) e (l :: (ts ++ [r]))
  | unary {t : Token} {o : Bool} {e : ASTNode} {ts : List Token}
      (type : t.type = .MINUS ∨ t.type = .NOT) (operand : Renders (.expr 1 o) e ts) :
      Renders (.expr 1 o) (.unaryOp t.type e) (t :: ts)
  | lift {p : Nat} {o : Bool} {e : ASTNode} {ts : List Token} (inner : Renders (.expr p o) e ts) :
      Renders (.expr (p + 1) o) e ts
  | binary {p : Nat} {o : Bool} {t : Token} {left right : ASTNode} {ts ts' : List Token}
      (first : Renders (.expr (p + 2) false) left ts) (op : opsAt (p + 2) t.type = true)
      (second : Renders (.expr (p + 1) o) right ts') :
      Renders (.expr (p + 2) o) (.binaryOp t.type left right) (ts ++ t :: ts')
  | argsEnd {x : String} {args : List ASTNode} {t : Token} (type : t.type = .SEMICOLON) :
      Renders (.args x args) (.funcCall x args) [t]
  | argsComma {x : String} {args : List ASTNode} {comma : Token} {o : Bool} {a e : ASTNode}
      {ts ts' : List Token} (arg : Renders (.expr 5 o) a ts) (hcomma : comma.type = .COMMA)
      (rest : Renders (.args x (args ++ [a])) e ts') :
      Renders (.args x args) e (ts ++ comma :: ts')
  | argsLast {x : String} {args : List ASTNode} {t : Token} {o : Bool} {a : ASTNode}
      {ts : List Token} (arg : Renders (.expr 5 o) a ts) (type : t.type = .SEMICOLON) :
      Renders (.args x args) (.funcCall x (args ++ [a])) (ts ++ [t])

/-- What is written at a level is written at the levels above it. -/
theorem Renders.lift_le {p q : Nat} {o : Bool} {e : ASTNode} {ts : List Token}
    (h : Renders (.expr p o) e ts) (hle : p ≤ q) : Renders (.expr q o) e ts := by
  induction hle with
  | refl => exact h
  | step _ ih => exact .lift ih

/-! ## §3. What may follow. -/

/-- No operator of the levels up to `p` is in front. -/
def Stops (p : Nat) (rest : TokenSource) : Prop := ∀ q ≤ p, opsAt q (front rest).type = false

/-- What is in front does not go on with an expression of level `p`. -/
structure Follows (p : Nat) (rest : TokenSource) : Prop where
  noCall : (front rest).type ≠ .COLON
  noAssign : (front rest).type ≠ .EQ
  stops : Stops p rest

/-- Up to which level operators would be taken into the expression. -/
def reach (p : Nat) (o : Bool) : Nat := if o then max p 5 else p

/-- Where no operator of a higher level follows, none of a lower one does. -/
theorem Stops.mono {p q : Nat} {rest : TokenSource} (h : Stops q rest) (hle : p ≤ q) :
    Stops p rest := fun r hr => h r (hr.trans hle)

theorem Follows.mono {p q : Nat} {rest : TokenSource} (h : Follows q rest) (hle : p ≤ q) :
    Follows p rest := ⟨h.noCall, h.noAssign, h.stops.mono hle⟩

/-- What no level takes does not prolong an open expression either. -/
theorem Follows.reached {p : Nat} {rest : TokenSource} (h : Follows 5 rest) (hp : p ≤ 5)
    (o : Bool) : Follows (reach p o) rest := by
  refine h.mono ?_
  cases o with
  | false => exact hp
  | true => exact Nat.max_le.2 ⟨hp, Nat.le_refl 5⟩

/-- An operand reaches at least to its own level. -/
theorem le_reach (p : Nat) (o : Bool) : p ≤ reach p o := by
  cases o with
  | true => exact Nat.le_max_left p 5
  | false => exact Nat.le_refl p

theorem reach_mono {p q : Nat} (o : Bool) (h : p ≤ q) : reach p o ≤ reach q o := by
  cases o with
  | true => exact max_le_max h (Nat.le_refl 5)
  | false => exact h

/-- An operator is on one level only. -/
theorem opsAt_unique {p q : Nat} {t : TokenType} (hp : opsAt p t = true) (hq : opsAt q t = true) :
    p = q := by
  have hle : ∀ {n : Nat}, opsAt n t = true → n ≤ 5 := by
    intro n h
    by_contra hgt
    match n, h with
    | 0, h => omega
    | 1, h => omega
    | 2, h => omega
    | 3, h => omega
    | 4, h => omega
    | 5, h => omega
  have hall : ∀ (t : TokenType) (p q : Fin 6), opsAt p t = true → opsAt q t = true → p = q := by
    intro t
    cases t <;> decide
  have heq := hall t ⟨p, by have := hle hp; omega⟩ ⟨q, by have := hle hq; omega⟩ hp hq
  exact congrArg Fin.val heq

/-- Behind a left operand comes its operator. -/
theorem follows_operator {p : Nat} {t : Token} {rest : TokenSource}
    (h : opsAt (p + 1) t.type = true) : Follows p (t :: rest) where
  noCall := by
    intro heq
    rw [front_cons] at heq
    obtain ⟨-, m, hm⟩ := opsAt_inv h
    rw [heq, hm] at h
    -- no level has the type among its operators
    match m, h with
    | 0, h | 1, h | 2, h | 3, h => exact absurd h (by decide)
  noAssign := by
    intro heq
    rw [front_cons] at heq
    obtain ⟨-, m, hm⟩ := opsAt_inv h
    rw [heq, hm] at h
    match m, h with
    | 0, h | 1, h | 2, h | 3, h => exact absurd h (by decide)
  stops := by
    intro q hq
    rw [front_cons, Bool.eq_false_iff]
    intro htrue
    have := opsAt_unique htrue h
    omega

/-! ## §4. What is written is read. -/

/-- What an expression can start with. -/
def startsExpr (t : TokenType) : Bool :=
  t = .NUMBER || t = .IDENT || t = .L_PAREN || t = .MINUS || t = .NOT

/-- An expression starts like one, on level 0 without a sign. -/
theorem Renders.start {shape : Shape} {e : ASTNode} {ts : List Token} (h : Renders shape e ts) :
    ts ≠ [] ∧ ∀ p o, shape = .expr p o → ∀ rest, startsExpr (front (ts ++ rest)).type = true ∧
      (p = 0 → (front (ts ++ rest)).type ≠ .MINUS ∧ (front (ts ++ rest)).type ≠ .NOT) := by
  have hne : ∀ {t : TokenType} {p : Nat}, t = .NUMBER ∨ t = .IDENT ∨ t = .L_PAREN →
      startsExpr t = true ∧ (p = 0 → t ≠ .MINUS ∧ t ≠ .NOT) := by
    rintro t p (rfl | rfl | rfl) <;> exact ⟨by decide, fun _ => by decide⟩
  induction h with
  | number type => exact ⟨List.cons_ne_nil _ _, fun _ _ _ _ => hne (Or.inl type)⟩
  | ident type | call type | assign type =>
      exact ⟨List.cons_ne_nil _ _, fun _ _ _ _ => hne (Or.inr (Or.inl type))⟩
  | paren left => exact ⟨List.cons_ne_nil _ _, fun _ _ _ _ => hne (Or.inr (Or.inr left))⟩
  | @unary t o e ts type =>
      refine ⟨List.cons_ne_nil _ _, fun p o' hshape rest => ⟨?_, fun hp => ?_⟩⟩
      · rw [List.cons_append, front_cons]
        -- a sign starts an expression, though none of level 0
        rcases type with h | h <;> rw [h] <;> decide
      · simp only [Shape.expr.injEq] at hshape
        omega
  | @lift p o e ts _ ih =>
      refine ⟨ih.1, fun q o' hshape rest => ⟨(ih.2 p o rfl rest).1, fun hq => ?_⟩⟩
      simp only [Shape.expr.injEq] at hshape
      omega
  | @binary p o t left right ts ts' _ _ _ ih =>
      refine ⟨by simp, fun q o' hshape rest => ⟨?_, fun hq => ?_⟩⟩
      · rw [List.append_assoc]
        exact (ih.2 (p + 2) false rfl _).1
      · simp only [Shape.expr.injEq] at hshape
        omega
  | argsEnd => exact ⟨List.cons_ne_nil _ _, fun _ _ h => absurd h (by simp)⟩
  | argsComma | argsLast => exact ⟨by simp, fun _ _ h => absurd h (by simp)⟩

/-- An argument does not start with the semicolon. -/
theorem Renders.ne_semicolon {p : Nat} {o : Bool} {e : ASTNode} {ts : List Token}
    (h : Renders (.expr p o) e ts) (rest : TokenSource) :
    (front (ts ++ rest)).type ≠ .SEMICOLON := by
  have hstart := (h.start.2 p o rfl rest).1
  intro heq
  rw [heq] at hstart
  exact absurd hstart (by decide)

/-- What a way of writing is worth to the parser: an expression is read up to
its end, and a loop of its level may go on behind it. -/
def Shape.Read (e : ASTNode) (ts : List Token) : Shape → Prop
  | .expr p o =>
      (∀ rest, Follows (reach p o) rest → Reads (.level p) (ts ++ rest) e rest) ∧
        ∀ n, p = n + 2 → ∀ rest a s', Follows (reach (n + 1) o) rest →
          Reads (.loop p e) rest a s' → Reads (.level p) (ts ++ rest) a s'
  | .args x found => ∀ rest, Reads (.args x found) (ts ++ rest) e rest

/-- Behind an argument there is a comma or the semicolon. -/
theorem follows_of_type {t : Token} {rest : TokenSource}
    (h : t.type = .COMMA ∨ t.type = .SEMICOLON ∨ t.type = .R_PAREN) (p : Nat) :
    Follows p (t :: rest) := by
  have hops : ∀ (q : Nat) {u : TokenType}, u = .COMMA ∨ u = .SEMICOLON ∨ u = .R_PAREN →
      opsAt q u = false := by
    intro q u hu
    rw [Bool.eq_false_iff]
    intro htrue
    obtain ⟨-, m, rfl⟩ := opsAt_inv htrue
    match m, htrue with
    | 0, htrue | 1, htrue | 2, htrue | 3, htrue =>
        rcases hu with rfl | rfl | rfl <;> exact absurd htrue (by decide)
  refine ⟨?_, ?_, fun q _ => hops q h⟩
  · rw [front_cons]
    rcases h with h | h | h <;> rw [h] <;> decide
  · rw [front_cons]
    rcases h with h | h | h <;> rw [h] <;> decide

/-- **What is written is read.** -/
theorem reads_of_renders {shape : Shape} {e : ASTNode} {ts : List Token} (h : Renders shape e ts) :
    shape.Read e ts := by
  induction h with
  | number type value small =>
      exact ⟨fun rest _ => .number type (stoll_numeral value small), fun n hn => absurd hn (by omega)⟩
  | ident type =>
      exact ⟨fun rest hfollow => .ident type hfollow.noCall hfollow.noAssign,
        fun n hn => absurd hn (by omega)⟩
  | call type hcolon _ ih =>
      exact ⟨fun rest _ => .call type hcolon (ih rest), fun n hn => absurd hn (by omega)⟩
  | assign type heq _ ih =>
      refine ⟨fun rest hfollow => .assign type heq (ih.1 rest ?_), fun n hn => absurd hn (by omega)⟩
      exact hfollow.mono (by unfold reach; split <;> simp)
  | @paren l r o e ts left _ right ih =>
      refine ⟨fun rest _ => ?_, fun n hn => absurd hn (by omega)⟩
      -- the parenthesis behind the expression stops it
      have hinner := ih.1 (r :: rest) (follows_of_type (Or.inr (Or.inr right)) _)
      show Reads (.level 0) (l :: ((ts ++ [r]) ++ rest)) e rest
      rw [List.append_assoc]
      exact .paren left hinner right
  | unary type _ ih =>
      exact ⟨fun rest hfollow => .unary type (ih.1 rest hfollow), fun n hn => absurd hn (by omega)⟩
  | @lift p o e ts inner ih =>
      have hlevel : ∀ n, p + 1 = n + 2 → ∀ rest a s', Follows (reach (n + 1) o) rest →
          Reads (.loop (p + 1) e) rest a s' → Reads (.level (p + 1)) (ts ++ rest) a s' := by
        intro n hn rest a s' hfollow hloop
        -- the loop of the level goes on behind its first operand
        obtain rfl : p = n + 1 := by omega
        exact .binary (ih.1 rest hfollow) hloop
      refine ⟨fun rest hfollow => ?_, hlevel⟩
      have hbelow := hfollow.mono (reach_mono o (Nat.le_succ p))
      cases p with
      | zero =>
          -- a primary does not start with a sign
          have hsign := (inner.start.2 0 o rfl rest).2 rfl
          exact .primary (not_or.2 hsign) (ih.1 rest hbelow)
      | succ n =>
          refine hlevel n rfl rest e rest hbelow (.loopEnd ?_)
          exact hfollow.stops (n + 1 + 1) (le_reach _ o)
  | @binary p o t left right ts ts' first op second ih₁ ih₂ =>
      have hlevel : ∀ n, p + 2 = n + 2 → ∀ rest a s', Follows (reach (n + 1) o) rest →
          Reads (.loop (p + 2) (.binaryOp t.type left right)) rest a s' →
          Reads (.level (p + 2)) ((ts ++ t :: ts') ++ rest) a s' := by
        intro n hn rest a s' hfollow hloop
        obtain rfl : p = n := by omega
        rw [List.append_assoc, List.cons_append]
        -- the left operand, and then the loop takes the operator
        exact ih₁.2 p rfl _ _ _ (follows_operator op) (.loopStep op (ih₂.1 rest hfollow) hloop)
      refine ⟨fun rest hfollow => ?_, hlevel⟩
      exact hlevel p rfl rest _ rest (hfollow.mono (reach_mono o (Nat.le_succ (p + 1))))
        (.loopEnd (hfollow.stops (p + 2) (le_reach _ o)))
  | argsEnd type =>
      intro rest
      exact .argsEnd type
  | @argsComma x args comma o a e ts ts' arg hcomma _ ih₁ ih₂ =>
      intro rest
      rw [List.append_assoc]
      exact .argsComma (arg.ne_semicolon _) (ih₁.1 _ (follows_of_type (Or.inl hcomma) _)) hcomma
        (ih₂ rest)
  | @argsLast x args t o a ts arg type ih =>
      intro rest
      rw [List.append_assoc]
      exact .argsLast (arg.ne_semicolon _) (ih.1 _ (follows_of_type (Or.inr (Or.inl type)) _)) type

/-! ## §5. What is read is written. -/

/-- Every number token of `s` consists of digits. -/
def Numeric (s : TokenSource) : Prop :=
  ∀ t ∈ s, t.type = .NUMBER → ∀ c ∈ t.content.toList, c.isDigit = true

section Numeric

variable {s s' : TokenSource} {t : Token}

theorem Numeric.tail (h : Numeric (t :: s)) : Numeric s :=
  fun u hu => h u (List.mem_cons_of_mem t hu)

theorem Numeric.right {ts : List Token} (h : Numeric (ts ++ s)) : Numeric s :=
  fun u hu => h u (List.mem_append_right ts hu)

end Numeric

/-- Levels 0 and 1 have no operators. -/
theorem stops_one {p : Nat} (hp : p ≤ 1) (rest : TokenSource) : Stops p rest := by
  intro q hq
  match q, hq with
  | 0, _ => rfl
  | 1, _ => rfl
  | q + 2, hq => omega

/-- Where reading stops, no operator of the level is in front. -/
theorem Reads.stops {g : Goal} {s s' : TokenSource} {e : ASTNode} (h : Reads g s e s') :
    match g with
    | .level p => Stops p s'
    | .loop p _ => Stops (p - 1) s → Stops p s'
    | .args _ _ => True := by
  induction h with
  | number | call | assign | ident | paren => exact stops_one (by decide) _
  | unary | primary => exact stops_one (by decide) _
  | binary _ _ ih₁ ih₂ => exact ih₂ ih₁
  | @loopEnd n left s stop =>
      intro hbelow q hq
      by_cases heq : q = n
      · rw [heq]
        exact stop
      · exact hbelow q (by omega)
  | loopStep _ _ _ ih₁ ih₂ => exact fun _ => ih₂ ih₁
  | argsEnd | argsComma | argsLast => trivial

/-- How what a goal has read was written. -/
def Goal.Written (s : TokenSource) (e : ASTNode) (s' : TokenSource) : Goal → Prop
  | .level p => ∃ ts o, s = ts ++ s' ∧ Renders (.expr p o) e ts ∧ (o = true → Stops 5 s')
  | .loop p left => ∀ ts₀ o₀, Renders (.expr p o₀) left ts₀ → (o₀ = true → Stops 5 s) →
      ∃ ts o, s = ts ++ s' ∧ Renders (.expr p o) e (ts₀ ++ ts) ∧ (o = true → Stops 5 s')
  | .args x found => ∃ ts, s = ts ++ s' ∧ Renders (.args x found) e ts

/-- **What is read is written so**, where the numbers are integers. -/
theorem renders_of_reads {g : Goal} {s s' : TokenSource} {e : ASTNode} (h : Reads g s e s')
    (hnumeric : Numeric s) : g.Written s e s' := by
  induction h with
  | @number t s n type value =>
      obtain ⟨hnumeral, hsmall⟩ :=
        numeral_of_stoll value (hnumeric t List.mem_cons_self type)
      exact ⟨[t], false, rfl, .number type hnumeral hsmall, by simp⟩
  | @call t colon s s' e type hcolon _ ih =>
      obtain ⟨ts, rfl, hargs⟩ := ih hnumeric.tail.tail
      exact ⟨t :: colon :: ts, false, rfl, .call type hcolon hargs, by simp⟩
  | @assign t eq s s' e type heq value ih =>
      obtain ⟨ts, o, rfl, hvalue, -⟩ := ih hnumeric.tail.tail
      exact ⟨t :: eq :: ts, true, rfl, .assign type heq hvalue, fun _ => value.stops⟩
  | @ident t s type _ _ => exact ⟨[t], false, rfl, .ident type, by simp⟩
  | @paren l r s s' e left _ right ih =>
      obtain ⟨ts, o, rfl, hinner, -⟩ := ih hnumeric.tail
      exact ⟨l :: (ts ++ [r]), false, by simp, .paren left hinner right, by simp⟩
  | @unary t s s' e type _ ih =>
      obtain ⟨ts, o, rfl, hoperand, hopen⟩ := ih hnumeric.tail
      exact ⟨t :: ts, o, rfl, .unary type hoperand, hopen⟩
  | primary _ _ ih =>
      obtain ⟨ts, o, hs, hinner, hopen⟩ := ih hnumeric
      -- the same tokens, one level higher
      exact ⟨ts, o, hs, .lift hinner, hopen⟩
  | binary _ _ ih₁ ih₂ =>
      obtain ⟨ts, o, rfl, hfirst, hopen⟩ := ih₁ hnumeric
      -- the loop starts with the first operand as its left one
      obtain ⟨ts', o', rfl, hloop, hopen'⟩ := ih₂ hnumeric.right ts o (.lift hfirst) hopen
      exact ⟨ts ++ ts', o', by rw [List.append_assoc], hloop, hopen'⟩
  | loopEnd =>
      intro ts₀ o₀ hleft hopen
      exact ⟨[], o₀, rfl, by rw [List.append_nil]; exact hleft, hopen⟩
  | @loopStep n left right e t s s₁ s' op operand _ ih₁ ih₂ =>
      intro ts₀ o₀ hleft hopen
      -- an open left operand would have taken the operator
      have hclosed : o₀ = false := by
        rw [Bool.eq_false_iff]
        intro htrue
        have hstop : opsAt (n + 2) t.type = false ∨ 5 < n + 2 := by
          by_cases hle : n + 2 ≤ 5
          · exact Or.inl (hopen htrue (n + 2) hle)
          · exact Or.inr (by omega)
        rcases hstop with hstop | hgt
        · rw [hstop] at op
          exact absurd op (by decide)
        · match n, op, hgt with
          | 0, _, hgt | 1, _, hgt | 2, _, hgt | 3, _, hgt => omega
      subst hclosed
      obtain ⟨ts, o, rfl, hoperand, hopen₁⟩ := ih₁ hnumeric.tail
      obtain ⟨ts', o', rfl, hloop, hopen'⟩ :=
        ih₂ hnumeric.tail.right (ts₀ ++ t :: ts) o (.binary hleft op hoperand) hopen₁
      refine ⟨t :: (ts ++ ts'), o', by simp, ?_, hopen'⟩
      rw [List.append_assoc] at hloop
      exact hloop
  | @argsEnd x args t s type => exact ⟨[t], rfl, .argsEnd type⟩
  | @argsComma x args a e comma s s₁ s' _ _ hcomma _ ih₁ ih₂ =>
      obtain ⟨ts, o, rfl, harg, -⟩ := ih₁ hnumeric
      obtain ⟨ts', rfl, hrest⟩ := ih₂ hnumeric.right.tail
      exact ⟨ts ++ comma :: ts', by simp, .argsComma harg hcomma hrest⟩
  | @argsLast x args a t s s₁ _ _ type ih =>
      obtain ⟨ts, o, rfl, harg, -⟩ := ih hnumeric
      exact ⟨ts ++ [t], by simp, .argsLast harg type⟩

end SproutLang.Compiler
