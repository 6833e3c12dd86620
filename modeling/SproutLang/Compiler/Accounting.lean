/-
  SproutLang.Compiler.Accounting
  ──────────────────────────────
  **NO TOKEN IS DROPPED.**

  A beginning of the token list is `Begun` if it is statements one behind the
  other, inside blocks that are still open.  What the parser drops stands
  behind such a beginning and does not belong there: it starts no statement,
  it does not close the block, and no statement goes on with it.

    • `ReadsStmt.lookahead`  — the parser looks at one token behind what it
                               takes,
    • `Begun.going`          — a written program goes on as it must behind each
                               of its beginnings,
    • `ReadsStmt.fine`       — where the tokens go on so, none is dropped,
    • `tokens_accounted_iff` — a tree that is returned accounts for every token
                               exactly if they do.
-/
import SproutLang.Compiler.Composition
import Mathlib.Data.List.Chain

namespace SproutLang.Compiler

/-! ## §1. One token of lookahead. -/

section Lookahead

variable {s s' : TokenSource} {e : ASTNode}

/-- Tokens hide what stands behind them but for its first token. -/
theorem front_append_congr {r r' : TokenSource} (ts : List Token) (h : front r = front r') :
    front (ts ++ r) = front (ts ++ r') := by
  cases ts with
  | nil => exact h
  | cons t ts => rfl

/-- **The expression parser looks at one token** behind what it takes: another
rest with the same first token changes nothing. -/
theorem Reads.lookahead {g : Goal} (h : Reads g s e s') :
    ∃ ts, s = ts ++ s' ∧ ∀ r, front r = front s' → Reads g (ts ++ r) e r := by
  induction h with
  | @number t s n type value => exact ⟨[t], rfl, fun _ _ => .number type value⟩
  | @call t colon s s' e type hcolon _ ih =>
      obtain ⟨ts, rfl, hargs⟩ := ih
      exact ⟨t :: colon :: ts, rfl, fun r hr => .call type hcolon (hargs r hr)⟩
  | @assign t eq s s' e type heq _ ih =>
      obtain ⟨ts, rfl, hvalue⟩ := ih
      exact ⟨t :: eq :: ts, rfl, fun r hr => .assign type heq (hvalue r hr)⟩
  | @ident t s type noCall noAssign =>
      -- the one token behind an identifier tells what it is
      refine ⟨[t], rfl, fun r hr => ?_⟩
      rw [← hr] at noCall noAssign
      exact .ident type noCall noAssign
  | @paren l r s s' e left _ right ih =>
      obtain ⟨ts, rfl, hinner⟩ := ih
      refine ⟨l :: (ts ++ [r]), by simp, fun q _ => ?_⟩
      rw [List.cons_append, List.append_assoc]
      exact .paren left (hinner (r :: q) rfl) right
  | @unary t s s' e type _ ih =>
      obtain ⟨ts, rfl, hoperand⟩ := ih
      exact ⟨t :: ts, rfl, fun r hr => .unary type (hoperand r hr)⟩
  | primary noSign _ ih =>
      obtain ⟨ts, rfl, hinner⟩ := ih
      refine ⟨ts, rfl, fun r hr => .primary ?_ (hinner r hr)⟩
      rw [front_append_congr ts hr]
      exact noSign
  | binary _ _ ih₁ ih₂ =>
      obtain ⟨ts', rfl, hloop⟩ := ih₂
      obtain ⟨ts, rfl, hfirst⟩ := ih₁
      refine ⟨ts ++ ts', by rw [List.append_assoc], fun r hr => ?_⟩
      rw [List.append_assoc]
      exact .binary (hfirst (ts' ++ r) (front_append_congr ts' hr)) (hloop r hr)
  | loopEnd stop =>
      refine ⟨[], rfl, fun r hr => ?_⟩
      rw [← hr] at stop
      exact .loopEnd stop
  | @loopStep n left right e t s s₁ s' op _ _ ih₁ ih₂ =>
      obtain ⟨ts', rfl, hloop⟩ := ih₂
      obtain ⟨ts, rfl, hoperand⟩ := ih₁
      refine ⟨t :: (ts ++ ts'), by simp, fun r hr => ?_⟩
      rw [List.cons_append, List.append_assoc]
      exact .loopStep op (hoperand (ts' ++ r) (front_append_congr ts' hr)) (hloop r hr)
  | @argsEnd x args t s type => exact ⟨[t], rfl, fun _ _ => .argsEnd type⟩
  | @argsComma x args a e comma s s₁ s' more _ hcomma _ ih₁ ih₂ =>
      obtain ⟨ts', rfl, hrest⟩ := ih₂
      obtain ⟨ts, rfl, harg⟩ := ih₁
      refine ⟨ts ++ comma :: ts', by simp, fun r hr => ?_⟩
      have hfront : front (ts ++ comma :: (ts' ++ r)) = front (ts ++ comma :: (ts' ++ s')) :=
        front_append_congr ts rfl
      rw [List.append_assoc, List.cons_append]
      rw [← hfront] at more
      exact .argsComma more (harg (comma :: (ts' ++ r)) rfl) hcomma (hrest r hr)
  | @argsLast x args a t s s₁ more _ type ih =>
      obtain ⟨ts, rfl, harg⟩ := ih
      refine ⟨ts ++ [t], by simp, fun r _ => ?_⟩
      have hfront : front (ts ++ t :: r) = front (ts ++ t :: s₁) := front_append_congr ts rfl
      rw [List.append_assoc, List.singleton_append]
      rw [← hfront] at more
      exact .argsLast more (harg (t :: r) rfl) type

/-- **And so does the statement parser.** -/
theorem ReadsStmt.lookahead {g : StmtGoal} {events : List Event} (h : ReadsStmt g s e s' events)
    (hg : ∀ stmts, g ≠ .program stmts) :
    ∃ ts, s = ts ++ s' ∧ ∀ r, front r = front s' → ReadsStmt g (ts ++ r) e r events := by
  induction h with
  | @varDecl v x eq s s' e hv hx heq value =>
      obtain ⟨ts, rfl, hvalue⟩ := value.lookahead
      exact ⟨v :: x :: eq :: ts, rfl, fun r hr => .varDecl hv hx heq (hvalue r hr)⟩
  | @varDeclTyped v x arrow type eq s s' e hv hx harrow heq value =>
      obtain ⟨ts, rfl, hvalue⟩ := value.lookahead
      exact ⟨v :: x :: arrow :: type :: eq :: ts, rfl,
        fun r hr => .varDeclTyped hv hx harrow heq (hvalue r hr)⟩
  | primary ident inner =>
      obtain ⟨ts, rfl, hinner⟩ := inner.lookahead
      refine ⟨ts, rfl, fun r hr => .primary ?_ (hinner r hr)⟩
      rw [front_append_congr ts hr]
      exact ident
  | @block l s s' e events left _ ih =>
      obtain ⟨ts, rfl, hinner⟩ := ih (by simp)
      exact ⟨l :: ts, rfl, fun r hr => .block left (hinner r hr)⟩
  | @ifThen i p r l s s₁ s' e b events hi hp condition hr hl _ noElse ih =>
      obtain ⟨ts', rfl, hblock⟩ := ih (by simp)
      obtain ⟨ts, rfl, hcondition⟩ := condition.lookahead
      refine ⟨i :: p :: (ts ++ r :: l :: ts'), by simp, fun q hq => ?_⟩
      -- the token behind the block is still no `else`
      have hno : (front q).type ≠ .ELSE := by
        rw [hq]
        exact noElse
      have happend : (i :: p :: (ts ++ r :: l :: ts')) ++ q
          = i :: p :: (ts ++ r :: l :: (ts' ++ q)) := by simp
      rw [happend]
      exact .ifThen hi hp (hcondition (r :: l :: (ts' ++ q)) rfl) hr hl (hblock q hq) hno
  | @ifElse i p r l els l' s s₁ s₂ s' e b c events events' hi hp condition hr hl _ hels hl' _
      ih₁ ih₂ =>
      obtain ⟨ts'', rfl, hblock'⟩ := ih₂ (by simp)
      obtain ⟨ts', rfl, hblock⟩ := ih₁ (by simp)
      obtain ⟨ts, rfl, hcondition⟩ := condition.lookahead
      refine ⟨i :: p :: (ts ++ r :: l :: (ts' ++ els :: l' :: ts'')), by simp, fun q hq => ?_⟩
      have happend : (i :: p :: (ts ++ r :: l :: (ts' ++ els :: l' :: ts''))) ++ q
          = i :: p :: (ts ++ r :: l :: (ts' ++ els :: l' :: (ts'' ++ q))) := by simp
      rw [happend]
      exact .ifElse hi hp (hcondition (r :: l :: (ts' ++ els :: l' :: (ts'' ++ q))) rfl) hr hl
        (hblock (els :: l' :: (ts'' ++ q)) rfl) hels hl' (hblock' q hq)
  | @blockEnd stmts r s right => exact ⟨[r], rfl, fun _ _ => .blockEnd right⟩
  | @blockStmt stmts t s s₁ s' a e events events' starts stmt _ ih₁ ih₂ =>
      obtain ⟨ts', rfl, hrest⟩ := ih₂ (by simp)
      obtain ⟨ts, hts, hstmt⟩ := ih₁ (by simp)
      -- the statement has taken its first token
      cases ts with
      | nil =>
          have hlen := stmt.length
          rw [hts] at hlen
          simp [StmtGoal.takes] at hlen
      | cons u ts =>
          obtain ⟨rfl, rfl⟩ := List.cons.inj hts
          refine ⟨t :: (ts ++ ts'), by simp, fun r hr => ?_⟩
          rw [List.cons_append, List.append_assoc]
          exact .blockStmt starts (hstmt (ts' ++ r) (front_append_congr ts' hr)) (hrest r hr)
  | @blockSkip stmts t s s' e events drops noEnd noFile _ ih =>
      obtain ⟨ts, rfl, hrest⟩ := ih (by simp)
      exact ⟨t :: ts, rfl, fun r hr => .blockSkip drops noEnd noFile (hrest r hr)⟩
  | programEnd | programStmt | programSkip => exact absurd rfl (hg _)

end Lookahead

/-! ## §2. Where the tokens go on as they must. -/

/-- **A beginning of a program**: statements one behind the other, inside
blocks that are still open.  `last` are the tokens of the last statement, none
at the start of the program or of a block. -/
inductive Begun : Bool → List Token → List Token → Prop
  | start : Begun false [] []
  | stmt {inBlock : Bool} {ts last ts' : List Token} {a : ASTNode} (begun : Begun inBlock ts last)
      (stmt : RendersStmt .stmt a ts') : Begun inBlock (ts ++ ts') ts'
  | block {inBlock : Bool} {ts last : List Token} {l : Token} (begun : Begun inBlock ts last)
      (left : l.type = .L_CURL_BRKT) : Begun true (ts ++ [l]) []
  | ifBlock {inBlock : Bool} {ts last cs : List Token} {i p r l : Token} {o : Bool} {e : ASTNode}
      (begun : Begun inBlock ts last) (hi : i.type = .IF) (hp : p.type = .L_PAREN)
      (condition : Renders (.expr 5 o) e cs) (hr : r.type = .R_PAREN)
      (hl : l.type = .L_CURL_BRKT) : Begun true (ts ++ i :: p :: (cs ++ [r, l])) []
  | elseBlock {inBlock : Bool} {ts last cs ts' : List Token} {i p r l els l' : Token} {o : Bool}
      {e b : ASTNode} (begun : Begun inBlock ts last) (hi : i.type = .IF) (hp : p.type = .L_PAREN)
      (condition : Renders (.expr 5 o) e cs) (hr : r.type = .R_PAREN) (hl : l.type = .L_CURL_BRKT)
      (ifBlock : RendersStmt (.block []) b ts') (hels : els.type = .ELSE)
      (hl' : l'.type = .L_CURL_BRKT) :
      Begun true (ts ++ i :: p :: (cs ++ r :: l :: (ts' ++ [els, l']))) []

/-- A statement goes on with `t` behind the statement `last`, as with an
operator behind a value or an `else` behind the block of an `if`. -/
def GoesOn (last : List Token) (t : Token) : Prop :=
  ∃ a b tail, RendersStmt .stmt a last ∧ RendersStmt .stmt b (last ++ t :: tail)

/-- **Every token is where one may be**: the numbers are integers, what stands
for a type is one, and behind each beginning a statement starts or goes on or
the block is closed. -/
structure WellSeparated (tokens : List Token) : Prop where
  numeric : Numeric tokens
  types : ∀ before arrow t after, tokens = before ++ arrow :: t :: after →
    arrow.type = .ARR_RIGHT → isTypeToken t = true
  boundaries : ∀ inBlock before last t after, tokens = before ++ t :: after →
    Begun inBlock before last →
      startsStatement t.type = true ∨ (inBlock = true ∧ t.type = .R_CURL_BRKT) ∨ GoesOn last t

/-- No statement goes on behind a statement with what may come behind one. -/
theorem FollowsStmt.nil_of_append {a b : ASTNode} {last rest : List Token}
    (hrest : FollowsStmt rest) (hlast : RendersStmt .stmt a last)
    (h : RendersStmt .stmt b (last ++ rest)) : rest = [] := by
  obtain ⟨events, hread, -⟩ := reads_of_rendersStmt hlast rest hrest
  obtain ⟨events', hread', -⟩ := reads_of_rendersStmt h [] (Or.inr (Or.inr rfl))
  rw [List.append_nil] at hread'
  exact (hread.unique hread').2

/-- Nor with a token that starts a statement. -/
theorem GoesOn.not_starts {last : List Token} {t : Token} (h : GoesOn last t) :
    startsStatement t.type = false := by
  obtain ⟨a, b, tail, hlast, hlonger⟩ := h
  rw [Bool.eq_false_iff]
  intro hstarts
  have hfollows : FollowsStmt (t :: tail) := Or.inl hstarts
  exact absurd (hfollows.nil_of_append hlast hlonger) (List.cons_ne_nil t tail)

/-- Behind a statement that was read the next token does not go on with it. -/
theorem ReadsStmt.not_goesOn {ts s' : TokenSource} {a : ASTNode} {t : Token} {events : List Event}
    (h : ReadsStmt .stmt (ts ++ t :: s') a (t :: s') events) : ¬ GoesOn ts t := by
  intro ⟨_, b, tail, _, hlonger⟩
  obtain ⟨ts₁, hts₁, hlook⟩ := h.lookahead (by simp)
  obtain rfl := List.append_cancel_right hts₁
  -- behind the same tokens, and in front of `t`, the statement would end again
  have hread := hlook (t :: tail) rfl
  obtain ⟨events', hread', -⟩ := reads_of_rendersStmt hlonger [] (Or.inr (Or.inr rfl))
  rw [List.append_nil] at hread'
  exact absurd (hread.unique hread').2 (List.cons_ne_nil t tail)

/-! ## §3. Which tokens are written. -/

/-- The tokens of expressions, but for numbers. -/
def inExpression (t : TokenType) : Bool :=
  t = .IDENT || t = .COLON || t = .EQ || t = .COMMA || t = .SEMICOLON || t = .L_PAREN ||
    t = .R_PAREN || t = .MINUS || t = .NOT || multiplicativeOps t || additiveOps t ||
    comparisonOps t || logicalOps t

/-- Every binary operator may stand in an expression. -/
theorem inExpression_of_op {p : Nat} {t : TokenType} (h : opsAt p t = true) :
    inExpression t = true := by
  obtain ⟨-, m, rfl⟩ := opsAt_inv h
  have hall : ∀ t : TokenType, multiplicativeOps t = true ∨ additiveOps t = true ∨
      comparisonOps t = true ∨ logicalOps t = true → inExpression t = true := by
    intro t
    cases t <;> decide
  match m, h with
  | 0, h => exact hall t (Or.inl h)
  | 1, h => exact hall t (Or.inr (Or.inl h))
  | 2, h => exact hall t (Or.inr (Or.inr (Or.inl h)))
  | 3, h => exact hall t (Or.inr (Or.inr (Or.inr h)))

/-- **What holds of these and of numerals** holds of the tokens of an
expression. -/
theorem Renders.forall_tokens {P : Token → Prop}
    (hnumber : ∀ t : Token, t.type = .NUMBER → (∀ c ∈ t.content.toList, c.isDigit = true) → P t)
    (hother : ∀ t : Token, inExpression t.type = true → P t) {shape : Shape} {e : ASTNode}
    {ts : List Token} (h : Renders shape e ts) : ∀ t ∈ ts, P t := by
  have hnil : ∀ t ∈ ([] : List Token), P t := fun t ht => absurd ht List.not_mem_nil
  have hcons : ∀ {t : Token} {ts : List Token} (type : TokenType), t.type = type →
      inExpression type = true → (∀ u ∈ ts, P u) → ∀ u ∈ t :: ts, P u := by
    rintro t ts type rfl hin hts
    exact List.forall_mem_cons.2 ⟨hother t hin, hts⟩
  induction h with
  | @number t n type value _ => exact List.forall_mem_cons.2 ⟨hnumber t type value.2.1, hnil⟩
  | ident type => exact hcons _ type (by decide) hnil
  | call type hcolon _ ih => exact hcons _ type (by decide) (hcons _ hcolon (by decide) ih)
  | assign type heq _ ih => exact hcons _ type (by decide) (hcons _ heq (by decide) ih)
  | paren left _ right ih =>
      apply hcons _ left (by decide)
      exact List.forall_mem_append.2 ⟨ih, hcons _ right (by decide) hnil⟩
  | unary type _ ih =>
      rcases type with type | type
      · exact hcons _ type (by decide) ih
      · exact hcons _ type (by decide) ih
  | lift _ ih => exact ih
  | binary _ op _ ih₁ ih₂ =>
      exact List.forall_mem_append.2 ⟨ih₁, hcons _ rfl (inExpression_of_op op) ih₂⟩
  | argsEnd type => exact hcons _ type (by decide) hnil
  | argsComma _ hcomma _ ih₁ ih₂ =>
      exact List.forall_mem_append.2 ⟨ih₁, hcons _ hcomma (by decide) ih₂⟩
  | argsLast _ type ih => exact List.forall_mem_append.2 ⟨ih, hcons _ type (by decide) hnil⟩

/-- A token of a written program: not a keyword without a statement of its
own, and a number has digits only. -/
def Plain (t : Token) : Prop :=
  t.type ≠ .WHILE ∧ (t.type = .NUMBER → ∀ c ∈ t.content.toList, c.isDigit = true)

theorem plain_of_eq {t : Token} {type : TokenType} (h : t.type = type) (hwhile : type ≠ .WHILE)
    (hnumber : type ≠ .NUMBER) : Plain t := by
  subst h
  exact ⟨hwhile, fun htype => absurd htype hnumber⟩

/-- **The tokens of a written program**: all are plain, behind every arrow
stands a type, and no arrow is last. -/
structure Orderly (ts : List Token) : Prop where
  plain : ∀ t ∈ ts, Plain t
  types : ts.IsChain fun arrow t => arrow.type = .ARR_RIGHT → isTypeToken t = true
  last : ∀ t ∈ ts.getLast?, t.type ≠ .ARR_RIGHT

section Orderly

variable {t : Token} {ts ts' : List Token}

theorem orderly_nil : Orderly [] where
  plain := fun _ ht => absurd ht List.not_mem_nil
  types := .nil
  last := fun _ ht => by cases ht

/-- Orderly token lists may be put together. -/
theorem Orderly.append (h : Orderly ts) (h' : Orderly ts') : Orderly (ts ++ ts') where
  plain := List.forall_mem_append.2 ⟨h.plain, h'.plain⟩
  types := h.types.append h'.types fun arrow harrow _ _ heq => absurd heq (h.last arrow harrow)
  last := by
    intro t ht
    rw [List.getLast?_append] at ht
    rcases Option.or_eq_some_iff.1 ht with ht | ⟨-, ht⟩
    · exact h'.last t ht
    · exact h.last t ht

/-- A token that is no arrow in front. -/
theorem Orderly.cons (h : Orderly ts) (hplain : Plain t) (harrow : t.type ≠ .ARR_RIGHT) :
    Orderly (t :: ts) := by
  have hsingle : Orderly [t] :=
    { plain := List.forall_mem_singleton.2 hplain
      types := .singleton t
      last := by
        rintro u ⟨⟩
        exact harrow }
  exact hsingle.append h

/-- A token of a fixed kind in front. -/
theorem Orderly.key (h : Orderly ts) {type : TokenType} (ht : t.type = type)
    (hkind : type ≠ .WHILE ∧ type ≠ .NUMBER ∧ type ≠ .ARR_RIGHT) : Orderly (t :: ts) :=
  h.cons (plain_of_eq ht hkind.1 hkind.2.1) (by rw [ht]; exact hkind.2.2)

/-- An arrow and a type in front. -/
theorem Orderly.typed (h : Orderly ts) {arrow : Token} (harrow : arrow.type = .ARR_RIGHT)
    (htype : isTypeToken t = true) : Orderly (arrow :: t :: ts) := by
  have hkind : ∀ k : TokenType, k = .INT ∨ k = .FLOAT ∨ k = .BOOL ∨ k = .CHAR6 ∨ k = .IDENT →
      k ≠ .WHILE ∧ k ≠ .NUMBER ∧ k ≠ .ARR_RIGHT := by
    rintro k (rfl | rfl | rfl | rfl | rfl) <;> decide
  have hmem : t.type = .INT ∨ t.type = .FLOAT ∨ t.type = .BOOL ∨ t.type = .CHAR6 ∨
      t.type = .IDENT := by
    simp only [isTypeToken, Bool.or_eq_true, Bool.and_eq_true, decide_eq_true_eq] at htype
    tauto
  have htail : Orderly (t :: ts) := h.key rfl (hkind _ hmem)
  exact
    { plain := List.forall_mem_cons.2
        ⟨plain_of_eq harrow (by decide) (by decide), htail.plain⟩
      types := List.isChain_cons_cons.2 ⟨fun _ => htype, htail.types⟩
      last := by
        rw [List.getLast?_cons_cons]
        exact htail.last }

/-- The tokens of an expression are orderly. -/
theorem Renders.orderly {shape : Shape} {e : ASTNode} (h : Renders shape e ts) : Orderly ts := by
  have hkind : ∀ type : TokenType, inExpression type = true →
      type ≠ .WHILE ∧ type ≠ .NUMBER ∧ type ≠ .ARR_RIGHT := by
    intro type
    cases type <;> decide
  have hall : ∀ t ∈ ts, Plain t ∧ t.type ≠ .ARR_RIGHT := by
    refine h.forall_tokens (fun t htype hdigits => ?_) fun t hin => ?_
    · have hne : TokenType.NUMBER ≠ .WHILE ∧ TokenType.NUMBER ≠ .ARR_RIGHT := by decide
      rw [← htype] at hne
      exact ⟨⟨hne.1, fun _ => hdigits⟩, hne.2⟩
    · obtain ⟨hwhile, hnumber, harrow⟩ := hkind _ hin
      exact ⟨plain_of_eq rfl hwhile hnumber, harrow⟩
  clear h
  induction ts with
  | nil => exact orderly_nil
  | cons t ts ih =>
      rw [List.forall_mem_cons] at hall
      exact (ih hall.2).cons hall.1.1 hall.1.2

/-- **What is written is orderly.** -/
theorem RendersStmt.orderly {g : StmtGoal} {e : ASTNode} (h : RendersStmt g e ts) : Orderly ts := by
  induction h with
  | varDecl hv hx heq value =>
      exact ((value.orderly.key heq (by decide)).key hx (by decide)).key hv (by decide)
  | varDeclTyped hv hx harrow htype heq value =>
      have hvalue := value.orderly.key heq (by decide)
      exact ((hvalue.typed harrow htype).key hx (by decide)).key hv (by decide)
  | primary _ inner => exact inner.orderly
  | block left _ ih => exact ih.key left (by decide)
  | ifThen hi hp condition hr hl _ ih =>
      have hblock := (ih.key hl (by decide)).key hr (by decide)
      exact ((condition.orderly.append hblock).key hp (by decide)).key hi (by decide)
  | ifElse hi hp condition hr hl _ hels hl' _ ih₁ ih₂ =>
      -- the block of the condition, `else` and the other block
      have helse := ih₁.append ((ih₂.key hl' (by decide)).key hels (by decide))
      have hblock := (helse.key hl (by decide)).key hr (by decide)
      exact ((condition.orderly.append hblock).key hp (by decide)).key hi (by decide)
  | blockEnd right => exact orderly_nil.key right (by decide)
  | blockStmt _ _ ih₁ ih₂ | programStmt _ _ ih₁ ih₂ => exact ih₁.append ih₂
  | programEnd => exact orderly_nil

end Orderly

/-! ## §4. A written program. -/

/-- The goal at the end of a beginning. -/
def goalIn (inBlock : Bool) (stmts : List ASTNode) : StmtGoal :=
  if inBlock then .block stmts else .program stmts

/-- **The rest of a program or block is read** without dropping anything. -/
def Going (inBlock : Bool) (s : TokenSource) : Prop :=
  ∃ stmts e s' events, ReadsStmt (goalIn inBlock stmts) s e s' events ∧ ∀ ev ∈ events, ev.Fine

section Going

variable {inBlock : Bool} {s : TokenSource} {t : Token}

/-- It starts with a statement, or with the end of the block. -/
theorem Going.head (h : Going inBlock (t :: s)) :
    startsStatement t.type = true ∨ (inBlock = true ∧ t.type = .R_CURL_BRKT) := by
  obtain ⟨stmts, e, s', events, hread, hfine⟩ := h
  cases inBlock with
  | false =>
      cases hread with
      | programStmt starts => exact Or.inl starts
      | programSkip => exact Or.inl (hfine _ List.mem_cons_self)
  | true =>
      cases hread with
      | blockEnd right => exact Or.inr ⟨rfl, right⟩
      | blockStmt starts => exact Or.inl starts
      | blockSkip => exact Or.inl (hfine _ List.mem_cons_self)

/-- What keeps an expression from going on may follow a statement. -/
theorem Going.follows (h : Going inBlock s) : FollowsStmt s := by
  cases s with
  | nil => exact Or.inr (Or.inr rfl)
  | cons t s =>
      rcases h.head with hstarts | ⟨-, hright⟩
      · exact Or.inl hstarts
      · exact Or.inr (Or.inl hright)

/-- A statement is read, and it goes on behind it. -/
theorem Going.stmt (h : Going inBlock (t :: s)) (hstarts : startsStatement t.type = true) :
    ∃ a s₁ events, ReadsStmt .stmt (t :: s) a s₁ events ∧ (∀ ev ∈ events, ev.Fine) ∧
      Going inBlock s₁ := by
  obtain ⟨stmts, e, s', events, hread, hfine⟩ := h
  cases inBlock with
  | false =>
      cases hread with
      | programStmt _ stmt rest =>
          rw [List.forall_mem_cons, List.forall_mem_append] at hfine
          exact ⟨_, _, _, stmt, hfine.2.1, _, _, _, _, rest, hfine.2.2⟩
      | programSkip drops => exact absurd hstarts (by rw [drops]; decide)
  | true =>
      cases hread with
      | blockEnd right =>
          rw [right] at hstarts
          exact absurd hstarts (by decide)
      | blockStmt _ stmt rest =>
          rw [List.forall_mem_cons, List.forall_mem_append] at hfine
          exact ⟨_, _, _, stmt, hfine.2.1, _, _, _, _, rest, hfine.2.2⟩
      | blockSkip drops => exact absurd hstarts (by rw [drops]; decide)

end Going

/-- Behind the condition of an `if` a block is read, and behind an `else`
another one. -/
theorem ReadsStmt.ifBlock {i p r l : Token} {s s₁ s₂ : TokenSource} {a e : ASTNode}
    {events : List Event} (h : ReadsStmt .stmt (i :: p :: s) a s₁ events) (hi : i.type = .IF)
    (hcondition : Reads (.level 5) s e (r :: l :: s₂)) :
    ∃ b s₃ events', ReadsStmt (.block []) s₂ b s₃ events' ∧ events' ⊆ events ∧
      ((front s₃).type ≠ .ELSE ∨ ∃ els l' s₄ c events'', s₃ = els :: l' :: s₄ ∧
        ReadsStmt (.block []) s₄ c s₁ events'' ∧ events'' ⊆ events) := by
  cases h with
  | ifThen _ _ condition _ _ ifBlock noElse =>
      obtain ⟨-, heq⟩ := hcondition.unique condition
      injection heq with _ heq
      injection heq with _ heq
      rw [heq]
      exact ⟨_, _, _, ifBlock, List.Subset.refl _, Or.inl noElse⟩
  | ifElse _ _ condition _ _ ifBlock _ _ elseBlock =>
      obtain ⟨-, heq⟩ := hcondition.unique condition
      injection heq with _ heq
      injection heq with _ heq
      rw [heq]
      exact ⟨_, _, _, ifBlock, List.subset_append_left _ _,
        Or.inr ⟨_, _, _, _, _, rfl, elseBlock, List.subset_append_right _ _⟩⟩
  | block left => exact absurd (hi.symm.trans left) (by decide)
  | varDecl hv | varDeclTyped hv => exact absurd (hi.symm.trans hv) (by decide)
  | primary ident => exact absurd (hi.symm.trans ident) (by decide)

/-- **Behind a beginning of a written program** the rest is read as it must
be, or goes on with the last statement. -/
theorem Begun.going {inBlock : Bool} {before last : List Token} (h : Begun inBlock before last) :
    ∀ {s : TokenSource}, Numeric (before ++ s) → Going false (before ++ s) →
      Going inBlock s ∨ ∃ t r, s = t :: r ∧ GoesOn last t := by
  -- a statement behind the beginning is no part of the last one
  have hstmt : ∀ {inBlock : Bool} {last : List Token} {t : Token} {s : TokenSource},
      Going inBlock (t :: s) ∨ (∃ u r, t :: s = u :: r ∧ GoesOn last u) →
      startsStatement t.type = true → Going inBlock (t :: s) := by
    rintro inBlock last t s (hgoing | ⟨u, r, heq, hon⟩) hstarts
    · exact hgoing
    · obtain ⟨rfl, rfl⟩ := List.cons.inj heq
      exact absurd hstarts (by rw [hon.not_starts]; decide)
  have hbracket : ∀ {l : Token}, l.type = .L_CURL_BRKT → startsStatement l.type = true := by
    intro l hl
    rw [hl]
    rfl
  have hif : ∀ {i : Token}, i.type = .IF → startsStatement i.type = true := by
    intro i hi
    rw [hi]
    rfl
  induction h with
  | start => exact fun _ hgoing => Or.inl hgoing
  | @stmt inBlock ts last ts' a _ stmt ih =>
      intro s hnumeric hgoing
      rw [List.append_assoc] at hnumeric hgoing
      obtain ⟨t, ts₁, rfl⟩ := List.exists_cons_of_ne_nil stmt.start.1
      obtain ⟨b, s₁, events, hread, hfine, hrest⟩ :=
        (hstmt (ih hnumeric hgoing) (stmt.start.2 s)).stmt (stmt.start.2 s)
      obtain ⟨ts₂, heq, hb⟩ := rendersStmt_of_reads hread hnumeric.right hfine
      change (t :: ts₁) ++ s = ts₂ ++ s₁ at heq
      -- the statement that is read is as long, longer or shorter
      rcases List.append_eq_append_iff.1 heq with ⟨u, rfl, rfl⟩ | ⟨u, hu, rfl⟩
      · cases u with
        | nil => exact Or.inl hrest
        | cons t' u => exact Or.inr ⟨t', u ++ s₁, rfl, a, b, u, stmt, hb⟩
      · have hnil : u = [] := by
          cases u with
          | nil => rfl
          | cons t' u =>
              -- what follows the shorter one cannot belong to a statement
              have hfollows : FollowsStmt (t' :: u) := hrest.follows
              rw [hu] at stmt
              exact hfollows.nil_of_append hb stmt
        subst hnil
        exact Or.inl hrest
  | @block inBlock ts last l _ left ih =>
      intro s hnumeric hgoing
      rw [List.append_assoc] at hnumeric hgoing
      obtain ⟨b, s₁, events, hread, hfine, -⟩ :=
        (hstmt (ih hnumeric hgoing) (hbracket left)).stmt (hbracket left)
      cases hread with
      | block _ inner => exact Or.inl ⟨_, _, _, _, inner, hfine⟩
      | varDecl hv | varDeclTyped hv => exact absurd (left.symm.trans hv) (by decide)
      | primary ident => exact absurd (left.symm.trans ident) (by decide)
      | ifThen hi | ifElse hi => exact absurd (left.symm.trans hi) (by decide)
  | @ifBlock inBlock ts last cs i p r l o e _ hi hp condition hr hl ih =>
      intro s hnumeric hgoing
      have happend : (ts ++ i :: p :: (cs ++ [r, l])) ++ s
          = ts ++ i :: p :: (cs ++ r :: l :: s) := by simp
      rw [happend] at hnumeric hgoing
      obtain ⟨b, s₁, events, hread, hfine, -⟩ :=
        (hstmt (ih hnumeric hgoing) (hif hi)).stmt (hif hi)
      have hcondition := (reads_of_renders condition).1 (r :: l :: s)
        (follows_of_type (Or.inr (Or.inr hr)) _)
      obtain ⟨_, _, events', hblock, hevents, -⟩ := hread.ifBlock hi hcondition
      exact Or.inl ⟨_, _, _, _, hblock, fun ev hev => hfine ev (hevents hev)⟩
  | @elseBlock inBlock ts last cs ts' i p r l els l' o e b _ hi hp condition hr hl block hels hl'
      ih =>
      intro s hnumeric hgoing
      have happend : (ts ++ i :: p :: (cs ++ r :: l :: (ts' ++ [els, l']))) ++ s
          = ts ++ i :: p :: (cs ++ r :: l :: (ts' ++ els :: l' :: s)) := by simp
      rw [happend] at hnumeric hgoing
      obtain ⟨b', s₁, events, hread, hfine, -⟩ :=
        (hstmt (ih hnumeric hgoing) (hif hi)).stmt (hif hi)
      have hcondition := (reads_of_renders condition).1 (r :: l :: (ts' ++ els :: l' :: s))
        (follows_of_type (Or.inr (Or.inr hr)) _)
      obtain ⟨_, s₂, _, hblock, -, helse⟩ := hread.ifBlock hi hcondition
      -- the block ends in front of the `else`
      obtain ⟨_, hblock', -⟩ := reads_of_rendersStmt block (els :: l' :: s)
      obtain ⟨-, rfl⟩ := hblock'.unique hblock
      rcases helse with hno | ⟨els', l'', s₃, c, events', heq, hread', hevents⟩
      · exact absurd hels hno
      · injection heq with _ heq
        injection heq with _ heq
        rw [heq]
        exact Or.inl ⟨_, _, _, _, hread', fun ev hev => hfine ev (hevents hev)⟩

/-- **The tokens of a written program are well separated.** -/
theorem RendersStmt.wellSeparated {e : ASTNode} {tokens : List Token}
    (h : RendersStmt (.program []) e tokens) : WellSeparated tokens := by
  have horderly := h.orderly
  have hnumeric : Numeric tokens := fun t ht => (horderly.plain t ht).2
  refine ⟨hnumeric, fun before arrow t after htokens harrow => ?_,
    fun inBlock before last t after htokens hbegun => ?_⟩
  · have htypes := horderly.types
    rw [htokens] at htypes
    exact (List.isChain_cons_cons.1 htypes.right_of_append).1 harrow
  · obtain ⟨events, hread, hfine⟩ := reads_of_rendersStmt h
    have hgoing : Going false tokens := ⟨_, _, _, _, hread, hfine⟩
    rw [htokens] at hgoing hnumeric
    rcases hbegun.going hnumeric hgoing with hrest | ⟨u, r, heq, hon⟩
    · rcases hrest.head with hstarts | hright
      · exact Or.inl hstarts
      · exact Or.inr (Or.inl hright)
    · obtain ⟨rfl, -⟩ := List.cons.inj heq
      exact Or.inr (Or.inr hon)

/-! ## §5. A well separated list. -/

/-- What the tokens in front of a goal must be. -/
def StmtGoal.Reached (before : List Token) (s : TokenSource) : StmtGoal → Prop
  | .stmt => ∃ inBlock last, Begun inBlock before last
  | .block _ => ∃ last, Begun true before last ∧ ∀ t ∈ s.head?, ¬ GoesOn last t
  | .program _ => ∃ last, Begun false before last ∧ ∀ t ∈ s.head?, ¬ GoesOn last t

/-- Behind the opening bracket of a block nothing goes on. -/
theorem not_goesOn_nil (t : Token) : ¬ GoesOn [] t := by
  intro ⟨_, _, _, hnil, _⟩
  exact hnil.start.1 rfl

/-- **Of a well separated list nothing is dropped.** -/
theorem ReadsStmt.fine {tokens : List Token} (hsep : WellSeparated tokens) {g : StmtGoal}
    {s s' : TokenSource} {e : ASTNode} {events : List Event} (h : ReadsStmt g s e s' events) :
    ∀ {before}, tokens = before ++ s → g.Reached before s → ∀ ev ∈ events, ev.Fine := by
  have hnumeric : ∀ {before s}, tokens = before ++ s → Numeric s := by
    intro before s htokens
    have hall := hsep.numeric
    rw [htokens] at hall
    exact hall.right
  -- the statement that was read ends where the next one starts
  have hnext : ∀ {before s s₁ : TokenSource} {inBlock : Bool} {last : List Token} {a : ASTNode}
      {events : List Event}, tokens = before ++ s → Begun inBlock before last →
      ReadsStmt .stmt s a s₁ events → (∀ ev ∈ events, ev.Fine) →
      ∃ ts, tokens = (before ++ ts) ++ s₁ ∧ Begun inBlock (before ++ ts) ts ∧
        ∀ t ∈ s₁.head?, ¬ GoesOn ts t := by
    intro before s s₁ inBlock last a events htokens hbegun hstmt hfine
    obtain ⟨ts, rfl, hwritten⟩ := rendersStmt_of_reads hstmt (hnumeric htokens) hfine
    refine ⟨ts, by rw [htokens, List.append_assoc], .stmt hbegun hwritten, fun t ht => ?_⟩
    cases s₁ with
    | nil => cases ht
    | cons u s₁ =>
        cases ht
        exact hstmt.not_goesOn
  induction h with
  | varDecl | primary | blockEnd | programEnd =>
      exact fun _ _ ev hev => absurd hev List.not_mem_nil
  | @varDeclTyped v x arrow type eq s s' e hv hx harrow heq value =>
      intro before htokens _
      refine List.forall_mem_singleton.2 (hsep.types (before ++ [v, x]) arrow type (eq :: s) ?_ harrow)
      rw [htokens]
      simp
  | @block l s s' e events left _ ih =>
      intro before htokens ⟨inBlock, last, hbegun⟩
      have hopen : tokens = (before ++ [l]) ++ s := by
        rw [htokens]
        simp
      exact ih hopen ⟨[], .block hbegun left, fun t _ => not_goesOn_nil t⟩
  | @ifThen i p r l s s₁ s' e b events hi hp condition hr hl _ _ ih =>
      intro before htokens ⟨inBlock, last, hbegun⟩
      obtain ⟨cs, o, rfl, hcondition, -⟩ :=
        renders_of_reads condition (hnumeric htokens).tail.tail
      have hopen : tokens = (before ++ i :: p :: (cs ++ [r, l])) ++ s₁ := by
        rw [htokens]
        simp
      exact ih hopen ⟨[], .ifBlock hbegun hi hp hcondition hr hl, fun t _ => not_goesOn_nil t⟩
  | @ifElse i p r l els l' s s₁ s₂ s' e b c events events' hi hp condition hr hl ifBlock hels hl' _
      ih₁ ih₂ =>
      intro before htokens ⟨inBlock, last, hbegun⟩
      obtain ⟨cs, o, rfl, hcondition, -⟩ :=
        renders_of_reads condition (hnumeric htokens).tail.tail
      have hopen : tokens = (before ++ i :: p :: (cs ++ [r, l])) ++ s₁ := by
        rw [htokens]
        simp
      have hfine := ih₁ hopen
        ⟨[], .ifBlock hbegun hi hp hcondition hr hl, fun t _ => not_goesOn_nil t⟩
      -- the first block is written so, and the second one is open behind it
      obtain ⟨ts', rfl, hblock⟩ := rendersStmt_of_reads ifBlock (hnumeric hopen) hfine
      have hopen' : tokens = (before ++ i :: p :: (cs ++ r :: l :: (ts' ++ [els, l']))) ++ s₂ := by
        rw [htokens]
        simp
      refine List.forall_mem_append.2 ⟨hfine, ?_⟩
      exact ih₂ hopen'
        ⟨[], .elseBlock hbegun hi hp hcondition hr hl hblock hels hl', fun t _ => not_goesOn_nil t⟩
  | @blockStmt stmts t s s₁ s' a e events events' starts stmt _ ih₁ ih₂ =>
      intro before htokens ⟨last, hbegun, _⟩
      have hfine := ih₁ htokens ⟨true, last, hbegun⟩
      obtain ⟨ts, htokens', hbegun', hstop⟩ := hnext htokens hbegun stmt hfine
      exact List.forall_mem_cons.2
        ⟨starts, List.forall_mem_append.2 ⟨hfine, ih₂ htokens' ⟨ts, hbegun', hstop⟩⟩⟩
  | @programStmt stmts t s s₁ s' a e events events' starts stmt _ ih₁ ih₂ =>
      intro before htokens ⟨last, hbegun, _⟩
      have hfine := ih₁ htokens ⟨false, last, hbegun⟩
      obtain ⟨ts, htokens', hbegun', hstop⟩ := hnext htokens hbegun stmt hfine
      exact List.forall_mem_cons.2
        ⟨starts, List.forall_mem_append.2 ⟨hfine, ih₂ htokens' ⟨ts, hbegun', hstop⟩⟩⟩
  | @blockSkip stmts t s s' e events drops noEnd _ _ _ =>
      intro before htokens ⟨last, hbegun, hstop⟩
      -- a token that is dropped does not belong behind its beginning
      exfalso
      rcases hsep.boundaries true before last t s htokens hbegun with hstarts | ⟨-, hright⟩ | hon
      · exact absurd (drops.symm.trans hstarts) (by decide)
      · exact noEnd hright
      · exact hstop t rfl hon
  | @programSkip stmts t s s' e events drops _ _ =>
      intro before htokens ⟨last, hbegun, hstop⟩
      exfalso
      rcases hsep.boundaries false before last t s htokens hbegun with hstarts | ⟨hblock, -⟩ | hon
      · exact absurd (drops.symm.trans hstarts) (by decide)
      · exact absurd hblock (by decide)
      · exact hstop t rfl hon

/-! ## §6. No token is dropped. -/

/-- **A tree that is returned accounts for every token**, up to parentheses,
a trailing comma and the type of a variable, if and only if the tokens are well
separated. -/
theorem tokens_accounted_iff {tokens : List Token} {e : ASTNode}
    (h : parseProgram tokens = .ok e) :
    RendersStmt (.program []) e tokens ↔ WellSeparated tokens := by
  refine ⟨fun hwritten => hwritten.wellSeparated, fun hsep => ?_⟩
  obtain ⟨events, hread⟩ := parseProgram_eq_ok_iff.1 h
  have hfine := hread.fine hsep (List.nil_append tokens).symm
    ⟨[], .start, fun t _ => not_goesOn_nil t⟩
  obtain ⟨ts, hts, hwritten⟩ := rendersStmt_of_reads hread hsep.numeric hfine
  rw [List.append_nil] at hts
  rw [hts]
  exact hwritten

/-- The tokens of `var x -> int = 1 { f: x; }`. -/
def declaredCall : List Token :=
  [⟨.VAR, "var"⟩, ⟨.IDENT, "x"⟩, ⟨.ARR_RIGHT, "->"⟩, ⟨.INT, "int"⟩, ⟨.EQ, "="⟩, ⟨.NUMBER, "1"⟩,
    ⟨.L_CURL_BRKT, "\x7b"⟩, ⟨.IDENT, "f"⟩, ⟨.COLON, ":"⟩, ⟨.IDENT, "x"⟩, ⟨.SEMICOLON, ";"⟩,
    ⟨.R_CURL_BRKT, "\x7d"⟩]

/-- The tree of these tokens accounts for all of them, so they are well
separated. -/
theorem tokens_accounted_iff_declaredCall :
    RendersStmt (.program [])
      (.program [.varDecl "x" (.intLiteral 1), .block [.funcCall "f" [.ident "x"]]])
      declaredCall ∧
      WellSeparated declaredCall := by
  have hone : Renders (.expr 5 false) (.intLiteral 1) [⟨.NUMBER, "1"⟩] :=
    (Renders.number (t := ⟨.NUMBER, "1"⟩) rfl
      ⟨by decide, List.all_eq_true.1 (by decide), by decide⟩ (by decide)).lift_le (Nat.zero_le 5)
  have hx : Renders (.expr 5 false) (.ident "x") [⟨.IDENT, "x"⟩] :=
    (Renders.ident (t := ⟨.IDENT, "x"⟩) rfl).lift_le (Nat.zero_le 5)
  have hcall : Renders (.expr 0 false) (.funcCall "f" [.ident "x"])
      [⟨.IDENT, "f"⟩, ⟨.COLON, ":"⟩, ⟨.IDENT, "x"⟩, ⟨.SEMICOLON, ";"⟩] :=
    .call (t := ⟨.IDENT, "f"⟩) rfl rfl (.argsLast hx rfl)
  have hdecl : RendersStmt .stmt (.varDecl "x" (.intLiteral 1)) (declaredCall.take 6) :=
    .varDeclTyped (x := ⟨.IDENT, "x"⟩) rfl rfl rfl rfl rfl hone
  have hblock : RendersStmt .stmt (.block [.funcCall "f" [.ident "x"]]) (declaredCall.drop 6) :=
    .block rfl (.blockStmt (.primary rfl hcall) (.blockEnd rfl))
  have hwritten : RendersStmt (.program [])
      (.program [.varDecl "x" (.intLiteral 1), .block [.funcCall "f" [.ident "x"]]])
      declaredCall :=
    .programStmt hdecl (.programStmt hblock .programEnd)
  exact ⟨hwritten, (tokens_accounted_iff (parseProgram_of_renders hwritten)).1 hwritten⟩

/-- The tokens of `while (i < 3) { f: ; }`. -/
def whileLoop : List Token :=
  [⟨.WHILE, "while"⟩, ⟨.L_PAREN, "("⟩, ⟨.IDENT, "i"⟩, ⟨.LOWER, "<"⟩, ⟨.NUMBER, "3"⟩,
    ⟨.R_PAREN, ")"⟩, ⟨.L_CURL_BRKT, "\x7b"⟩, ⟨.IDENT, "f"⟩, ⟨.COLON, ":"⟩, ⟨.SEMICOLON, ";"⟩,
    ⟨.R_CURL_BRKT, "\x7d"⟩]

/-- **A loop is taken for a variable and a block.** -/
theorem whileLoop_dropped :
    parseProgram whileLoop = .ok (.program [.ident "i", .block [.funcCall "f" []]]) ∧
    ¬ RendersStmt (.program []) (.program [.ident "i", .block [.funcCall "f" []]]) whileLoop :=
  ⟨rfl, fun h => (h.orderly.plain ⟨.WHILE, "while"⟩ List.mem_cons_self).1 rfl⟩

/-- Its first token starts no statement. -/
example : ¬ WellSeparated whileLoop := by
  intro h
  rcases h.boundaries false [] [] ⟨.WHILE, "while"⟩ whileLoop.tail rfl .start with
    hstarts | ⟨hblock, -⟩ | hon
  · exact absurd hstarts (by decide)
  · exact absurd hblock (by decide)
  · exact not_goesOn_nil _ hon

end SproutLang.Compiler
