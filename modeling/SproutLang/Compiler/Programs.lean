/-
  SproutLang.Compiler.Programs
  ────────────────────────────
  **PROGRAMS AND THEIR TOKENS.**

  `RendersStmt` is the statement level of `Renders`: a program written so is
  its statements one behind the other, each variable with or without a type.

    • `reads_of_rendersStmt` — what is written so is read, without dropping
                               anything,
    • `rendersStmt_of_reads` — what is read without dropping anything is
                               written so.
-/
import SproutLang.Compiler.Grammar

namespace SproutLang.Compiler

/-! ## §1. Statements. -/

/-- The type production of the grammar; the lexer has no token of its own for
`string`. -/
def isTypeToken (t : Token) : Bool :=
  t.type = .INT || t.type = .FLOAT || t.type = .BOOL || t.type = .CHAR6 ||
    (t.type = .IDENT && t.content = "string")

/-- **The ways to write a program.** -/
inductive RendersStmt : StmtGoal → ASTNode → List Token → Prop
  | varDecl {v x eq : Token} {o : Bool} {e : ASTNode} {ts : List Token} (hv : v.type = .VAR)
      (hx : x.type = .IDENT) (heq : eq.type = .EQ) (value : Renders (.expr 5 o) e ts) :
      RendersStmt .stmt (.varDecl x.content e) (v :: x :: eq :: ts)
  | varDeclTyped {v x arrow type eq : Token} {o : Bool} {e : ASTNode} {ts : List Token}
      (hv : v.type = .VAR) (hx : x.type = .IDENT) (harrow : arrow.type = .ARR_RIGHT)
      (htype : isTypeToken type = true) (heq : eq.type = .EQ) (value : Renders (.expr 5 o) e ts) :
      RendersStmt .stmt (.varDecl x.content e) (v :: x :: arrow :: type :: eq :: ts)
  | primary {o : Bool} {e : ASTNode} {ts : List Token} (ident : (front ts).type = .IDENT)
      (inner : Renders (.expr 0 o) e ts) : RendersStmt .stmt e ts
  | block {l : Token} {e : ASTNode} {ts : List Token} (left : l.type = .L_CURL_BRKT)
      (inner : RendersStmt (.block []) e ts) : RendersStmt .stmt e (l :: ts)
  | ifThen {i p r l : Token} {o : Bool} {e b : ASTNode} {ts ts' : List Token} (hi : i.type = .IF)
      (hp : p.type = .L_PAREN) (condition : Renders (.expr 5 o) e ts) (hr : r.type = .R_PAREN)
      (hl : l.type = .L_CURL_BRKT) (ifBlock : RendersStmt (.block []) b ts') :
      RendersStmt .stmt (.ifStmt e b none) (i :: p :: (ts ++ r :: l :: ts'))
  | ifElse {i p r l els l' : Token} {o : Bool} {e b c : ASTNode} {ts ts' ts'' : List Token}
      (hi : i.type = .IF) (hp : p.type = .L_PAREN) (condition : Renders (.expr 5 o) e ts)
      (hr : r.type = .R_PAREN) (hl : l.type = .L_CURL_BRKT)
      (ifBlock : RendersStmt (.block []) b ts') (hels : els.type = .ELSE)
      (hl' : l'.type = .L_CURL_BRKT) (elseBlock : RendersStmt (.block []) c ts'') :
      RendersStmt .stmt (.ifStmt e b (some c))
        (i :: p :: (ts ++ r :: l :: (ts' ++ els :: l' :: ts'')))
  | blockEnd {stmts : List ASTNode} {r : Token} (right : r.type = .R_CURL_BRKT) :
      RendersStmt (.block stmts) (.block stmts) [r]
  | blockStmt {stmts : List ASTNode} {a e : ASTNode} {ts ts' : List Token}
      (stmt : RendersStmt .stmt a ts) (rest : RendersStmt (.block (stmts ++ [a])) e ts') :
      RendersStmt (.block stmts) e (ts ++ ts')
  | programEnd {stmts : List ASTNode} : RendersStmt (.program stmts) (.program stmts) []
  | programStmt {stmts : List ASTNode} {a e : ASTNode} {ts ts' : List Token}
      (stmt : RendersStmt .stmt a ts) (rest : RendersStmt (.program (stmts ++ [a])) e ts') :
      RendersStmt (.program stmts) e (ts ++ ts')

/-- The `switch` is at the start of a statement, and a type is one. -/
def Event.Fine : Event → Prop
  | .dispatch t => startsStatement t.type = true
  | .arrowType t => isTypeToken t = true

/-! ## §2. What is written is read. -/

/-- What may come behind a statement. -/
def FollowsStmt (rest : TokenSource) : Prop :=
  startsStatement (front rest).type = true ∨ (front rest).type = .R_CURL_BRKT ∨
    (front rest).type = .END_OF_FILE

/-- No statement goes on with what may come behind it. -/
theorem FollowsStmt.follows {rest : TokenSource} (h : FollowsStmt rest) :
    Follows 5 rest ∧ (front rest).type ≠ .ELSE := by
  have hcases : ∀ {t : TokenType}, startsStatement t = true ∨ t = .R_CURL_BRKT ∨ t = .END_OF_FILE →
      t ≠ .COLON ∧ t ≠ .EQ ∧ t ≠ .ELSE ∧ ∀ q ≤ 5, opsAt q t = false := by
    intro t
    cases t <;> decide
  obtain ⟨hcolon, heq, helse, hops⟩ := hcases h
  exact ⟨⟨hcolon, heq, hops⟩, helse⟩

/-- A statement starts like one, and a block or program goes on with what may
come behind a statement. -/
theorem RendersStmt.start {g : StmtGoal} {e : ASTNode} {ts : List Token}
    (h : RendersStmt g e ts) :
    match g with
    | .stmt => ts ≠ [] ∧ ∀ rest, startsStatement (front (ts ++ rest)).type = true
    | .block _ => ∀ rest, FollowsStmt (ts ++ rest)
    | .program _ => FollowsStmt ts := by
  -- the four tokens that start a statement
  have hstart : ∀ {t : TokenType}, t = .VAR ∨ t = .L_CURL_BRKT ∨ t = .IF ∨ t = .IDENT →
      startsStatement t = true := by
    rintro t (rfl | rfl | rfl | rfl) <;> rfl
  induction h with
  | varDecl hv | varDeclTyped hv => exact ⟨List.cons_ne_nil _ _, fun _ => hstart (Or.inl hv)⟩
  | @primary o e ts ident inner =>
      obtain ⟨t, ts', rfl⟩ := List.exists_cons_of_ne_nil inner.start.1
      exact ⟨List.cons_ne_nil _ _, fun _ => hstart (Or.inr (Or.inr (Or.inr ident)))⟩
  | block left => exact ⟨List.cons_ne_nil _ _, fun _ => hstart (Or.inr (Or.inl left))⟩
  | ifThen hi | ifElse hi =>
      exact ⟨List.cons_ne_nil _ _, fun _ => hstart (Or.inr (Or.inr (Or.inl hi)))⟩
  | blockEnd right => exact fun _ => Or.inr (Or.inl right)
  | blockStmt _ _ ih =>
      intro rest
      rw [List.append_assoc]
      exact Or.inl (ih.2 _)
  | programEnd => exact Or.inr (Or.inr rfl)
  | programStmt _ _ ih => exact Or.inl (ih.2 _)

/-- The parser reads `ts` to its end without dropping anything. -/
def StmtGoal.ReadClean (e : ASTNode) (ts : List Token) : StmtGoal → Prop
  | .stmt => ∀ rest, FollowsStmt rest →
      ∃ events, ReadsStmt .stmt (ts ++ rest) e rest events ∧ ∀ ev ∈ events, ev.Fine
  | .block stmts => ∀ rest,
      ∃ events, ReadsStmt (.block stmts) (ts ++ rest) e rest events ∧ ∀ ev ∈ events, ev.Fine
  | .program stmts =>
      ∃ events, ReadsStmt (.program stmts) ts e [] events ∧ ∀ ev ∈ events, ev.Fine

/-- **What is written is read, without dropping anything.** -/
theorem reads_of_rendersStmt {g : StmtGoal} {e : ASTNode} {ts : List Token}
    (h : RendersStmt g e ts) : g.ReadClean e ts := by
  induction h with
  | @varDecl v x eq o e ts hv hx heq value =>
      intro rest hrest
      have hfollow := hrest.follows.1.reached (Nat.le_refl 5) o
      exact ⟨[], .varDecl hv hx heq ((reads_of_renders value).1 rest hfollow), by simp⟩
  | @varDeclTyped v x arrow type eq o e ts hv hx harrow htype heq value =>
      intro rest hrest
      have hfollow := hrest.follows.1.reached (Nat.le_refl 5) o
      refine ⟨_, .varDeclTyped hv hx harrow heq ((reads_of_renders value).1 rest hfollow), ?_⟩
      exact List.forall_mem_singleton.2 htype
  | @primary o e ts ident inner =>
      intro rest hrest
      have hfollow := hrest.follows.1.reached (Nat.zero_le 5) o
      obtain ⟨t, ts', rfl⟩ := List.exists_cons_of_ne_nil inner.start.1
      exact ⟨[], .primary ident ((reads_of_renders inner).1 rest hfollow), by simp⟩
  | block left _ ih =>
      intro rest _
      obtain ⟨events, hread, hfine⟩ := ih rest
      exact ⟨events, .block left hread, hfine⟩
  | @ifThen i p r l o e b ts ts' hi hp condition hr hl _ ih =>
      intro rest hrest
      obtain ⟨events, hread, hfine⟩ := ih rest
      have hcondition := (reads_of_renders condition).1 (r :: l :: (ts' ++ rest))
        (follows_of_type (Or.inr (Or.inr hr)) _)
      refine ⟨events, ?_, hfine⟩
      show ReadsStmt .stmt (i :: p :: ((ts ++ r :: l :: ts') ++ rest)) _ rest events
      rw [List.append_assoc]
      -- no `else` follows, or the rest would not be a statement's
      exact .ifThen hi hp hcondition hr hl hread hrest.follows.2
  | @ifElse i p r l els l' o e b c ts ts' ts'' hi hp condition hr hl _ hels hl' _ ih₁ ih₂ =>
      intro rest _
      obtain ⟨events', hread', hfine'⟩ := ih₂ rest
      obtain ⟨events, hread, hfine⟩ := ih₁ (els :: l' :: (ts'' ++ rest))
      have hcondition := (reads_of_renders condition).1
        (r :: l :: (ts' ++ els :: l' :: (ts'' ++ rest))) (follows_of_type (Or.inr (Or.inr hr)) _)
      refine ⟨events ++ events', ?_, ?_⟩
      · have happend : (i :: p :: (ts ++ r :: l :: (ts' ++ els :: l' :: ts''))) ++ rest
            = i :: p :: (ts ++ r :: l :: (ts' ++ els :: l' :: (ts'' ++ rest))) := by simp
        rw [happend]
        exact .ifElse hi hp hcondition hr hl hread hels hl' hread'
      · exact List.forall_mem_append.2 ⟨hfine, hfine'⟩
  | blockEnd right =>
      intro rest
      exact ⟨[], .blockEnd right, by simp⟩
  | @blockStmt stmts a e ts ts' stmt rest ih₁ ih₂ =>
      intro tail
      obtain ⟨events', hread', hfine'⟩ := ih₂ tail
      obtain ⟨events, hread, hfine⟩ := ih₁ (ts' ++ tail) (rest.start tail)
      -- the first token makes it a statement, and not one that is dropped
      have hstart := stmt.start.2 (ts' ++ tail)
      obtain ⟨t, ts₁, rfl⟩ := List.exists_cons_of_ne_nil stmt.start.1
      rw [List.append_assoc]
      refine ⟨_, .blockStmt hstart hread hread', ?_⟩
      exact List.forall_mem_cons.2 ⟨hstart, List.forall_mem_append.2 ⟨hfine, hfine'⟩⟩
  | programEnd => exact ⟨[], .programEnd, by simp⟩
  | @programStmt stmts a e ts ts' stmt rest ih₁ ih₂ =>
      obtain ⟨events', hread', hfine'⟩ := ih₂
      obtain ⟨events, hread, hfine⟩ := ih₁ ts' rest.start
      have hstart := stmt.start.2 ts'
      obtain ⟨t, ts₁, rfl⟩ := List.exists_cons_of_ne_nil stmt.start.1
      refine ⟨_, .programStmt hstart hread hread', ?_⟩
      exact List.forall_mem_cons.2 ⟨hstart, List.forall_mem_append.2 ⟨hfine, hfine'⟩⟩

/-- **What is written is parsed back.** -/
theorem parseProgram_of_renders {tokens : List Token} {e : ASTNode}
    (h : RendersStmt (.program []) e tokens) : parseProgram tokens = .ok e := by
  obtain ⟨events, hread, -⟩ := reads_of_rendersStmt h
  exact parseProgram_eq_ok_iff.2 ⟨events, hread⟩

/-! ## §3. What is read is written. -/

/-- **What is read without dropping anything is written so.** -/
theorem rendersStmt_of_reads {g : StmtGoal} {s s' : TokenSource} {e : ASTNode}
    {events : List Event} (h : ReadsStmt g s e s' events) (hnumeric : Numeric s)
    (hfine : ∀ ev ∈ events, ev.Fine) : ∃ ts, s = ts ++ s' ∧ RendersStmt g e ts := by
  induction h with
  | @varDecl v x eq s s' e hv hx heq value =>
      obtain ⟨ts, o, rfl, hvalue, -⟩ := renders_of_reads value hnumeric.tail.tail.tail
      exact ⟨v :: x :: eq :: ts, rfl, .varDecl hv hx heq hvalue⟩
  | @varDeclTyped v x arrow type eq s s' e hv hx harrow heq value =>
      obtain ⟨ts, o, rfl, hvalue, -⟩ := renders_of_reads value hnumeric.tail.tail.tail.tail.tail
      -- the type was read without a look: that it is one is the event's claim
      have htype := hfine _ (List.mem_singleton_self _)
      exact ⟨v :: x :: arrow :: type :: eq :: ts, rfl, .varDeclTyped hv hx harrow htype heq hvalue⟩
  | @primary s s' e ident inner =>
      obtain ⟨ts, o, rfl, hinner, -⟩ := renders_of_reads inner hnumeric
      obtain ⟨t, ts', rfl⟩ := List.exists_cons_of_ne_nil hinner.start.1
      exact ⟨t :: ts', rfl, .primary ident hinner⟩
  | @block l s s' e events left _ ih =>
      obtain ⟨ts, rfl, hinner⟩ := ih hnumeric.tail hfine
      exact ⟨l :: ts, rfl, .block left hinner⟩
  | @ifThen i p r l s s₁ s' e b events hi hp condition hr hl _ _ ih =>
      obtain ⟨ts, o, rfl, hcondition, -⟩ := renders_of_reads condition hnumeric.tail.tail
      obtain ⟨ts', rfl, hblock⟩ := ih hnumeric.tail.tail.right.tail.tail hfine
      exact ⟨i :: p :: (ts ++ r :: l :: ts'), by simp, .ifThen hi hp hcondition hr hl hblock⟩
  | @ifElse i p r l els l' s s₁ s₂ s' e b c events events' hi hp condition hr hl _ hels hl' _
      ih₁ ih₂ =>
      obtain ⟨ts, o, rfl, hcondition, -⟩ := renders_of_reads condition hnumeric.tail.tail
      obtain ⟨ts', rfl, hblock⟩ := ih₁ hnumeric.tail.tail.right.tail.tail
        (fun ev hev => hfine ev (List.mem_append_left _ hev))
      obtain ⟨ts'', rfl, hblock'⟩ := ih₂ hnumeric.tail.tail.right.tail.tail.right.tail.tail
        (fun ev hev => hfine ev (List.mem_append_right _ hev))
      exact ⟨i :: p :: (ts ++ r :: l :: (ts' ++ els :: l' :: ts'')), by simp,
        .ifElse hi hp hcondition hr hl hblock hels hl' hblock'⟩
  | @blockEnd stmts r s right => exact ⟨[r], rfl, .blockEnd right⟩
  | @blockStmt stmts t s s₁ s' a e events events' starts _ _ ih₁ ih₂ =>
      -- the events of the statement and of those behind it
      rw [List.forall_mem_cons, List.forall_mem_append] at hfine
      obtain ⟨ts, hts, hstmt⟩ := ih₁ hnumeric hfine.2.1
      rw [hts] at hnumeric ⊢
      obtain ⟨ts', rfl, hrest⟩ := ih₂ hnumeric.right hfine.2.2
      exact ⟨ts ++ ts', by rw [List.append_assoc], .blockStmt hstmt hrest⟩
  | @programStmt stmts t s s₁ s' a e events events' starts _ _ ih₁ ih₂ =>
      rw [List.forall_mem_cons, List.forall_mem_append] at hfine
      obtain ⟨ts, hts, hstmt⟩ := ih₁ hnumeric hfine.2.1
      rw [hts] at hnumeric ⊢
      obtain ⟨ts', rfl, hrest⟩ := ih₂ hnumeric.right hfine.2.2
      exact ⟨ts ++ ts', by rw [List.append_assoc], .programStmt hstmt hrest⟩
  | programEnd => exact ⟨[], rfl, .programEnd⟩
  | blockSkip drops | programSkip drops =>
      -- a dropped token starts no statement
      have hdispatch : startsStatement _ = true := hfine _ List.mem_cons_self
      exact absurd (drops.symm.trans hdispatch) (by decide)

end SproutLang.Compiler
