/-
  SproutLang.Compiler.Statements
  ──────────────────────────────
  **WHAT THE STATEMENT PARSER READS.**

  `ReadsStmt g s e s' events` is the statement level of `Reads`.  `events` is
  the trace of the two places that look at a token without asking what it is:
  the `switch` of blocks and programs, whose default branch drops the token,
  and the annotation behind the name of a variable.

    • `parseProgram_eq_ok_iff` — `parseProgram` returns what is read.
-/
import SproutLang.Compiler.Reading

namespace SproutLang.Compiler

open Library

/-! ## §1. Rules. -/

/-- A token the parser looks at. -/
inductive Event where
  /-- The `switch` of `parseBlock` or `parseProgram` is at `t`. -/
  | dispatch (t : Token)
  /-- `t` stands for the type of a variable. -/
  | arrowType (t : Token)
  deriving DecidableEq

/-- The cases of the `switch`. -/
def startsStatement (t : TokenType) : Bool :=
  t = .VAR || t = .L_CURL_BRKT || t = .IF || t = .IDENT

/-- A statement, or the rest of a block or of the program with the statements
so far. -/
inductive StmtGoal where
  | stmt
  | block (stmts : List ASTNode)
  | program (stmts : List ASTNode)

/-- **One rule for each way through the statement parser.** -/
inductive ReadsStmt : StmtGoal → TokenSource → ASTNode → TokenSource → List Event → Prop
  | varDecl {v x eq : Token} {s s' : TokenSource} {e : ASTNode} (hv : v.type = .VAR)
      (hx : x.type = .IDENT) (heq : eq.type = .EQ) (value : Reads (.level 5) s e s') :
      ReadsStmt .stmt (v :: x :: eq :: s) (.varDecl x.content e) s' []
  | varDeclTyped {v x arrow type eq : Token} {s s' : TokenSource} {e : ASTNode}
      (hv : v.type = .VAR) (hx : x.type = .IDENT) (harrow : arrow.type = .ARR_RIGHT)
      (heq : eq.type = .EQ) (value : Reads (.level 5) s e s') :
      ReadsStmt .stmt (v :: x :: arrow :: type :: eq :: s) (.varDecl x.content e) s'
        [.arrowType type]
  | primary {s s' : TokenSource} {e : ASTNode} (ident : (front s).type = .IDENT)
      (inner : Reads (.level 0) s e s') : ReadsStmt .stmt s e s' []
  | block {l : Token} {s s' : TokenSource} {e : ASTNode} {events : List Event}
      (left : l.type = .L_CURL_BRKT) (inner : ReadsStmt (.block []) s e s' events) :
      ReadsStmt .stmt (l :: s) e s' events
  | ifThen {i p r l : Token} {s s₁ s' : TokenSource} {e b : ASTNode} {events : List Event}
      (hi : i.type = .IF) (hp : p.type = .L_PAREN) (condition : Reads (.level 5) s e (r :: l :: s₁))
      (hr : r.type = .R_PAREN) (hl : l.type = .L_CURL_BRKT)
      (ifBlock : ReadsStmt (.block []) s₁ b s' events) (noElse : (front s').type ≠ .ELSE) :
      ReadsStmt .stmt (i :: p :: s) (.ifStmt e b none) s' events
  | ifElse {i p r l els l' : Token} {s s₁ s₂ s' : TokenSource} {e b c : ASTNode}
      {events events' : List Event}
      (hi : i.type = .IF) (hp : p.type = .L_PAREN) (condition : Reads (.level 5) s e (r :: l :: s₁))
      (hr : r.type = .R_PAREN) (hl : l.type = .L_CURL_BRKT)
      (ifBlock : ReadsStmt (.block []) s₁ b (els :: l' :: s₂) events) (hels : els.type = .ELSE)
      (hl' : l'.type = .L_CURL_BRKT) (elseBlock : ReadsStmt (.block []) s₂ c s' events') :
      ReadsStmt .stmt (i :: p :: s) (.ifStmt e b (some c)) s' (events ++ events')
  | blockEnd {stmts : List ASTNode} {r : Token} {s : TokenSource} (right : r.type = .R_CURL_BRKT) :
      ReadsStmt (.block stmts) (r :: s) (.block stmts) s []
  | blockStmt {stmts : List ASTNode} {t : Token} {s s₁ s' : TokenSource} {a e : ASTNode}
      {events events' : List Event} (starts : startsStatement t.type = true)
      (stmt : ReadsStmt .stmt (t :: s) a s₁ events)
      (rest : ReadsStmt (.block (stmts ++ [a])) s₁ e s' events') :
      ReadsStmt (.block stmts) (t :: s) e s' (.dispatch t :: (events ++ events'))
  | blockSkip {stmts : List ASTNode} {t : Token} {s s' : TokenSource} {e : ASTNode}
      {events : List Event} (drops : startsStatement t.type = false)
      (noEnd : t.type ≠ .R_CURL_BRKT) (noFile : t.type ≠ .END_OF_FILE)
      (rest : ReadsStmt (.block stmts) s e s' events) :
      ReadsStmt (.block stmts) (t :: s) e s' (.dispatch t :: events)
  | programEnd {stmts : List ASTNode} : ReadsStmt (.program stmts) [] (.program stmts) [] []
  | programStmt {stmts : List ASTNode} {t : Token} {s s₁ s' : TokenSource} {a e : ASTNode}
      {events events' : List Event} (starts : startsStatement t.type = true)
      (stmt : ReadsStmt .stmt (t :: s) a s₁ events)
      (rest : ReadsStmt (.program (stmts ++ [a])) s₁ e s' events') :
      ReadsStmt (.program stmts) (t :: s) e s' (.dispatch t :: (events ++ events'))
  | programSkip {stmts : List ASTNode} {t : Token} {s s' : TokenSource} {e : ASTNode}
      {events : List Event} (drops : startsStatement t.type = false)
      (rest : ReadsStmt (.program stmts) s e s' events) :
      ReadsStmt (.program stmts) (t :: s) e s' (.dispatch t :: events)

/-! ## §2. What is read, the functions return. -/

/-- The function of a goal returns the tree `e`. -/
def StmtGoal.Returns (inner fuel : Nat) (s : TokenSource) (e : ASTNode) (s' : TokenSource) :
    StmtGoal → Prop
  | .stmt => parseStatement (parseBlock inner) inner s = .ok (some e) s'
  | .block stmts => finishBlock (parseBlock inner) inner fuel stmts s = .ok e s'
  | .program stmts => programLoop inner fuel stmts s = .ok e s'

/-- Tokens a goal takes at least. -/
def StmtGoal.takes : StmtGoal → Nat
  | .program _ => 0
  | _ => 1

/-- **Every rule takes tokens.** -/
theorem ReadsStmt.length {g : StmtGoal} {s s' : TokenSource} {e : ASTNode} {events : List Event}
    (h : ReadsStmt g s e s' events) : s'.length + g.takes ≤ s.length := by
  -- on the derivation: what the parts take, and the tokens around them
  induction h with
  | varDecl _ _ _ value | varDeclTyped _ _ _ _ value =>
      have hlen := value.length
      simp only [Goal.takes, StmtGoal.takes, List.length_cons] at hlen ⊢
      omega
  | primary _ inner => exact inner.length
  | block _ _ ih | blockSkip _ _ _ _ ih | programSkip _ _ ih =>
      simp only [StmtGoal.takes, List.length_cons] at ih ⊢
      omega
  | ifThen _ _ condition _ _ _ _ ih =>
      have hlen := condition.length
      simp only [Goal.takes, StmtGoal.takes, List.length_cons] at hlen ih ⊢
      omega
  | ifElse _ _ condition _ _ _ _ _ _ ih₁ ih₂ =>
      have hlen := condition.length
      simp only [Goal.takes, StmtGoal.takes, List.length_cons] at hlen ih₁ ih₂ ⊢
      omega
  | blockEnd => exact Nat.le_refl _
  | programEnd => exact Nat.le_refl _
  | blockStmt _ _ _ ih₁ ih₂ | programStmt _ _ _ ih₁ ih₂ =>
      simp only [StmtGoal.takes, List.length_cons] at ih₁ ih₂ ⊢
      omega

section Switch

variable {block : Parse ASTNode} {fuel : Nat} {s s' : TokenSource} {e : ASTNode}

/-- The function a branch of the `switch` calls; the default branch has none. -/
def branchParser (block : Parse ASTNode) (fuel : Nat) : TokenType → Option (Parse ASTNode)
  | .VAR => some (parseVarDecl fuel)
  | .L_CURL_BRKT => some block
  | .IF => some (parseIfStmt block fuel)
  | .IDENT => some (parsePrimary (parseExpression fuel) fuel)
  | _ => none

/-- `parseStatement` chooses by the type in front, and skips a token where it
has no choice. -/
theorem parseStatement_eq (block : Parse ASTNode) (fuel : Nat) (s : TokenSource) :
    parseStatement block fuel s =
      match branchParser block fuel (front s).type with
      | some parser => (parser >>= fun stmt => pure (some stmt)) s
      | none => .ok none s.tail := by
  unfold parseStatement
  rw [peek_bind]
  cases (front s).type <;> rfl

theorem branchParser_isSome (block : Parse ASTNode) (fuel : Nat) (t : TokenType) :
    (branchParser block fuel t).isSome = startsStatement t := by
  cases t <;> rfl

/-- A branch returns what its function returns. -/
theorem parseStatement_branch {parser : Parse ASTNode}
    (hbranch : branchParser block fuel (front s).type = some parser) (h : parser s = .ok e s') :
    parseStatement block fuel s = .ok (some e) s' := by
  rw [parseStatement_eq, hbranch]
  exact bind_ok h

/-- The default branch. -/
theorem parseStatement_skip (ht : startsStatement (front s).type = false) :
    parseStatement block fuel s = .ok none s.tail := by
  have hbranch : branchParser block fuel (front s).type = none := by
    rw [← Option.isNone_iff_eq_none, ← Option.not_isSome, branchParser_isSome, ht]
    rfl
  rw [parseStatement_eq, hbranch]

end Switch

section Rules

variable {block : Parse ASTNode} {inner fuel : Nat} {t u r l : Token} {s s₁ s₂ s' : TokenSource}
  {e b c : ASTNode} {stmts : List ASTNode} {stmt : Option ASTNode}

/-- Without an arrow nothing is skipped. -/
theorem skipType_none (heq : t.type = .EQ) : skipType (t :: s) = .ok () (t :: s) := by
  unfold skipType
  rw [peek_bind, front_cons, if_neg (by rw [heq]; decide)]
  rfl

/-- With one, the token behind it is. -/
theorem skipType_arrow (harrow : t.type = .ARR_RIGHT) :
    skipType (t :: u :: s) = .ok () s := by
  unfold skipType
  rw [peek_bind, front_cons, if_pos harrow]
  rfl

/-- A declaration. -/
theorem parseVarDecl_ok (hv : t.type = .VAR) (hx : u.type = .IDENT)
    (hskip : skipType s = .ok () (r :: s₁)) (heq : r.type = .EQ)
    (value : parseExpression fuel s₁ = .ok e s') :
    parseVarDecl fuel (t :: u :: s) = .ok (.varDecl u.content e) s' := by
  unfold parseVarDecl
  rw [expect_bind hv, peek_bind, expect_bind hx, bind_ok hskip, expect_bind heq, bind_ok value]
  rfl

/-- An `if` without `else`. -/
theorem parseIfStmt_then (hi : t.type = .IF) (hp : u.type = .L_PAREN)
    (condition : parseExpression fuel s = .ok e (r :: s₁)) (hr : r.type = .R_PAREN)
    (ifBlock : block s₁ = .ok b s') (noElse : (front s').type ≠ .ELSE) :
    parseIfStmt block fuel (t :: u :: s) = .ok (.ifStmt e b none) s' := by
  unfold parseIfStmt
  rw [expect_bind hi, expect_bind hp, bind_ok condition, expect_bind hr, bind_ok ifBlock, peek_bind,
    if_neg noElse]
  rfl

/-- An `if` with `else`. -/
theorem parseIfStmt_else (hi : t.type = .IF) (hp : u.type = .L_PAREN)
    (condition : parseExpression fuel s = .ok e (r :: s₁)) (hr : r.type = .R_PAREN)
    (ifBlock : block s₁ = .ok b (l :: s₂)) (hl : l.type = .ELSE) (elseBlock : block s₂ = .ok c s') :
    parseIfStmt block fuel (t :: u :: s) = .ok (.ifStmt e b (some c)) s' := by
  unfold parseIfStmt
  rw [expect_bind hi, expect_bind hp, bind_ok condition, expect_bind hr, bind_ok ifBlock, peek_bind,
    front_cons, if_pos hl, expect_bind hl, bind_ok elseBlock]
  rfl

/-- A block of which the rest is read behind its bracket. -/
theorem parseBlock_succ (hl : l.type = .L_CURL_BRKT)
    (h : finishBlock (parseBlock fuel) fuel fuel [] s = .ok e s') :
    parseBlock (fuel + 1) (l :: s) = .ok e s' := by
  unfold parseBlock
  rw [expect_bind hl]
  exact h

/-- A bracket ends the block. -/
theorem finishBlock_end (right : r.type = .R_CURL_BRKT) :
    finishBlock block inner (fuel + 1) stmts (r :: s) = .ok (.block stmts) s := by
  have hloop : blockLoop block inner (fuel + 1) stmts (r :: s) = .ok stmts (r :: s) := by
    unfold blockLoop
    rw [peek_bind, front_cons, if_pos right]
    rfl
  unfold finishBlock
  rw [bind_ok hloop, expect_bind right]
  rfl

/-- One round of the loop over a block. -/
theorem finishBlock_next (noEnd : t.type ≠ .R_CURL_BRKT) (noFile : t.type ≠ .END_OF_FILE)
    (hstmt : parseStatement block inner (t :: s) = .ok stmt s₁)
    (hrest : finishBlock block inner fuel (stmts ++ stmt.toList) s₁ = .ok e s') :
    finishBlock block inner (fuel + 1) stmts (t :: s) = .ok e s' := by
  obtain ⟨stmts', s₂, hloop, hfinish⟩ := bind_eq_ok.1 hrest
  have hloop' : blockLoop block inner (fuel + 1) stmts (t :: s) = .ok stmts' s₂ := by
    unfold blockLoop
    rw [peek_bind, front_cons, if_neg noEnd, if_neg noFile, bind_ok hstmt]
    exact hloop
  unfold finishBlock
  rw [bind_ok hloop']
  exact hfinish

/-- One round of the loop over a program. -/
theorem programLoop_next (hstmt : parseStatement (parseBlock inner) inner (t :: s) = .ok stmt s₁)
    (hrest : programLoop inner fuel (stmts ++ stmt.toList) s₁ = .ok e s') :
    programLoop inner (fuel + 1) stmts (t :: s) = .ok e s' := by
  unfold programLoop
  rw [get_bind]
  show (parseStatement (parseBlock inner) inner >>= _) (t :: s) = _
  rw [bind_ok hstmt]
  exact hrest

end Rules

/-- **With more fuel than tokens a goal returns what is read.** -/
theorem returns_of_reads {g : StmtGoal} {s s' : TokenSource} {e : ASTNode} {events : List Event}
    (h : ReadsStmt g s e s' events) :
    ∀ {inner fuel : Nat}, s.length < inner → s.length < fuel → g.Returns inner fuel s e s' := by
  induction h with
  | @varDecl v x eq s s' e hv hx heq value =>
      intro inner fuel hinner _
      simp only [List.length_cons] at hinner
      have hvalue := parseExpression_of_reads value (show s.length + 1 < inner by omega)
      have hbranch : branchParser (parseBlock inner) inner v.type = some (parseVarDecl inner) := by
        rw [hv]; rfl
      exact parseStatement_branch hbranch (parseVarDecl_ok hv hx (skipType_none heq) heq hvalue)
  | @varDeclTyped v x arrow type eq s s' e hv hx harrow heq value =>
      intro inner fuel hinner _
      simp only [List.length_cons] at hinner
      have hvalue := parseExpression_of_reads value (show s.length + 1 < inner by omega)
      have hbranch : branchParser (parseBlock inner) inner v.type = some (parseVarDecl inner) := by
        rw [hv]; rfl
      exact parseStatement_branch hbranch (parseVarDecl_ok hv hx (skipType_arrow harrow) heq hvalue)
  | @primary s s' e ident value =>
      intro inner fuel hinner _
      -- the statement is chosen by its first token
      have hbranch : branchParser (parseBlock inner) inner (front s).type
          = some (parsePrimary (parseExpression inner) inner) := by
        rw [ident]; rfl
      exact parseStatement_branch hbranch (parsePrimary_of_reads value hinner)
  | @block l s s' e events left _ ih =>
      intro inner fuel hinner _
      simp only [List.length_cons] at hinner
      obtain ⟨inner, rfl⟩ : ∃ k, inner = k + 1 := ⟨inner - 1, by omega⟩
      -- a block inside has one level less
      have hblock : finishBlock (parseBlock inner) inner inner [] s = .ok e s' :=
        ih (by omega) (by omega)
      have hbranch : branchParser (parseBlock (inner + 1)) (inner + 1) l.type
          = some (parseBlock (inner + 1)) := by
        rw [left]; rfl
      exact parseStatement_branch hbranch (parseBlock_succ left hblock)
  | @ifThen i p r l s s₁ s' e b events hi hp condition hr hl _ noElse ih =>
      intro inner fuel hinner _
      have hlen := condition.length
      simp only [List.length_cons, Goal.takes] at hinner hlen
      have hcondition := parseExpression_of_reads condition (show s.length + 1 < inner by omega)
      obtain ⟨inner, rfl⟩ : ∃ k, inner = k + 1 := ⟨inner - 1, by omega⟩
      have hblock : finishBlock (parseBlock inner) inner inner [] s₁ = .ok b s' :=
        ih (by omega) (by omega)
      have hbranch : branchParser (parseBlock (inner + 1)) (inner + 1) i.type
          = some (parseIfStmt (parseBlock (inner + 1)) (inner + 1)) := by
        rw [hi]; rfl
      exact parseStatement_branch hbranch
        (parseIfStmt_then hi hp hcondition hr (parseBlock_succ hl hblock) noElse)
  | @ifElse i p r l els l' s s₁ s₂ s' e b c events events' hi hp condition hr hl ifBlock hels hl' _
      ih₁ ih₂ =>
      intro inner fuel hinner _
      have hlen := condition.length
      have hlen' := ifBlock.length
      simp only [List.length_cons, Goal.takes, StmtGoal.takes] at hinner hlen hlen'
      have hcondition := parseExpression_of_reads condition (show s.length + 1 < inner by omega)
      obtain ⟨inner, rfl⟩ : ∃ k, inner = k + 1 := ⟨inner - 1, by omega⟩
      have hblock : finishBlock (parseBlock inner) inner inner [] s₁ = .ok b (els :: l' :: s₂) :=
        ih₁ (by omega) (by omega)
      have hblock' : finishBlock (parseBlock inner) inner inner [] s₂ = .ok c s' :=
        ih₂ (by omega) (by omega)
      have hbranch : branchParser (parseBlock (inner + 1)) (inner + 1) i.type
          = some (parseIfStmt (parseBlock (inner + 1)) (inner + 1)) := by
        rw [hi]; rfl
      exact parseStatement_branch hbranch (parseIfStmt_else hi hp hcondition hr
        (parseBlock_succ hl hblock) hels (parseBlock_succ hl' hblock'))
  | @blockEnd stmts r s right =>
      intro inner fuel _ hfuel
      obtain ⟨fuel, rfl⟩ : ∃ k, fuel = k + 1 := ⟨fuel - 1, by omega⟩
      exact finishBlock_end right
  | @blockStmt stmts t s s₁ s' a e events events' starts stmt _ ih₁ ih₂ =>
      intro inner fuel hinner hfuel
      have hlen := stmt.length
      simp only [List.length_cons, StmtGoal.takes] at hinner hfuel hlen
      obtain ⟨fuel, rfl⟩ : ∃ k, fuel = k + 1 := ⟨fuel - 1, by omega⟩
      -- what starts a statement ends no block
      have hne : t.type ≠ .R_CURL_BRKT ∧ t.type ≠ .END_OF_FILE := by
        constructor
        · intro h
          rw [h] at starts
          exact absurd starts (by decide)
        · intro h
          rw [h] at starts
          exact absurd starts (by decide)
      have hstmt : parseStatement (parseBlock inner) inner (t :: s) = .ok (some a) s₁ :=
        @ih₁ inner (fuel + 1) (by simpa using hinner) (by simpa using hfuel)
      exact finishBlock_next hne.1 hne.2 hstmt (ih₂ (by omega) (by omega))
  | @blockSkip stmts t s s' e events drops noEnd noFile _ ih =>
      intro inner fuel hinner hfuel
      simp only [List.length_cons] at hinner hfuel
      obtain ⟨fuel, rfl⟩ : ∃ k, fuel = k + 1 := ⟨fuel - 1, by omega⟩
      refine finishBlock_next noEnd noFile (parseStatement_skip drops) ?_
      -- a dropped token adds no statement
      rw [Option.toList_none, List.append_nil]
      exact ih (by omega) (by omega)
  | @programEnd stmts =>
      intro inner fuel _ hfuel
      obtain ⟨fuel, rfl⟩ : ∃ k, fuel = k + 1 := ⟨fuel - 1, by omega⟩
      rfl
  | @programStmt stmts t s s₁ s' a e events events' starts stmt _ ih₁ ih₂ =>
      intro inner fuel hinner hfuel
      have hlen := stmt.length
      simp only [List.length_cons, StmtGoal.takes] at hinner hfuel hlen
      obtain ⟨fuel, rfl⟩ : ∃ k, fuel = k + 1 := ⟨fuel - 1, by omega⟩
      have hstmt : parseStatement (parseBlock inner) inner (t :: s) = .ok (some a) s₁ :=
        @ih₁ inner (fuel + 1) (by simpa using hinner) (by simpa using hfuel)
      exact programLoop_next hstmt (ih₂ (by omega) (by omega))
  | @programSkip stmts t s s' e events drops _ ih =>
      intro inner fuel hinner hfuel
      simp only [List.length_cons] at hinner hfuel
      obtain ⟨fuel, rfl⟩ : ∃ k, fuel = k + 1 := ⟨fuel - 1, by omega⟩
      refine programLoop_next (parseStatement_skip drops) ?_
      rw [Option.toList_none, List.append_nil]
      exact ih (by omega) (by omega)

/-! ## §3. What the functions return, they read. -/

/-- `block` returns only what the rules read behind a bracket. -/
def BlockSound (block : Parse ASTNode) : Prop :=
  ∀ {s e s'}, block s = .ok e s' → ∃ l s₁ events,
    s = l :: s₁ ∧ l.type = .L_CURL_BRKT ∧ ReadsStmt (.block []) s₁ e s' events

section Sound

variable {block : Parse ASTNode} {fuel : Nat} {s s' : TokenSource} {e : ASTNode}

/-- The annotation of a variable, with the `=` behind it. -/
theorem skipType_eq_ok {s₁ : TokenSource} {eq : Token} {u : Unit} (hskip : skipType s = .ok u s₁)
    (heq : expect .EQ s₁ = .ok eq s') :
    s = eq :: s' ∨ ∃ arrow type, arrow.type = .ARR_RIGHT ∧ s = arrow :: type :: eq :: s' := by
  obtain ⟨_, hs₁⟩ := expect_eq_ok heq
  unfold skipType at hskip
  rw [peek_bind] at hskip
  split at hskip
  · rename_i harrow
    rw [advance_bind, advance_bind] at hskip
    injection hskip with _ htail
    have hs := cons_of_front_eq harrow (by decide)
    -- behind the arrow there is a token, since `=` comes after it
    cases htl : s.tail with
    | nil =>
        rw [htl, hs₁] at htail
        exact absurd htail (by simp)
    | cons type rest =>
        rw [htl, hs₁] at htail
        rw [htl] at hs
        exact Or.inr ⟨front s, type, harrow, by rw [hs, ← htail]; rfl⟩
  · injection hskip with _ hs
    exact Or.inl (by rw [hs, hs₁])

/-- A declaration that is returned is read by the rules. -/
theorem parseVarDecl_sound (h : parseVarDecl fuel s = .ok e s') :
    ∃ events, ReadsStmt .stmt s e s' events := by
  unfold parseVarDecl at h
  obtain ⟨v, s₁, hv, h₁⟩ := bind_eq_ok.1 h
  obtain ⟨htype, rfl⟩ := expect_eq_ok hv
  rw [peek_bind] at h₁
  obtain ⟨x, s₂, hx, h₂⟩ := bind_eq_ok.1 h₁
  obtain ⟨hxtype, rfl⟩ := expect_eq_ok hx
  obtain ⟨_, s₃, hskip, h₃⟩ := bind_eq_ok.1 h₂
  obtain ⟨eq, s₄, heq, h₄⟩ := bind_eq_ok.1 h₃
  have hannotation := skipType_eq_ok hskip heq
  obtain ⟨heqtype, -⟩ := expect_eq_ok heq
  obtain ⟨value, s₅, hvalue, h₅⟩ := bind_eq_ok.1 h₄
  injection h₅ with he hs
  have hread := parseExpression_sound fuel hvalue
  rw [← he, ← hs, front_cons]
  rcases hannotation with rfl | ⟨arrow, type, harrow, rfl⟩
  · exact ⟨_, .varDecl htype hxtype heqtype hread⟩
  · exact ⟨_, .varDeclTyped htype hxtype harrow heqtype hread⟩

/-- So is an `if` statement. -/
theorem parseIfStmt_sound (hblock : BlockSound block) (h : parseIfStmt block fuel s = .ok e s') :
    ∃ events, ReadsStmt .stmt s e s' events := by
  unfold parseIfStmt at h
  obtain ⟨i, s₁, hi, h₁⟩ := bind_eq_ok.1 h
  obtain ⟨hitype, rfl⟩ := expect_eq_ok hi
  obtain ⟨p, s₂, hp, h₂⟩ := bind_eq_ok.1 h₁
  obtain ⟨hptype, rfl⟩ := expect_eq_ok hp
  obtain ⟨condition, s₃, hcondition, h₃⟩ := bind_eq_ok.1 h₂
  obtain ⟨r, s₄, hr, h₄⟩ := bind_eq_ok.1 h₃
  obtain ⟨hrtype, rfl⟩ := expect_eq_ok hr
  have hread := parseExpression_sound fuel hcondition
  obtain ⟨ifBlock, s₅, hif, h₅⟩ := bind_eq_ok.1 h₄
  obtain ⟨l, s₆, events, rfl, hl, hifBlock⟩ := hblock hif
  -- `else` or not
  rw [peek_bind] at h₅
  split at h₅
  · rename_i helse
    rw [cons_of_front_eq helse (by decide), expect_bind helse] at h₅
    obtain ⟨elseBlock, s₇, hblock₂, h₆⟩ := bind_eq_ok.1 h₅
    injection h₆ with he hs
    obtain ⟨l', s₈, events', htail, hl', helseBlock⟩ := hblock hblock₂
    rw [cons_of_front_eq helse (by decide), htail] at hifBlock
    rw [← he, ← hs]
    exact ⟨_, .ifElse hitype hptype hread hrtype hl hifBlock helse hl' helseBlock⟩
  · rename_i hnoelse
    injection h₅ with he hs
    rw [← he, ← hs]
    exact ⟨_, .ifThen hitype hptype hread hrtype hl hifBlock hnoelse⟩

/-- A branch reads a statement. -/
theorem branchParser_sound (hblock : BlockSound block) {parser : Parse ASTNode}
    (hbranch : branchParser block fuel (front s).type = some parser) (h : parser s = .ok e s') :
    ∃ events, ReadsStmt .stmt s e s' events := by
  -- the four branches of the switch
  cases htype : (front s).type with
  | VAR =>
      rw [htype] at hbranch
      obtain rfl : parseVarDecl fuel = parser := Option.some.inj hbranch
      exact parseVarDecl_sound h
  | L_CURL_BRKT =>
      rw [htype] at hbranch
      obtain rfl : block = parser := Option.some.inj hbranch
      obtain ⟨l, s₂, events, rfl, hl, hread⟩ := hblock h
      exact ⟨events, .block hl hread⟩
  | IF =>
      rw [htype] at hbranch
      obtain rfl : parseIfStmt block fuel = parser := Option.some.inj hbranch
      exact parseIfStmt_sound hblock h
  | IDENT =>
      rw [htype] at hbranch
      obtain rfl : parsePrimary (parseExpression fuel) fuel = parser := Option.some.inj hbranch
      exact ⟨[], .primary htype (parsePrimary_sound (parseExpression_sound fuel) h)⟩
  | _ =>
      rw [htype] at hbranch
      exact absurd hbranch (by simp [branchParser])

/-- The two outcomes of the `switch`. -/
theorem parseStatement_sound (hblock : BlockSound block) {result : Option ASTNode}
    (h : parseStatement block fuel s = .ok result s') :
    (result = none ∧ startsStatement (front s).type = false ∧ s' = s.tail) ∨
      ∃ a events, result = some a ∧ startsStatement (front s).type = true ∧
        ReadsStmt .stmt s a s' events := by
  have hstarts := branchParser_isSome block fuel (front s).type
  rw [parseStatement_eq] at h
  cases hbranch : branchParser block fuel (front s).type with
  | some parser =>
      rw [hbranch] at h hstarts
      obtain ⟨a, s₁, hstmt, hreturn⟩ := bind_eq_ok.1 h
      injection hreturn with hresult hs
      subst hresult hs
      obtain ⟨events, hread⟩ := branchParser_sound hblock hbranch hstmt
      exact Or.inr ⟨a, events, rfl, hstarts.symm, hread⟩
  | none =>
      rw [hbranch] at h hstarts
      injection h with hresult hs
      exact Or.inl ⟨hresult.symm, hstarts.symm, hs.symm⟩

/-- So is the rest of a block. -/
theorem finishBlock_sound (hblock : BlockSound block) {inner : Nat} (fuel : Nat) :
    ∀ {stmts s e s'}, finishBlock block inner fuel stmts s = .ok e s' →
      ∃ events, ReadsStmt (.block stmts) s e s' events := by
  -- on the fuel; `stmts` are the statements read so far
  induction fuel with
  | zero =>
      intro stmts s e s' h
      have hfuel : finishBlock block inner 0 stmts s = .error .outOfFuel s := rfl
      rw [hfuel] at h
      exact absurd h (by simp)
  | succ fuel ih =>
      intro stmts s e s' h
      unfold finishBlock at h
      obtain ⟨stmts', s₁, hloop, h⟩ := bind_eq_ok.1 h
      unfold blockLoop at hloop
      rw [peek_bind] at hloop
      split at hloop
      · rename_i hright
        injection hloop with hstmts hs
        subst hstmts hs
        rw [cons_of_front_eq hright (by decide), expect_bind hright] at h
        injection h with he hs
        rw [← he, ← hs, cons_of_front_eq hright (by decide)]
        exact ⟨_, .blockEnd hright⟩
      · rename_i hnoend
        split at hloop
        · exact absurd hloop (by simp [throw_apply])
        · rename_i hnofile
          have hs := cons_of_front hnofile
          obtain ⟨result, s₂, hstmt, hloop⟩ := bind_eq_ok.1 hloop
          -- the rest of the loop, with the statement added
          have hrest : finishBlock block inner fuel (stmts ++ result.toList) s₂ = .ok e s' := by
            unfold finishBlock
            rw [bind_ok hloop]
            exact h
          obtain ⟨events', hread⟩ := ih hrest
          rcases parseStatement_sound hblock hstmt with ⟨rfl, hdrops, rfl⟩ | ⟨a, events, rfl, hstarts, ha⟩
          · rw [Option.toList_none, List.append_nil] at hread
            rw [hs]
            exact ⟨_, .blockSkip hdrops hnoend hnofile hread⟩
          · rw [hs] at ha ⊢
            exact ⟨_, .blockStmt hstarts ha hread⟩

end Sound

/-- So is a block. -/
theorem parseBlock_sound (fuel : Nat) : BlockSound (parseBlock fuel) := by
  induction fuel with
  | zero =>
      intro s e s' h
      exact absurd h (by simp [parseBlock, throw_apply])
  | succ fuel ih =>
      intro s e s' h
      unfold parseBlock at h
      obtain ⟨l, s₁, hl, hfinish⟩ := bind_eq_ok.1 h
      obtain ⟨hltype, rfl⟩ := expect_eq_ok hl
      obtain ⟨events, hread⟩ := finishBlock_sound ih fuel hfinish
      exact ⟨l, s₁, events, rfl, hltype, hread⟩

/-- So is a program. -/
theorem programLoop_sound {inner : Nat} (fuel : Nat) :
    ∀ {stmts s e s'}, programLoop inner fuel stmts s = .ok e s' →
      ∃ events, ReadsStmt (.program stmts) s e s' events := by
  -- on the fuel, as for a block
  induction fuel with
  | zero =>
      intro stmts s e s' h
      exact absurd h (by simp [programLoop, throw_apply])
  | succ fuel ih =>
      intro stmts s e s' h
      unfold programLoop at h
      rw [get_bind] at h
      cases s with
      | nil =>
          injection h with he hs
          rw [← he, ← hs]
          exact ⟨_, .programEnd⟩
      | cons t s =>
          obtain ⟨result, s₂, hstmt, hrest⟩ := bind_eq_ok.1 h
          obtain ⟨events', hread⟩ := ih hrest
          rcases parseStatement_sound (parseBlock_sound inner) hstmt with
            ⟨rfl, hdrops, rfl⟩ | ⟨a, events, rfl, hstarts, ha⟩
          · rw [Option.toList_none, List.append_nil] at hread
            exact ⟨_, .programSkip hdrops hread⟩
          · exact ⟨_, .programStmt hstarts ha hread⟩

/-- A program takes all tokens and keeps the statements it has. -/
theorem ReadsStmt.program_rest {g : StmtGoal} {s s' : TokenSource} {e : ASTNode}
    {events : List Event} (h : ReadsStmt g s e s' events) :
    ∀ {stmts}, g = .program stmts → s' = [] ∧ ∃ more, e = .program (stmts ++ more) := by
  induction h with
  | programEnd =>
      rintro stmts ⟨⟩
      exact ⟨rfl, [], by rw [List.append_nil]⟩
  | @programStmt stmts₀ t s s₁ s' a e events events' starts stmt _ _ ih =>
      rintro stmts ⟨⟩
      obtain ⟨hs, more, he⟩ := ih rfl
      exact ⟨hs, a :: more, by rw [he, List.append_assoc, List.singleton_append]⟩
  | programSkip _ _ ih =>
      rintro stmts ⟨⟩
      exact ih rfl
  | _ => exact fun h => absurd h (by simp)

/-- **`parseProgram` returns what is read**, to the end of the tokens. -/
theorem parseProgram_eq_ok_iff {tokens : List Token} {e : ASTNode} :
    parseProgram tokens = .ok e ↔ ∃ events, ReadsStmt (.program []) tokens e [] events := by
  unfold parseProgram
  constructor
  · intro h
    split at h
    · rename_i program s' hloop
      injection h with he
      obtain ⟨events, hread⟩ := programLoop_sound _ hloop
      obtain ⟨rfl, -⟩ := hread.program_rest rfl
      exact ⟨events, by rw [← he]; exact hread⟩
    · exact absurd h (by simp)
  · intro ⟨events, hread⟩
    have hloop : programLoop (tokens.length + 2) (tokens.length + 2) [] tokens = .ok e [] :=
      returns_of_reads hread (by omega) (by omega)
    rw [hloop]

end SproutLang.Compiler
