/-
  SproutLang.Compiler.Composition
  ───────────────────────────────
  **PROGRAMS ONE BEHIND THE OTHER.**

  No statement has a terminator: where one ends is decided by the token
  behind it.  What is read from `s` is read from `s ++ q` too, if `q` starts
  like a statement or is empty.

    • `parseProgram_append` — the statements of `p ++ q` are those of `p` and
                              then those of `q`.
-/
import SproutLang.Compiler.Programs

namespace SproutLang.Compiler

/-! ## §1. More tokens behind. -/

section More

variable {s s' q : TokenSource} {e : ASTNode}

/-- A token in front of `s ++ q` is one in front of `s` or of `q`. -/
theorem front_append {P : TokenType → Prop} (hs : P (front s).type) (hq : P (front q).type) :
    P (front (s ++ q)).type := by
  cases s with
  | nil => exact hq
  | cons t s => exact hs

/-- What is appended to tokens is not in front. -/
theorem front_append_of_lt (h : 0 < s.length) : front (s ++ q) = front s := by
  cases s with
  | nil => exact absurd h (by simp)
  | cons t s => rfl

/-- There are operators at the levels up to 5 only. -/
theorem Follows.no_op (hq : Follows 5 q) (n : Nat) : opsAt n (front q).type = false := by
  by_cases hn : n ≤ 5
  · exact hq.stops n hn
  · obtain ⟨m, rfl⟩ : ∃ m, n = m + 6 := ⟨n - 6, by omega⟩
    rfl

/-- **What the expression parser reads does not change with tokens behind it
that do not go on with it.** -/
theorem Reads.append {g : Goal} (h : Reads g s e s') (hq : Follows 5 q) :
    Reads g (s ++ q) e (s' ++ q) := by
  induction h with
  | number type value => exact .number type value
  | call type hcolon _ ih => exact .call type hcolon ih
  | assign type heq _ ih => exact .assign type heq ih
  | ident type noCall noAssign =>
      -- behind the identifier stands what stood there, or the first token of `q`
      have hcall := front_append (P := fun u => u ≠ .COLON) noCall hq.noCall
      have hassign := front_append (P := fun u => u ≠ .EQ) noAssign hq.noAssign
      exact .ident type hcall hassign
  | paren left _ right ih => exact .paren left ih right
  | unary type _ ih => exact .unary type ih
  | @primary s s' e noSign inner ih =>
      -- the first token is one of `s` itself
      have hlen := inner.length
      simp only [Goal.takes] at hlen
      have hfront : front (s ++ q) = front s := front_append_of_lt (by omega)
      exact .primary (by rw [hfront]; exact noSign) ih
  | binary _ _ ih₁ ih₂ => exact .binary ih₁ ih₂
  | @loopEnd n left s stop =>
      exact .loopEnd (front_append (P := fun u => opsAt n u = false) stop (hq.no_op n))
  | loopStep op _ _ ih₁ ih₂ => exact .loopStep op ih₁ ih₂
  | argsEnd type => exact .argsEnd type
  | @argsComma x args a e comma s s₁ s' more arg hcomma _ ih₁ ih₂ =>
      have hlen := arg.length
      simp only [Goal.takes] at hlen
      have hfront : front (s ++ q) = front s := front_append_of_lt (by omega)
      exact .argsComma (by rw [hfront]; exact more) ih₁ hcomma ih₂
  | @argsLast x args a t s s₁ more arg type ih =>
      have hlen := arg.length
      simp only [Goal.takes] at hlen
      have hfront : front (s ++ q) = front s := front_append_of_lt (by omega)
      exact .argsLast (by rw [hfront]; exact more) ih type

/-- **Nor does what the statement parser reads**, up to the end of a
statement or of a block. -/
theorem ReadsStmt.append {g : StmtGoal} {events : List Event} (h : ReadsStmt g s e s' events)
    (hq : FollowsStmt q) (hg : ∀ stmts, g ≠ .program stmts) :
    ReadsStmt g (s ++ q) e (s' ++ q) events := by
  obtain ⟨hfollow, helse⟩ := hq.follows
  induction h with
  | varDecl hv hx heq value => exact .varDecl hv hx heq (value.append hfollow)
  | varDeclTyped hv hx harrow heq value =>
      exact .varDeclTyped hv hx harrow heq (value.append hfollow)
  | @primary s s' e ident inner =>
      have hlen := inner.length
      simp only [Goal.takes] at hlen
      have hfront : front (s ++ q) = front s := front_append_of_lt (by omega)
      exact .primary (by rw [hfront]; exact ident) (inner.append hfollow)
  | block left _ ih => exact .block left (ih (by simp))
  | ifThen hi hp condition hr hl _ noElse ih =>
      -- no `else` comes with `q`
      have hno := front_append (P := fun u => u ≠ .ELSE) noElse helse
      exact .ifThen hi hp (condition.append hfollow) hr hl (ih (by simp)) hno
  | ifElse hi hp condition hr hl _ hels hl' _ ih₁ ih₂ =>
      exact .ifElse hi hp (condition.append hfollow) hr hl (ih₁ (by simp)) hels hl' (ih₂ (by simp))
  | blockEnd right => exact .blockEnd right
  | blockStmt starts _ _ ih₁ ih₂ => exact .blockStmt starts (ih₁ (by simp)) (ih₂ (by simp))
  | blockSkip drops noEnd noFile _ ih => exact .blockSkip drops noEnd noFile (ih (by simp))
  | programEnd | programStmt | programSkip => exact absurd rfl (hg _)

end More

/-! ## §2. One result. -/

/-- **A statement, a block and a program are read in one way.** -/
theorem ReadsStmt.unique {g : StmtGoal} {s s' s₁ : TokenSource} {e e₁ : ASTNode}
    {events events₁ : List Event} (h : ReadsStmt g s e s' events)
    (h₁ : ReadsStmt g s e₁ s₁ events₁) : e = e₁ ∧ s' = s₁ := by
  have hret : g.Returns (s.length + 1) (s.length + 1) s e s' :=
    returns_of_reads h (Nat.lt_succ_self _) (Nat.lt_succ_self _)
  have hret₁ : g.Returns (s.length + 1) (s.length + 1) s e₁ s₁ :=
    returns_of_reads h₁ (Nat.lt_succ_self _) (Nat.lt_succ_self _)
  cases g with
  | stmt =>
      have heq := hret.symm.trans hret₁
      injection heq with he hs
      exact ⟨Option.some.inj he, hs⟩
  | block stmts | program stmts =>
      have heq := hret.symm.trans hret₁
      injection heq with he hs
      exact ⟨he, hs⟩

/-- The statements a program starts with are in front of those it reads. -/
theorem ReadsStmt.program_shift {g : StmtGoal} {s s' : TokenSource} {e : ASTNode}
    {events : List Event} (h : ReadsStmt g s e s' events) :
    ∀ {stmts}, g = .program stmts → ∃ more, e = .program (stmts ++ more) ∧
      ∀ before, ReadsStmt (.program before) s (.program (before ++ more)) s' events := by
  induction h with
  | programEnd =>
      rintro stmts ⟨⟩
      refine ⟨[], by rw [List.append_nil], fun before => ?_⟩
      rw [List.append_nil]
      exact .programEnd
  | @programStmt stmts₀ t s s₁ s' a e events events' starts stmt _ _ ih =>
      rintro stmts ⟨⟩
      obtain ⟨more, he, hshift⟩ := ih rfl
      refine ⟨a :: more, by rw [he, List.append_assoc, List.singleton_append], fun before => ?_⟩
      -- one statement more in front of the others
      have hrest := hshift (before ++ [a])
      rw [List.append_assoc, List.singleton_append] at hrest
      exact .programStmt starts stmt hrest
  | programSkip drops _ ih =>
      rintro stmts ⟨⟩
      obtain ⟨more, he, hshift⟩ := ih rfl
      exact ⟨more, he, fun before => .programSkip drops (hshift before)⟩
  | _ => exact fun h => absurd h (by simp)

/-! ## §3. Two programs. -/

/-- **Behind `p` the program goes on with `q`**, with the statements of `p` in
front. -/
theorem ReadsStmt.program_append {g : StmtGoal} {p s' q : TokenSource} {e : ASTNode}
    {events : List Event} (h : ReadsStmt g p e s' events) (hq : FollowsStmt q) :
    ∀ {stmts}, g = .program stmts → ∃ more, e = .program (stmts ++ more) ∧ ∀ r,
      (∃ events', ReadsStmt (.program stmts) (p ++ q) r [] events') ↔
        ∃ events', ReadsStmt (.program (stmts ++ more)) q r [] events' := by
  induction h with
  | programEnd =>
      rintro stmts ⟨⟩
      refine ⟨[], by rw [List.append_nil], fun r => ?_⟩
      rw [List.append_nil, List.nil_append]
  | @programStmt stmts₀ t s s₁ s' a e events events' starts stmt _ _ ih =>
      rintro stmts ⟨⟩
      obtain ⟨more, he, hiff⟩ := ih rfl
      rw [List.append_assoc, List.singleton_append] at he hiff
      refine ⟨a :: more, he, fun r => ⟨?_, ?_⟩⟩
      · intro ⟨events'', hread⟩
        cases hread with
        | programStmt _ stmt' rest' =>
            -- the first statement of `p ++ q` is that of `p`
            obtain ⟨rfl, rfl⟩ := (stmt.append hq (by simp)).unique stmt'
            exact (hiff r).1 ⟨_, rest'⟩
        | programSkip drops => exact absurd starts (by rw [drops]; decide)
      · intro hread
        -- and the other way the statement is put in front
        obtain ⟨events'', hrest⟩ := (hiff r).2 hread
        exact ⟨_, .programStmt starts (stmt.append hq (by simp)) hrest⟩
  | @programSkip stmts₀ t s s' e events drops _ ih =>
      rintro stmts ⟨⟩
      obtain ⟨more, he, hiff⟩ := ih rfl
      refine ⟨more, he, fun r => ⟨?_, ?_⟩⟩
      · intro ⟨events'', hread⟩
        cases hread with
        | programStmt starts => exact absurd starts (by rw [drops]; decide)
        | programSkip _ rest' => exact (hiff r).1 ⟨_, rest'⟩
      · intro hread
        obtain ⟨events'', hrest⟩ := (hiff r).2 hread
        exact ⟨_, .programSkip drops hrest⟩
  | _ => exact fun h => absurd h (by simp)

/-- What `parseProgram` returns is a program. -/
theorem parseProgram_isProgram {tokens : List Token} {e : ASTNode}
    (h : parseProgram tokens = .ok e) : ∃ stmts, e = .program stmts := by
  obtain ⟨events, hread⟩ := parseProgram_eq_ok_iff.1 h
  obtain ⟨more, he, -⟩ := hread.program_shift rfl
  exact ⟨more, he⟩

/-- `parseProgram` on `p ++ q`, if it returns the statements `stmts` on `p`. -/
theorem parseProgram_append_iff {p q : List Token} {stmts : List ASTNode} {r : ASTNode}
    (hp : parseProgram p = .ok (.program stmts)) (hq : FollowsStmt q) :
    parseProgram (p ++ q) = .ok r ↔
      ∃ stmts', parseProgram q = .ok (.program stmts') ∧ r = .program (stmts ++ stmts') := by
  obtain ⟨events, hread⟩ := parseProgram_eq_ok_iff.1 hp
  obtain ⟨more, he, hiff⟩ := hread.program_append hq rfl
  obtain rfl : stmts = more := ASTNode.program.inj he
  rw [parseProgram_eq_ok_iff, hiff]
  constructor
  · intro ⟨events', hrest⟩
    obtain ⟨stmts', hr, hshift⟩ := hrest.program_shift rfl
    exact ⟨stmts', parseProgram_eq_ok_iff.2 ⟨_, hshift []⟩, hr⟩
  · rintro ⟨stmts', hok, rfl⟩
    obtain ⟨events', hrest⟩ := parseProgram_eq_ok_iff.1 hok
    obtain ⟨more, hmore, hshift⟩ := hrest.program_shift rfl
    obtain rfl : stmts' = more := ASTNode.program.inj hmore
    exact ⟨_, hshift ([] ++ stmts)⟩

/-- **Programs compose.** -/
theorem parseProgram_append {p q : List Token} {e : ASTNode} (hp : parseProgram p = .ok e)
    (hq : q = [] ∨ (front q).type = .VAR ∨ (front q).type = .IF ∨
      (front q).type = .L_CURL_BRKT ∨ (front q).type = .IDENT) :
    ∃ stmts, e = .program stmts ∧
      ((∃ r, parseProgram (p ++ q) = .ok r) ↔ ∃ r, parseProgram q = .ok r) ∧
      ∀ r, parseProgram q = .ok r →
        ∃ stmts', r = .program stmts' ∧ parseProgram (p ++ q) = .ok (.program (stmts ++ stmts')) := by
  have hfollow : FollowsStmt q := by
    rcases hq with rfl | h | h | h | h
    · exact Or.inr (Or.inr rfl)
    -- a statement's first token
    all_goals exact Or.inl (by rw [h]; rfl)
  obtain ⟨stmts, rfl⟩ := parseProgram_isProgram hp
  refine ⟨stmts, rfl, ⟨?_, ?_⟩, ?_⟩
  · intro ⟨r, hr⟩
    obtain ⟨stmts', hok, -⟩ := (parseProgram_append_iff hp hfollow).1 hr
    exact ⟨_, hok⟩
  · intro ⟨r, hr⟩
    obtain ⟨stmts', rfl⟩ := parseProgram_isProgram hr
    exact ⟨_, (parseProgram_append_iff hp hfollow).2 ⟨stmts', hr, rfl⟩⟩
  · intro r hr
    obtain ⟨stmts', rfl⟩ := parseProgram_isProgram hr
    exact ⟨stmts', rfl, (parseProgram_append_iff hp hfollow).2 ⟨stmts', hr, rfl⟩⟩

/-- An identifier, and behind it an assignment. -/
theorem parseProgram_append_idents :
    ∃ stmts, ASTNode.program [.ident "a"] = .program stmts ∧
      ((∃ r, parseProgram ([⟨.IDENT, "a"⟩] ++ [⟨.IDENT, "x"⟩, ⟨.EQ, "="⟩, ⟨.NUMBER, "1"⟩]) = .ok r) ↔
        ∃ r, parseProgram [⟨.IDENT, "x"⟩, ⟨.EQ, "="⟩, ⟨.NUMBER, "1"⟩] = .ok r) ∧
      ∀ r, parseProgram [⟨.IDENT, "x"⟩, ⟨.EQ, "="⟩, ⟨.NUMBER, "1"⟩] = .ok r →
        ∃ stmts', r = .program stmts' ∧
          parseProgram ([⟨.IDENT, "a"⟩] ++ [⟨.IDENT, "x"⟩, ⟨.EQ, "="⟩, ⟨.NUMBER, "1"⟩])
            = .ok (.program (stmts ++ stmts')) :=
  parseProgram_append rfl (Or.inr (Or.inr (Or.inr (Or.inr rfl))))

end SproutLang.Compiler
