/-
  SproutLang.Library.Lexing
  ─────────────────────────
  **CUTTING A TEXT INTO TOKENS.**

  A lexer is given by two relations: `cut s t rest` cuts the token `t` off the
  text `s`, and `stop s` finds no token any more.  `Lexes` is a run of it.

    • `exists_lexes`      — a lexer that makes progress finishes,
    • `Lexes.text_eq`     — what every cut keeps in place, the run does,
    • `lexes_intercalate` — tokens that delimit themselves are read back from
      their texts joined by a separator,
    • `takeWhile_append_stop` — the longest run of a class ends where another
      class begins,
    • `Longest.unique`    — the longest lexeme in front of a text is one only.
-/
import Mathlib.Data.List.Basic

namespace SproutLang.Library

variable {α τ : Type}

/-- A run of the lexer over a text. -/
inductive Lexes (cut : List α → τ → List α → Prop) (stop : List α → Prop) :
    List α → List τ → Prop where
  | nil {s : List α} (done : stop s) : Lexes cut stop s []
  | cons {s rest : List α} {t : τ} {ts : List τ} (first : cut s t rest)
      (more : Lexes cut stop rest ts) : Lexes cut stop s (t :: ts)

/-! ## Runs. -/

section Run

variable {cut : List α → τ → List α → Prop} {stop : List α → Prop} {s : List α} {ts : List τ}
  {I : List α → Prop}

/-- **Progress**: when every cut shortens the text, the run ends. -/
theorem exists_lexes
    (hprogress : ∀ s, I s → stop s ∨ ∃ t rest, cut s t rest ∧ rest.length < s.length ∧ I rest) :
    ∀ (n : Nat) (s : List α), s.length ≤ n → I s → ∃ ts, Lexes cut stop s ts := by
  intro n
  induction n with
  | zero =>
      intro s hlen hI
      rcases hprogress s hI with hstop | ⟨t, rest, _, hlt, _⟩
      · exact ⟨[], Lexes.nil hstop⟩
      · omega
  | succ n ih =>
      intro s hlen hI
      rcases hprogress s hI with hstop | ⟨t, rest, hcut, hlt, hrest⟩
      · exact ⟨[], Lexes.nil hstop⟩
      · obtain ⟨ts, hts⟩ := ih rest (by omega) hrest
        exact ⟨t :: ts, Lexes.cons hcut hts⟩

/-- **What is read is what is there**: if every cut takes the token's text off
the front of `f`, the texts together are `f` of the whole. -/
theorem Lexes.text_eq {β : Type} {f : List α → List β} {text : τ → List β}
    (h : Lexes cut stop s ts) (hI : I s)
    (hcut : ∀ s t rest, I s → cut s t rest → I rest ∧ f s = text t ++ f rest)
    (hstop : ∀ s, I s → stop s → f s = []) : ts.flatMap text = f s := by
  induction h with
  | nil done => exact (hstop _ hI done).symm
  | cons first _ ih =>
      obtain ⟨hrest, htext⟩ := hcut _ _ _ hI first
      rw [List.flatMap_cons, ih hrest, htext]

/-- A property of every token that is cut is one of every token of the run. -/
theorem Lexes.forall_mem {P : τ → Prop} (h : Lexes cut stop s ts) (hI : I s)
    (hcut : ∀ s t rest, I s → cut s t rest → I rest ∧ P t) : ∀ t ∈ ts, P t := by
  induction h with
  | nil _ => exact fun t ht => absurd ht List.not_mem_nil
  | cons first _ ih =>
      obtain ⟨hrest, hP⟩ := hcut _ _ _ hI first
      intro t ht
      rcases List.mem_cons.1 ht with rfl | ht
      · exact hP
      · exact ih hrest t ht

/-- A run depends on the text through its first cut alone. -/
theorem Lexes.congr {s' : List α} (h : Lexes cut stop s ts)
    (hcut : ∀ t rest, cut s t rest → cut s' t rest) (hstop : stop s → stop s') :
    Lexes cut stop s' ts := by
  cases h with
  | nil done => exact Lexes.nil (hstop done)
  | cons first more => exact Lexes.cons (hcut _ _ first) more

/-- **Self-delimiting tokens**: if each token is cut off again wherever a
separator or the end follows its text, the texts joined by the separator are
cut into the same tokens. -/
theorem lexes_intercalate {sep : α} {text : τ → List α} (hempty : stop [])
    (hskip : ∀ s, (∀ t rest, cut s t rest → cut (sep :: s) t rest) ∧
      (stop s → stop (sep :: s))) :
    ∀ ts : List τ,
      (∀ t ∈ ts, ∀ rest, rest = [] ∨ rest.head? = some sep → cut (text t ++ rest) t rest) →
      Lexes cut stop (List.intercalate [sep] (ts.map text)) ts := by
  intro ts
  -- on the tokens; only the last one stands without a separator behind it
  induction ts with
  | nil => exact fun _ => Lexes.nil hempty
  | cons t ts ih =>
      intro hself
      have hmore := ih fun t' ht' => hself t' (List.mem_cons_of_mem t ht')
      have hfirst := hself t List.mem_cons_self
      cases ts with
      | nil =>
          have hlast := hfirst [] (Or.inl rfl)
          rw [List.append_nil] at hlast
          have hjoin : List.intercalate [sep] ([t].map text) = text t := by simp
          rw [hjoin]
          exact Lexes.cons hlast hmore
      | cons t' ts =>
          have hjoin : List.intercalate [sep] ((t :: t' :: ts).map text)
              = text t ++ sep :: List.intercalate [sep] ((t' :: ts).map text) := by
            simp [List.intercalate]
          rw [hjoin]
          exact Lexes.cons (hfirst _ (Or.inr rfl)) (hmore.congr (hskip _).1 (hskip _).2)

end Run

/-! ## Maximal munch. -/

section Munch

variable {p : α → Bool} {w rest : List α}

/-- The longest run of a class is cut where something else follows. -/
theorem takeWhile_append_stop (hw : ∀ a ∈ w, p a = true) (hrest : ∀ a ∈ rest.head?, p a = false) :
    (w ++ rest).takeWhile p = w := by
  rw [List.takeWhile_append_of_pos hw]
  cases rest with
  | nil => simp
  | cons a rest => simp [hrest a rfl]

/-- What stands behind the characters taken is left. -/
theorem dropWhile_append_stop (hw : ∀ a ∈ w, p a = true) (hrest : ∀ a ∈ rest.head?, p a = false) :
    (w ++ rest).dropWhile p = rest := by
  rw [List.dropWhile_append_of_pos hw]
  cases rest with
  | nil => rfl
  | cons a rest => simp [hrest a rfl]

/-- Where dropping stopped. -/
theorem head_dropWhile (s : List α) : ∀ a ∈ (s.dropWhile p).head?, p a = false := by
  intro a ha
  have hne : s.dropWhile p ≠ [] := by
    intro h
    rw [h] at ha
    cases ha
  have hhead := List.head_dropWhile_not p hne
  rw [List.head?_eq_some_head hne] at ha
  cases ha
  exact hhead

/-- **`w` is the longest lexeme in front of `s`.** -/
structure Longest (lexeme : List α → Prop) (w s : List α) : Prop where
  mem : lexeme w
  front : w <+: s
  longest : ∀ v, lexeme v → v <+: s → v.length ≤ w.length

/-- There is one longest match. -/
theorem Longest.unique {lexeme : List α → Prop} {w v s : List α} (hw : Longest lexeme w s)
    (hv : Longest lexeme v s) : w = v := by
  have hlen : w.length = v.length :=
    Nat.le_antisymm (hv.longest w hw.mem hw.front) (hw.longest v hv.mem hv.front)
  exact (List.prefix_of_prefix_length_le hw.front hv.front (Nat.le_of_eq hlen)).eq_of_length hlen

/-- The run of a class is no shorter than what begins with the class. -/
theorem length_le_takeWhile (hw : ∀ a ∈ w, p a = true) :
    w.length ≤ ((w ++ rest).takeWhile p).length := by
  rw [List.takeWhile_append_of_pos hw, List.length_append]
  exact Nat.le_add_right _ _

end Munch

end SproutLang.Library
