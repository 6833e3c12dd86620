/-
  SproutLang.Library.Fuel
  ───────────────────────
  **COMPUTATIONS THAT COUNT DOWN FUEL.**

  A recursion with no structure to follow is a family `f k` of computations,
  `k` the counters it is given.  The family stands for the recursion where
  every `k` that is enough gives the same outcome, and that outcome is not a
  counter used up:

    • `Settles.of_eq`     — another family with the same outcomes,
    • `Settles.reindex`   — a call with the counters that are left,
    • `Settles.bind`      — a sequence settles if its halves do.
-/
import SproutLang.Library.Exec

namespace SproutLang.Library

variable {ι κ ε σ α β : Type} {exhausted : ε} {enough enough' : ι → Prop}

/-- **One outcome for all counters that are enough**, and none of them is used
up. -/
def Settles (exhausted : ε) (enough : ι → Prop) (f : ι → EStateM.Result ε σ α) : Prop :=
  ∃ r, (∀ s, r ≠ .error exhausted s) ∧ ∀ k, enough k → f k = r

/-- One result for every amount that is enough. -/
theorem settles_ok {f : ι → EStateM.Result ε σ α} {a : α} {s : σ}
    (h : ∀ k, enough k → f k = .ok a s) : Settles exhausted enough f :=
  ⟨.ok a s, fun _ => by simp, h⟩

/-- One error likewise. -/
theorem settles_error {f : ι → EStateM.Result ε σ α} {e : ε} {s : σ} (hne : e ≠ exhausted)
    (h : ∀ k, enough k → f k = .error e s) : Settles exhausted enough f := by
  refine ⟨.error e s, ?_, h⟩
  intro s' heq
  injection heq with he
  exact hne he

/-- What is equal, where there is enough, settles alike. -/
theorem Settles.of_eq {f g : ι → EStateM.Result ε σ α} (hg : Settles exhausted enough g)
    (h : ∀ k, enough k → f k = g k) : Settles exhausted enough f := by
  obtain ⟨r, hr, hrun⟩ := hg
  refine ⟨r, hr, ?_⟩
  intro k hk
  rw [h k hk, hrun k hk]

/-- A family that calls another one with counters of its own. -/
theorem Settles.reindex {f : ι → EStateM.Result ε σ α} {g : κ → EStateM.Result ε σ α}
    {needed : κ → Prop} (hg : Settles exhausted needed g)
    (h : ∀ k, enough k → ∃ k', needed k' ∧ f k = g k') : Settles exhausted enough f := by
  obtain ⟨r, hr, hrun⟩ := hg
  refine ⟨r, hr, ?_⟩
  intro k hk
  obtain ⟨k', hk', hf⟩ := h k hk
  rw [hf, hrun k' hk']

/-- **Sequence.**  What follows has to settle where the first half returns. -/
theorem Settles.bind {x : ι → EStateM ε σ α} {f : ι → α → EStateM ε σ β} {s : σ}
    (hx : Settles exhausted enough (fun k => x k s))
    (hf : ∀ a s', (∀ k, enough k → x k s = .ok a s') →
      Settles exhausted enough (fun k => f k a s')) :
    Settles exhausted enough (fun k => (x k >>= f k) s) := by
  obtain ⟨r, hr, hrun⟩ := hx
  cases r with
  | ok a s' =>
      refine (hf a s' hrun).of_eq ?_
      intro k hk
      exact bind_ok (hrun k hk)
  | error e s' =>
      -- the second half is not reached
      have hne : e ≠ exhausted := by
        intro he
        exact hr s' (by rw [he])
      refine settles_error (s := s') hne ?_
      intro k hk
      exact bind_error (hrun k hk)

/-- A first half without counters. -/
theorem Settles.bind_const {x : EStateM ε σ α} {f : ι → α → EStateM ε σ β} {s : σ}
    (hx : ∀ s', x s ≠ .error exhausted s')
    (hf : ∀ a s', x s = .ok a s' → Settles exhausted enough (fun k => f k a s')) :
    Settles exhausted enough (fun k => (x >>= f k) s) := by
  cases hrun : x s with
  | ok a s' =>
      refine (hf a s' hrun).of_eq ?_
      intro k _
      exact bind_ok hrun
  | error e s' =>
      have hne : e ≠ exhausted := by
        intro he
        exact hx s' (by rw [hrun, he])
      refine settles_error (s := s') hne ?_
      intro k _
      exact bind_error hrun

/-- With enough of each counter a family that settles returns or fails. -/
theorem Settles.outcome {f : ι → EStateM.Result ε σ α} (h : Settles exhausted enough f) {k : ι}
    (hk : enough k) :
    (∃ a s, f k = .ok a s) ∨ ∃ e s, e ≠ exhausted ∧ f k = .error e s := by
  obtain ⟨r, hr, hrun⟩ := h
  rw [hrun k hk]
  cases r with
  | ok a s => exact Or.inl ⟨a, s, rfl⟩
  | error e s =>
      refine Or.inr ⟨e, s, ?_, rfl⟩
      intro he
      exact hr s (by rw [he])

end SproutLang.Library
