/-
  SproutLang.Library.Leads
  ────────────────────────
  **WHERE RUNS LEAD.**

  `Leads R P Q`: from every state of `P` some steps of `R` come to a state of
  `Q`.  The rules a program is taken through:

    • `Leads.trans`   — one piece behind another,
    • `Leads.rounds`  — a loop, by what a round does to its invariant,
    • `Leads.doWhile` — a loop that tests behind its body.
-/
import Mathlib.Logic.Relation

namespace SproutLang.Library

variable {σ : Type} {R : σ → σ → Prop} {P P' Q Q' : σ → Prop}

/-- **`P` leads to `Q`.** -/
def Leads (R : σ → σ → Prop) (P Q : σ → Prop) : Prop :=
  ∀ s, P s → ∃ s', Relation.ReflTransGen R s s' ∧ Q s'

/-- No step at all. -/
theorem Leads.of_imp (h : ∀ s, P s → Q s) : Leads R P Q :=
  fun s hs => ⟨s, .refl, h s hs⟩

/-- One step. -/
theorem Leads.of_step (h : ∀ s, P s → ∃ s', R s s' ∧ Q s') : Leads R P Q := by
  intro s hs
  obtain ⟨s', hstep, hq⟩ := h s hs
  exact ⟨s', .single hstep, hq⟩

/-- Two stretches make one. -/
theorem Leads.trans (h : Leads R P Q) (h' : Leads R Q Q') : Leads R P Q' := by
  intro s hs
  obtain ⟨s', hsteps, hq⟩ := h s hs
  obtain ⟨s'', hsteps', hq'⟩ := h' s' hq
  exact ⟨s'', hsteps.trans hsteps', hq'⟩

/-- From more, to less. -/
theorem Leads.mono (h : Leads R P Q) (hpre : ∀ s, P' s → P s) (hpost : ∀ s, Q s → Q' s) :
    Leads R P' Q' :=
  ((of_imp hpre).trans h).trans (of_imp hpost)

/-- **Rounds.**  `I k` holds before round `k`. -/
theorem Leads.rounds {I : Nat → σ → Prop} (n : Nat)
    (hround : ∀ k < n, Leads R (I k) (I (k + 1))) : Leads R (I 0) (I n) := by
  induction n with
  | zero => exact of_imp fun _ h => h
  | succ n ih =>
      -- the rounds in front of the last one
      have hbefore : Leads R (I 0) (I n) := by
        apply ih
        intro k hk
        exact hround k (Nat.lt_succ_of_lt hk)
      exact hbefore.trans (hround n (Nat.lt_succ_self n))

/-- **A loop that tests behind its body**, for `n` rounds of which the last
leaves it. -/
theorem Leads.doWhile {I : Nat → σ → Prop} {n : Nat} (hn : 1 ≤ n)
    (hagain : ∀ k, k + 1 < n → Leads R (I k) (I (k + 1)))
    (hleave : ∀ k, k + 1 = n → Leads R (I k) Q) : Leads R (I 0) Q := by
  have hlast : Leads R (I 0) (I (n - 1)) := by
    apply Leads.rounds
    intro k hk
    apply hagain
    omega
  exact hlast.trans (hleave (n - 1) (by omega))

end SproutLang.Library
