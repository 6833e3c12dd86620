/-
  SproutLang.Library.Exec
  ───────────────────────
  **STATE AND FAULTS OF A C++ FUNCTION.**

  A C++ function is a computation `EStateM Fault σ α`: it returns a value and
  a new state, or it stops with a `Fault` and the state at that point.  The
  lemmas are the composition rules of `>>=`:

    • `bind_ok`     — a first half that returns hands over its state,
    • `bind_error`  — a first half that faults ends the whole,
    • `bind_eq_ok`  — a sequence that returned can be taken apart,
    • `zoom_ok`     — a computation on a component leaves the rest alone,
    • `Preserves.bind`  — what each half keeps, returned or not, the whole keeps,
    • `Raises.bind` — the whole raises what a half raises.
-/
import Mathlib.Tactic.Common

namespace SproutLang.Library

/-! ## §1. Faults. -/

/-- The ways a C++ function can fail to return. -/
inductive Fault where
  /-- `throw std::runtime_error(what)`. -/
  | runtimeError (what : String)
  /-- `throw std::bad_alloc{}`. -/
  | badAlloc
  /-- An access outside every object the program owns, or a division by
  zero: the language gives the program no meaning from here on. -/
  | undefinedBehaviour
  /-- A loop that never ends. -/
  | diverges
  deriving DecidableEq, Repr

/-- A C++ exception: the caller can catch it. -/
def Fault.IsException : Fault → Prop
  | .runtimeError _ => True
  | .badAlloc => True
  | .undefinedBehaviour => False
  | .diverges => False

/-! ## §2. Composition rules. -/

section Bind

variable {ε σ α β : Type} {x : EStateM ε σ α} {f : α → EStateM ε σ β}
  {s s' s'' : σ} {a : α} {b : β} {e : ε}

/-- Where the first part returns, the second goes on. -/
theorem bind_ok (h : x s = .ok a s') : (x >>= f) s = f a s' := by
  show EStateM.bind x f s = f a s'
  unfold EStateM.bind
  rw [h]

/-- Where it fails, so does the whole. -/
theorem bind_error (h : x s = .error e s') : (x >>= f) s = .error e s' := by
  show EStateM.bind x f s = .error e s'
  unfold EStateM.bind
  rw [h]

/-- What follows sees the result of a first half, not how it came about. -/
theorem bind_eq_bind {y : EStateM ε σ α} (h : x s = y s') : (x >>= f) s = (y >>= f) s' := by
  show EStateM.bind x f s = EStateM.bind y f s'
  unfold EStateM.bind
  rw [h]

/-- **Inversion**: a sequence that returned ran both halves. -/
theorem bind_eq_ok :
    (x >>= f) s = .ok b s'' ↔ ∃ a s', x s = .ok a s' ∧ f a s' = .ok b s'' := by
  constructor
  · intro h
    cases hx : x s with
    | ok a s' =>
        rw [bind_ok hx] at h
        exact ⟨a, s', rfl, h⟩
    | error e s' =>
        rw [bind_error hx] at h
        exact absurd h (by simp)
  · intro ⟨a, s', hx, hf⟩
    rw [bind_ok hx, hf]

/-- A failure of the whole is one of the two parts. -/
theorem bind_eq_error :
    (x >>= f) s = .error e s'' ↔
      x s = .error e s'' ∨ ∃ a s', x s = .ok a s' ∧ f a s' = .error e s'' := by
  constructor
  · intro h
    cases hx : x s with
    | ok a s' =>
        rw [bind_ok hx] at h
        exact Or.inr ⟨a, s', rfl, h⟩
    | error e' s' =>
        rw [bind_error hx] at h
        injection h with he hs
        subst he hs
        exact Or.inl rfl
  · intro hcases
    rcases hcases with hx | ⟨a, s', hx, hf⟩
    · exact bind_error hx
    · rw [bind_ok hx, hf]

@[simp] theorem pure_apply : (pure a : EStateM ε σ α) s = .ok a s := rfl

@[simp] theorem throw_apply : (throw e : EStateM ε σ α) s = .error e s := rfl

@[simp] theorem get_apply : (get : EStateM ε σ σ) s = .ok s s := rfl

@[simp] theorem modify_apply (g : σ → σ) :
    (modify g : EStateM ε σ PUnit) s = .ok ⟨⟩ (g s) := rfl

/-- Reading the state hands the state on. -/
theorem get_bind (f : σ → EStateM ε σ α) : (get >>= f) s = f s s := bind_ok get_apply

end Bind

/-- The same two rules where there is no state. -/
theorem except_bind_ok {ε α β : Type} {x : Except ε α} {f : α → Except ε β} {a : α}
    (h : x = .ok a) : (x >>= f) = f a := by
  rw [h]
  rfl

/-- What a sequence returns comes from both parts. -/
theorem except_bind_eq_ok {ε α β : Type} {x : Except ε α} {f : α → Except ε β} {b : β}
    (h : (x >>= f) = .ok b) : ∃ a, x = .ok a ∧ f a = .ok b := by
  cases x with
  | ok a => exact ⟨a, rfl, h⟩
  | error e => injection h

/-- And a failure from one of them. -/
theorem except_bind_eq_error {ε α β : Type} {x : Except ε α} {f : α → Except ε β} {e : ε}
    (h : (x >>= f) = .error e) : x = .error e ∨ ∃ a, x = .ok a ∧ f a = .error e := by
  cases x with
  | error e' =>
      injection h with h
      exact Or.inl (by rw [h])
  | ok a => exact Or.inr ⟨a, rfl, h⟩

/-! ## §3. The state a computation ends in. -/

/-- The state at the end, returned or not. -/
def finalState {ε σ α : Type} : EStateM.Result ε σ α → σ
  | .ok _ s => s
  | .error _ s => s

/-- The value a computation returns. -/
def value {ε σ α : Type} : EStateM.Result ε σ α → Option α
  | .ok a _ => some a
  | .error _ _ => none

/-- A value that can be computed is the result. -/
theorem ok_of_value {ε σ α : Type} {r : EStateM.Result ε σ α} {a : α}
    (h : value r = some a) : r = .ok a (finalState r) := by
  cases r with
  | ok b s =>
      injection h with h
      rw [h]
      rfl
  | error e s => exact absurd h (by simp [value])

/-- The fault a computation stops with. -/
def fault {ε σ α : Type} : EStateM.Result ε σ α → Option ε
  | .ok _ _ => none
  | .error e _ => some e

/-- So is a fault. -/
theorem error_of_fault {ε σ α : Type} {r : EStateM.Result ε σ α} {e : ε}
    (h : fault r = some e) : r = .error e (finalState r) := by
  cases r with
  | ok a s => exact absurd h (by simp [fault])
  | error e' s =>
      injection h with h
      rw [h]
      rfl

/-! ## §4. Working on a component of the state. -/

/-- Run `x` on the component of the state that `read` and `write` name. -/
def zoom {ε σ τ α : Type} (read : σ → τ) (write : τ → σ → σ)
    (x : EStateM ε τ α) : EStateM ε σ α := fun s =>
  match x (read s) with
  | .ok a t => .ok a (write t s)
  | .error e t => .error e (write t s)

section Zoom

variable {ε σ τ α : Type} {read : σ → τ} {write : τ → σ → σ}
  {x : EStateM ε τ α} {s s' : σ} {t : τ} {a : α} {e : ε}

/-- A part that returns changes that part of the state. -/
theorem zoom_ok (h : x (read s) = .ok a t) :
    zoom read write x s = .ok a (write t s) := by
  simp only [zoom, h]

/-- Also where it fails. -/
theorem zoom_error (h : x (read s) = .error e t) :
    zoom read write x s = .error e (write t s) := by
  simp only [zoom, h]

theorem zoom_eq_ok :
    zoom read write x s = .ok a s' ↔
      ∃ t, x (read s) = .ok a t ∧ s' = write t s := by
  constructor
  · intro h
    cases hx : x (read s) with
    | ok b t =>
        rw [zoom_ok hx] at h
        injection h with hb hs
        subst hb hs
        exact ⟨t, rfl, rfl⟩
    | error e t =>
        rw [zoom_error hx] at h
        exact absurd h (by simp)
  · rintro ⟨t, hx, rfl⟩
    exact zoom_ok hx

theorem zoom_eq_error :
    zoom read write x s = .error e s' ↔
      ∃ t, x (read s) = .error e t ∧ s' = write t s := by
  constructor
  · intro h
    cases hx : x (read s) with
    | ok b t =>
        rw [zoom_ok hx] at h
        exact absurd h (by simp)
    | error e' t =>
        rw [zoom_error hx] at h
        injection h with he hs
        subst he hs
        exact ⟨t, rfl, rfl⟩
  · rintro ⟨t, hx, rfl⟩
    exact zoom_error hx

end Zoom

/-! ## §5. Every exit. -/

/-- `I` holds wherever `x` stops, returned or not, if it holds at the start. -/
def Preserves {ε σ α : Type} (I : σ → Prop) (x : EStateM ε σ α) : Prop :=
  ∀ s, I s → I (finalState (x s))

/-- Where `x` stops, fault and state are as `Q` says. -/
def StopsIn {ε σ α : Type} (Q : ε → σ → Prop) (x : EStateM ε σ α) : Prop :=
  ∀ s e s', x s = .error e s' → Q e s'

/-- `x` stops with faults of `P` only. -/
def Raises {ε σ α : Type} (P : ε → Prop) (x : EStateM ε σ α) : Prop :=
  ∀ s e s', x s = .error e s' → P e

section Exits

variable {ε σ α β : Type} {I : σ → Prop} {P : ε → Prop} {x : EStateM ε σ α}
  {f : α → EStateM ε σ β}

/-- A preserved property holds of the state returned. -/
theorem Preserves.ok (h : Preserves I x) {s s' : σ} {a : α} (hI : I s) (hx : x s = .ok a s') : I s' := by
  have hkept := h s hI
  rw [hx] at hkept
  exact hkept

/-- And of the state of a failure. -/
theorem Preserves.error (h : Preserves I x) {s s' : σ} {e : ε} (hI : I s) (hx : x s = .error e s') :
    I s' := by
  have hkept := h s hI
  rw [hx] at hkept
  exact hkept

theorem Preserves.pure (a : α) : Preserves I (pure a : EStateM ε σ α) := fun _ hI => hI

theorem Preserves.throw (e : ε) : Preserves I (throw e : EStateM ε σ α) := fun _ hI => hI

theorem Preserves.get : Preserves I (get : EStateM ε σ σ) := fun _ hI => hI

theorem Preserves.modify {g : σ → σ} (h : ∀ s, I s → I (g s)) :
    Preserves I (modify g : EStateM ε σ PUnit) := fun s hI => h s hI

/-- Where the first half returns, `f` may rely on `J`. -/
theorem Preserves.bind_of (hx : Preserves I x) (J : σ → Prop)
    (hJ : ∀ s a s', I s → x s = .ok a s' → J s')
    (hf : ∀ a s, J s → I (finalState (f a s))) : Preserves I (x >>= f) := by
  intro s hI
  cases hrun : x s with
  | ok a s' =>
      rw [bind_ok hrun]
      exact hf a s' (hJ s a s' hI hrun)
  | error e s' =>
      rw [bind_error hrun]
      exact hx.error hI hrun

/-- Two parts that preserve a property preserve it together. -/
theorem Preserves.bind (hx : Preserves I x) (hf : ∀ a, Preserves I (f a)) : Preserves I (x >>= f) :=
  hx.bind_of I (fun _ _ _ hI hrun => hx.ok hI hrun) (fun a s hI => hf a s hI)

/-- What a component keeps may depend on the rest of the state. -/
theorem Preserves.zoom_of {τ : Type} {J : σ → τ → Prop} {read : σ → τ} {write : τ → σ → σ}
    {y : EStateM ε τ α} (hread : ∀ s, I s → J s (read s))
    (hwrite : ∀ s t, I s → J s t → I (write t s)) (h : ∀ s, Preserves (J s) y) :
    Preserves I (zoom read write y) := by
  intro s hI
  have hrun := h s (read s) (hread s hI)
  cases hy : y (read s) with
  | ok a t =>
      rw [zoom_ok hy]
      rw [hy] at hrun
      exact hwrite s t hI hrun
  | error e t =>
      rw [zoom_error hy]
      rw [hy] at hrun
      exact hwrite s t hI hrun

/-- So does a computation on a part of the state. -/
theorem Preserves.zoom {τ : Type} {J : τ → Prop} {read : σ → τ} {write : τ → σ → σ}
    {y : EStateM ε τ α} (hread : ∀ s, I s → J (read s)) (hwrite : ∀ s t, I s → J t → I (write t s))
    (h : Preserves J y) : Preserves I (zoom read write y) :=
  Preserves.zoom_of (J := fun _ => J) hread hwrite fun _ => h

theorem StopsIn.pure {Q : ε → σ → Prop} (a : α) : StopsIn Q (pure a : EStateM ε σ α) :=
  fun _ _ _ h => absurd h (by simp)

theorem StopsIn.throw {Q : ε → σ → Prop} {e : ε} (h : ∀ s, Q e s) :
    StopsIn Q (throw e : EStateM ε σ α) := by
  intro s e' s' hthrow
  injection hthrow with he _
  rw [← he]
  exact h s'

/-- Two parts that stop only so do together. -/
theorem StopsIn.bind {Q : ε → σ → Prop} (hx : StopsIn Q x) (hf : ∀ a, StopsIn Q (f a)) :
    StopsIn Q (x >>= f) := by
  intro s e s' h
  rcases bind_eq_error.1 h with hfirst | ⟨a, s1, _, hsecond⟩
  · exact hx s e s' hfirst
  · exact hf a s1 e s' hsecond

/-- What is not raised need not be spoken of. -/
theorem Raises.stopsIn {Q : ε → σ → Prop} (h : Raises P x) (hQ : ∀ e s, P e → Q e s) :
    StopsIn Q x := fun s e s' hrun => hQ e s' (h s e s' hrun)

theorem Raises.pure (a : α) : Raises P (pure a : EStateM ε σ α) :=
  fun _ _ _ h => absurd h (by simp)

theorem Raises.throw {e : ε} (h : P e) : Raises P (throw e : EStateM ε σ α) := by
  intro s e' s' hthrow
  injection hthrow with he _
  rw [← he]
  exact h

theorem Raises.get : Raises P (get : EStateM ε σ σ) := fun _ _ _ h => absurd h (by simp)

theorem Raises.modify (g : σ → σ) : Raises P (modify g : EStateM ε σ PUnit) :=
  fun _ _ _ h => absurd h (by simp)

/-- Two parts that raise only such exceptions do together. -/
theorem Raises.bind (hx : Raises P x) (hf : ∀ a, Raises P (f a)) : Raises P (x >>= f) := by
  intro s e s' h
  rcases bind_eq_error.1 h with hfirst | ⟨a, s1, _, hsecond⟩
  · exact hx s e s' hfirst
  · exact hf a s1 e s' hsecond

/-- So does a computation on a part of the state. -/
theorem Raises.zoom {τ : Type} {read : σ → τ} {write : τ → σ → σ} {y : EStateM ε τ α}
    (h : Raises P y) : Raises P (zoom read write y) := by
  intro s e s' hrun
  obtain ⟨t, ht, _⟩ := zoom_eq_error.1 hrun
  exact h _ e t ht

end Exits

/-- No exception leaves `x`; what it does may still be undefined, or never
end. -/
abbrev NeverThrows {σ α : Type} (x : EStateM Fault σ α) : Prop :=
  Raises (fun e => ¬ e.IsException) x

end SproutLang.Library
