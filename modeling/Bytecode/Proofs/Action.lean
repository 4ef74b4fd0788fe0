import Mathlib

/-!
# Actions on a state

What it takes for an action that may fail to end in one way or the other, and maps on the states
of outcomes.
-/

namespace Bytecode

section

variable {ε σ α β : Type}
variable {s s' : σ} {x : EStateM ε σ α} {f : α → EStateM ε σ β} {a : α}

/-- An action succeeds if its first part does and the second part does on what that yields. -/
theorem bind_eq_ok {b : β} :
  (x >>= f) s = .ok b s' ↔ ∃ a s₁, x s = .ok a s₁ ∧ f a s₁ = .ok b s'
  := by
  change EStateM.bind x f s = _ ↔ _
  unfold EStateM.bind
  cases x s with
  | ok a s₁ => simp
  | error e s₁ => simp

/-- An action fails if its first part does or the second part does on what that yields. -/
theorem bind_eq_error {e : ε} :
  (x >>= f) s = .error e s'
    ↔ x s = .error e s' ∨ ∃ a s₁, x s = .ok a s₁ ∧ f a s₁ = .error e s'
  := by
  change EStateM.bind x f s = _ ↔ _
  unfold EStateM.bind
  cases x s with
  | ok a s₁ => simp
  | error e s₁ => simp

theorem pure_eq_ok {b : α} :
  (pure a : EStateM ε σ α) s = .ok b s' ↔ a = b ∧ s = s'
  := by
  change EStateM.Result.ok a s = _ ↔ _
  simp

theorem map_eq_ok {f : α → β} {b : β} :
  (f <$> x) s = .ok b s' ↔ ∃ a, x s = .ok a s' ∧ f a = b
  := by
  change EStateM.map f x s = _ ↔ _
  unfold EStateM.map
  cases x s with
  | ok a s₁ =>
    simp only [EStateM.Result.ok.injEq]
    constructor
    · rintro ⟨rfl, rfl⟩
      exact ⟨a, ⟨rfl, rfl⟩, rfl⟩
    · rintro ⟨_, ⟨rfl, rfl⟩, rfl⟩
      exact ⟨rfl, rfl⟩
  | error e s₁ => simp

theorem map_of_ok {f : α → β} (run : x s = .ok a s') :
  (f <$> x) s = .ok (f a) s'
  := map_eq_ok.2 ⟨a, run, rfl⟩

theorem get_eq (s : σ) :
  (get : EStateM ε σ σ) s = .ok s s
  := rfl

theorem bind_of_ok {s₁ : σ} (run : x s = .ok a s₁) (f : α → EStateM ε σ β) :
  (x >>= f) s = f a s₁
  := by
  change EStateM.bind x f s = _
  unfold EStateM.bind
  rw [run]

theorem bind_of_error {s₁ : σ} {e : ε} (run : x s = .error e s₁) (f : α → EStateM ε σ β) :
  (x >>= f) s = .error e s₁
  := by
  change EStateM.bind x f s = _
  unfold EStateM.bind
  rw [run]

/-- The first part of an action may be replaced by one that does the same. -/
theorem bind_congr_at {y : EStateM ε σ α} (same : x s = y s) (f : α → EStateM ε σ β) :
  (x >>= f) s = (y >>= f) s
  := by
  change EStateM.bind x f s = EStateM.bind y f s
  unfold EStateM.bind
  rw [same]

/-! ### States of outcomes -/

/-- The state in which an action has ended. -/
def stateOf : EStateM.Result ε σ α → σ
  | .ok _ s => s
  | .error _ s => s

theorem stateOf_bind (x : EStateM ε σ α) (f : α → EStateM ε σ β) (s : σ) :
  stateOf ((x >>= f) s) = match x s with
    | .ok a s₁ => stateOf (f a s₁)
    | .error _ s₁ => s₁
  := by
  cases run : x s with
  | ok a s₁ => rw [bind_of_ok run]
  | error e s₁ =>
    rw [bind_of_error run]
    rfl

/-- What neither part changes, both together do not change. -/
theorem stateOf_bind_congr {γ : Type} (g : σ → γ) {x : EStateM ε σ α} {f : α → EStateM ε σ β} {s : σ}
    (first : g (stateOf (x s)) = g s) (second : ∀ a s₁, g (stateOf (f a s₁)) = g s₁) :
  g (stateOf ((x >>= f) s)) = g s
  := by
  rw [stateOf_bind]
  cases run : x s with
  | ok a s₁ =>
    rw [run] at first
    exact (second a s₁).trans first
  | error e s₁ =>
    rw [run] at first
    exact first

/-- The same outcome in another state. -/
def onState (f : σ → σ) : EStateM.Result ε σ α → EStateM.Result ε σ α
  | .ok a s => .ok a (f s)
  | .error e s => .error e (f s)

@[simp] theorem stateOf_ok (a : α) (s : σ) :
  stateOf (.ok a s : EStateM.Result ε σ α) = s
  := rfl

@[simp] theorem stateOf_error (e : ε) (s : σ) :
  stateOf (.error e s : EStateM.Result ε σ α) = s
  := rfl

@[simp] theorem onState_ok (f : σ → σ) (a : α) (s : σ) :
  onState f (.ok a s : EStateM.Result ε σ α) = .ok a (f s)
  := rfl

@[simp] theorem onState_error (f : σ → σ) (e : ε) (s : σ) :
  onState f (.error e s : EStateM.Result ε σ α) = .error e (f s)
  := rfl

/-- Two actions that commute with a map of states do so one after the other. The second one need
do so only where the first one leads. -/
theorem bind_onState {g : σ → σ} (first : x (g s) = onState g (x s))
    (second : ∀ a s₁, x s = .ok a s₁ → f a (g s₁) = onState g (f a s₁)) :
  (x >>= f) (g s) = onState g ((x >>= f) s)
  := by
  cases run : x s with
  | ok a s₁ =>
    rw [run] at first
    rw [bind_of_ok first, bind_of_ok run, second a s₁ run]
  | error e s₁ =>
    rw [run] at first
    rw [bind_of_error first, bind_of_error run]
    rfl

/-! ### How actions end -/

/-- The outcome is as described, if the action has succeeded and if it has failed. -/
def Ends (Q : α → σ → Prop) (E : ε → σ → Prop) : EStateM.Result ε σ α → Prop
  | .ok a s => Q a s
  | .error e s => E e s

variable {Q : α → σ → Prop} {R : β → σ → Prop} {E : ε → σ → Prop}

theorem Ends.bind (first : Ends Q E (x s)) (second : ∀ a s₁, Q a s₁ → Ends R E (f a s₁)) :
  Ends R E ((x >>= f) s)
  := by
  cases run : x s with
  | ok a s₁ =>
    rw [run] at first
    rw [bind_of_ok run]
    apply second a s₁ first
  | error e s₁ =>
    rw [run] at first
    rw [bind_of_error run]
    apply first

theorem Ends.mono {Q' : α → σ → Prop} {E' : ε → σ → Prop} {r : EStateM.Result ε σ α}
    (ends : Ends Q E r) (weaker : ∀ a s, Q a s → Q' a s) (weaker' : ∀ e s, E e s → E' e s) :
  Ends Q' E' r
  := by
  cases r with
  | ok a s => apply weaker a s ends
  | error e s => apply weaker' e s ends

theorem Ends.state {P : σ → Prop} {r : EStateM.Result ε σ α} (ends : Ends Q E r)
    (ok : ∀ a s, Q a s → P s) (error : ∀ e s, E e s → P s) :
  P (stateOf r)
  := by
  cases r with
  | ok a s => exact ok a s ends
  | error e s => exact error e s ends

end

end Bytecode
