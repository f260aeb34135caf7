/-! # Results of computations with state

One equation for each primitive of a computation that has a state and may stop.
-/

namespace CommandScript

variable {ε σ α β : Type} {s s' : σ} {p : EStateM ε σ α} {f : α → EStateM ε σ β}

theorem bind_apply (p : EStateM ε σ α) (f : α → EStateM ε σ β) (s : σ) :
    (p >>= f) s = match p s with
      | .ok a s' => f a s'
      | .error e s' => .error e s' := by
  change EStateM.bind p f s = _
  unfold EStateM.bind
  cases p s <;> rfl

theorem bind_ok {a : α} (h : p s = .ok a s') : (p >>= f) s = f a s' := by
  rw [bind_apply, h]

theorem bind_error {e : ε} (h : p s = .error e s') : (p >>= f) s = .error e s' := by
  rw [bind_apply, h]

theorem bind_eq_ok {b : β} (h : (p >>= f) s = .ok b s') :
    ∃ a s₁, p s = .ok a s₁ ∧ f a s₁ = .ok b s' := by
  rw [bind_apply] at h
  cases hp : p s with
  | ok a s₁ => exact ⟨a, s₁, rfl, by rwa [hp] at h⟩
  | error e s₁ => rw [hp] at h; cases h

theorem bind_eq_error {e : ε} (h : (p >>= f) s = .error e s') :
    p s = .error e s' ∨ ∃ a s₁, p s = .ok a s₁ ∧ f a s₁ = .error e s' := by
  rw [bind_apply] at h
  cases hp : p s with
  | ok a s₁ => exact Or.inr ⟨a, s₁, rfl, by rwa [hp] at h⟩
  | error e₁ s₁ => rw [hp] at h; cases h; exact Or.inl rfl

theorem exists_of_bind_ok {x : Except ε α} {k : α → Except ε β} {b : β}
    (h : (x >>= k) = .ok b) : ∃ a, x = .ok a ∧ k a = .ok b := by
  cases x with
  | ok a => exact ⟨a, rfl, h⟩
  | error e => cases h

/-- Where a computation ended, whether it ended well or stopped. -/
def lastState : EStateM.Result ε σ α → σ
  | .ok _ s => s
  | .error _ s => s

/-- What stopped a computation. -/
def failure? : EStateM.Result ε σ α → Option ε
  | .ok _ _ => none
  | .error e _ => some e

theorem failure?_eq_some {r : EStateM.Result ε σ α} {e : ε} :
    failure? r = some e ↔ ∃ s, r = .error e s := by
  cases r <;> simp [failure?]

@[simp] theorem pure_apply (a : α) (s : σ) : (pure a : EStateM ε σ α) s = .ok a s := rfl

@[simp] theorem get_apply (s : σ) : (get : EStateM ε σ σ) s = .ok s s := rfl

@[simp] theorem set_apply (s s' : σ) : (set s' : EStateM ε σ PUnit) s = .ok ⟨⟩ s' := rfl

@[simp] theorem modify_apply (f : σ → σ) (s : σ) :
    (modify f : EStateM ε σ PUnit) s = .ok ⟨⟩ (f s) := rfl

@[simp] theorem throw_apply (e : ε) (s : σ) : (throw e : EStateM ε σ α) s = .error e s := rfl

end CommandScript
