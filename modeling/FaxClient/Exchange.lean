import FaxClient.ExchangeError

/-!
# Exchanges

An exchange over a control connection answers with a value or an error and leaves the connection
in a new state, whichever of the two it is.
-/

namespace FaxClient

def Exchange (σ α : Type) : Type := σ → Except ExchangeError α × σ

namespace Exchange

variable {σ α β : Type}

def pure (a : α) : Exchange σ α := fun s => (.ok a, s)

def bind (x : Exchange σ α) (f : α → Exchange σ β) : Exchange σ β := fun s =>
  match x s with
  | (.ok a, s) => f a s
  | (.error e, s) => (.error e, s)

instance : Monad (Exchange σ) where
  pure := Exchange.pure
  bind := Exchange.bind

def ofExcept (r : Except ExchangeError α) : Exchange σ α := fun s => (r, s)

@[simp] theorem pure_apply (a : α) (s : σ) : (Pure.pure a : Exchange σ α) s = (.ok a, s) := rfl

@[simp] theorem ofExcept_apply (r : Except ExchangeError α) (s : σ) :
    (ofExcept r : Exchange σ α) s = (r, s) := rfl

theorem bind_apply (x : Exchange σ α) (f : α → Exchange σ β) (s : σ) :
    (x >>= f) s = match x s with
      | (.ok a, s) => f a s
      | (.error e, s) => (.error e, s) := rfl

theorem bind_ok {x : Exchange σ α} {f : α → Exchange σ β} {s t : σ} {a : α}
    (h : x s = (.ok a, t)) : (x >>= f) s = f a t := by
  simp [bind_apply, h]

theorem bind_error {x : Exchange σ α} {f : α → Exchange σ β} {s t : σ} {e : ExchangeError}
    (h : x s = (.error e, t)) : (x >>= f) s = (.error e, t) := by
  simp [bind_apply, h]

theorem bind_eq_ok {x : Exchange σ α} {f : α → Exchange σ β} {s t : σ} {b : β}
    (h : (x >>= f) s = (.ok b, t)) : ∃ a u, x s = (.ok a, u) ∧ f a u = (.ok b, t) := by
  rcases hx : x s with ⟨result, u⟩
  cases result with
  | error e =>
    rw [bind_error hx] at h
    simp at h
  | ok a =>
    rw [bind_ok hx] at h
    exact ⟨a, u, rfl, h⟩

/-- An exchange made of two fails in the first or in the second. -/
theorem bind_eq_error {x : Exchange σ α} {f : α → Exchange σ β} {s t : σ} {e : ExchangeError}
    (h : (x >>= f) s = (.error e, t)) :
    x s = (.error e, t) ∨ ∃ a u, x s = (.ok a, u) ∧ f a u = (.error e, t) := by
  rcases hx : x s with ⟨result, u⟩
  cases result with
  | error e₀ =>
    left
    rw [bind_error hx] at h
    simpa using h
  | ok a =>
    right
    rw [bind_ok hx] at h
    exact ⟨a, u, rfl, h⟩

end Exchange

end FaxClient
