import Mst5Client.ByteOrder

set_option autoImplicit false

/-!
# Errors and checked integers

`io::Error` is its kind and its text. A function that mutates its receiver and may still fail
returns the receiver beside the result, since Rust keeps the assignments made before the error.
-/
namespace Mst5Client.IoResult

inductive ErrorKind where
  | invalidData
  | invalidInput
  | timedOut
  | brokenPipe
  | connectionReset
  | connectionAborted
  | permissionDenied
  | unexpectedEof
  | alreadyExists
  | notFound
  | other
deriving DecidableEq, Repr

structure IoError where
  kind : ErrorKind
  message : String
deriving DecidableEq, Repr

def invalidData (message : String) : IoError := ⟨.invalidData, message⟩

def invalidInput (message : String) : IoError := ⟨.invalidInput, message⟩

theorem bind_eq_ok {ε α β : Type} {x : Except ε α} {f : α → Except ε β} {b : β}
    (h : (x >>= f) = .ok b) : ∃ a, x = .ok a ∧ f a = .ok b := by
  cases x with
  | error e => cases h
  | ok a => exact ⟨a, rfl, h⟩

theorem bind_of_ok {ε α β : Type} {x : Except ε α} {a : α} (h : x = .ok a) (f : α → Except ε β) :
    (x >>= f) = f a := by
  rw [h]
  rfl

theorem ite_error_eq_ok {ε α : Type} {p : Prop} [Decidable p] {e : ε} {x : Except ε α} {a : α} :
    (if p then .error e else x) = .ok a ↔ ¬ p ∧ x = .ok a := by
  by_cases hp : p
  · rw [if_pos hp]
    constructor
    · intro h
      cases h
    · rintro ⟨h, -⟩
      exact absurd hp h
  · rw [if_neg hp]
    exact (and_iff_right hp).symm

theorem mapError_eq_ok {ε ε' α : Type} {x : Except ε α} {f : ε → ε'} {a : α}
    (h : x.mapError f = .ok a) : x = .ok a := by
  cases x with
  | error e => cases h
  | ok b =>
    cases h
    rfl

theorem map_eq_ok {ε α β : Type} {x : Except ε α} {f : α → β} {b : β} (h : x.map f = .ok b) :
    ∃ a, x = .ok a ∧ f a = b := by
  cases x with
  | error e => cases h
  | ok a => exact ⟨a, rfl, Except.ok.inj h⟩

theorem bind_eq_ok_iff {ε α β : Type} {x : Except ε α} {f : α → Except ε β} {b : β} :
    (x >>= f) = .ok b ↔ ∃ a, x = .ok a ∧ f a = .ok b := by
  constructor
  · exact bind_eq_ok
  · rintro ⟨a, hx, hf⟩
    rw [bind_of_ok hx, hf]

def checkedAdd (a b : ℕ) : Option ℕ := if a + b < 2 ^ 64 then some (a + b) else none

theorem checkedAdd_of_lt {a b : ℕ} (h : a + b < 2 ^ 64) : checkedAdd a b = some (a + b) :=
  if_pos h

theorem checkedAdd_of_le {a b : ℕ} (h : 2 ^ 64 ≤ a + b) : checkedAdd a b = none :=
  if_neg (by omega)

theorem checkedAdd_eq_some {a b c : ℕ} (h : checkedAdd a b = some c) : a + b = c := by
  simp only [checkedAdd, Option.ite_none_right_eq_some, Option.some.injEq] at h
  exact h.2

def divCeil (a b : ℕ) : ℕ := if 0 < a % b then a / b + 1 else a / b

variable {ε δ α β γ ζ : Type} {R : α → β → Prop} {Q : γ → ζ → Prop}
variable {x : Except ε α} {y : Except δ β}

/-- Two computations that fail together, whatever their errors, or give related values. -/
inductive SameOutcome (R : α → β → Prop) : Except ε α → Except δ β → Prop
  | error (e : ε) (d : δ) : SameOutcome R (.error e) (.error d)
  | ok {a : α} {b : β} (h : R a b) : SameOutcome R (.ok a) (.ok b)

theorem SameOutcome.elim (h : SameOutcome R x y) :
    (∃ e d, x = .error e ∧ y = .error d) ∨ ∃ a b, x = .ok a ∧ y = .ok b ∧ R a b := by
  cases h with
  | error e d => exact .inl ⟨e, d, rfl, rfl⟩
  | ok h => exact .inr ⟨_, _, rfl, rfl, h⟩

theorem SameOutcome.bind {f : α → Except ε γ} {g : β → Except δ ζ} (h : SameOutcome R x y)
    (hnext : ∀ a b, R a b → SameOutcome Q (f a) (g b)) : SameOutcome Q (x >>= f) (y >>= g) := by
  cases h with
  | error e d => exact .error e d
  | ok h => exact hnext _ _ h

theorem SameOutcome.with_left (h : SameOutcome R x y) :
    SameOutcome (fun a b => x = .ok a ∧ R a b) x y := by
  cases h with
  | error e d => exact .error e d
  | ok h => exact .ok ⟨rfl, h⟩

theorem SameOutcome.check {p q : Prop} [Decidable p] [Decidable q] (hpq : p ↔ q) (e : ε) (d : δ)
    (h : ¬ p → SameOutcome R x y) :
    SameOutcome R (if p then .error e else x) (if q then .error d else y) := by
  by_cases hp : p
  · rw [if_pos hp, if_pos (hpq.mp hp)]
    exact .error e d
  · rw [if_neg hp, if_neg (mt hpq.mpr hp)]
    exact h hp

end Mst5Client.IoResult
