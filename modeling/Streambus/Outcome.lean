/-
Programs that may panic.  A program passes a state along and either returns a
value or panics, which ends it; a total program returns from every state.
-/
import Mathlib.Tactic

namespace Streambus

/-- A computation returns a value or panics. -/
inductive Outcome (α : Type) where
  | returned (value : α)
  | panicked
deriving Repr, DecidableEq

namespace Outcome

instance : Monad Outcome where
  pure := returned
  bind outcome next :=
    match outcome with
    | returned value => next value
    | panicked => panicked

instance : LawfulMonad Outcome :=
  LawfulMonad.mk' Outcome (fun outcome => by cases outcome <;> rfl)
    (fun _ _ => rfl) (fun outcome _ _ => by cases outcome <;> rfl)

variable {α β : Type} {outcome : Outcome α}

theorem bind_eq_returned {next : α → Outcome β} {result : β} :
    outcome >>= next = .returned result ↔
      ∃ value, outcome = .returned value ∧ next value = .returned result := by
  cases outcome with
  | returned value =>
    constructor
    · exact fun hnext => ⟨value, rfl, hnext⟩
    · rintro ⟨other, hvalue, hnext⟩
      cases hvalue
      exact hnext
  | panicked =>
    constructor
    · exact fun hnext => nomatch hnext
    · rintro ⟨_, hvalue, _⟩
      cases hvalue

theorem ne_panicked_iff :
    outcome ≠ .panicked ↔ ∃ value, outcome = .returned value := by
  cases outcome <;> simp

end Outcome

/-- A program over a state. -/
abbrev Program (σ α : Type) := StateT σ Outcome α

namespace Program

variable {σ α β : Type}

/-- A program that panics. -/
def panic : Program σ α := fun _ => .panicked

@[simp] theorem run_pure (value : α) (state : σ) :
    (pure value : Program σ α) state = .returned (value, state) := rfl

variable {next : α → Program σ β} {program : Program σ α} {state : σ}

theorem run_bind {after : σ} {value : α}
    (hrun : program state = .returned (value, after)) :
    (program >>= next) state = next value after := by
  change program state >>= (fun result => next result.1 result.2) = _
  rw [hrun]
  rfl

theorem run_bind_panicked (hrun : program state = .panicked) :
    (program >>= next) state = .panicked := by
  change program state >>= (fun result => next result.1 result.2) = _
  rw [hrun]
  rfl

theorem bind_eq_returned {result : β × σ} :
    (program >>= next) state = .returned result ↔
      ∃ value after, program state = .returned (value, after) ∧
        next value after = .returned result := by
  change program state >>= (fun result => next result.1 result.2) = _ ↔ _
  rw [Outcome.bind_eq_returned, Prod.exists]

/-- Run a program a number of times and collect what it returns. -/
def replicate : Nat → Program σ α → Program σ (List α)
  | 0, _ => pure []
  | count + 1, program => do
      let value ← program
      let values ← replicate count program
      return value :: values

/-- Run a program for every element of a list. -/
def forEach (action : α → Program σ Unit) : List α → Program σ Unit
  | [] => pure ()
  | value :: values => do
      action value
      forEach action values

/-- A program that never panics. -/
class Total (program : Program σ α) : Prop where
  returns : ∀ state, ∃ result, program state = .returned result

instance total_pure (value : α) : Total (pure value : Program σ α) :=
  ⟨fun state => ⟨(value, state), rfl⟩⟩

instance total_bind (program : Program σ α) (next : α → Program σ β)
    [hprogram : Total program] [hnext : ∀ value, Total (next value)] :
    Total (program >>= next) where
  returns state := by
    obtain ⟨⟨value, after⟩, hrun⟩ := hprogram.returns state
    rw [run_bind hrun]
    exact (hnext value).returns after

/-- A program that goes on with a total one returns if it does. -/
theorem returns_bind_iff [hnext : ∀ value, Total (next value)] :
    (∃ result, (program >>= next) state = .returned result) ↔
      ∃ result, program state = .returned result := by
  constructor
  · rintro ⟨result, hresult⟩
    obtain ⟨value, after, hrun, _⟩ := bind_eq_returned.mp hresult
    exact ⟨_, hrun⟩
  · rintro ⟨⟨value, after⟩, hrun⟩
    rw [run_bind hrun]
    exact (hnext value).returns after

instance total_ite (condition : Prop) [Decidable condition]
    (yes no : Program σ α) [Total yes] [Total no] :
    Total (if condition then yes else no) := by
  split <;> infer_instance

instance total_replicate (count : Nat) (program : Program σ α)
    [Total program] : Total (replicate count program) := by
  induction count with
  | zero => exact total_pure []
  | succ count ih =>
    unfold replicate
    infer_instance

end Program

end Streambus
