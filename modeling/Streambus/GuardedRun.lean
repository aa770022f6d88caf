/-
Runs of a state machine under a condition on its steps.  A property that
holds at the start and is kept by every allowed step holds after every run
whose steps are all allowed.
-/
import Mathlib.Tactic

namespace Streambus

universe u v w

variable {σ : Type u} {ι : Type v}

/-- The state after a list of operations. -/
def runSteps (step : σ → ι → σ) (state : σ) (ops : List ι) : σ :=
  ops.foldl step state

/-- Every operation is allowed in the state it starts from. -/
def AllAllowed (step : σ → ι → σ) (allowed : σ → ι → Prop) : σ → List ι → Prop
  | _, [] => True
  | state, op :: ops =>
    allowed state op ∧ AllAllowed step allowed (step state op) ops

instance decidableAllAllowed {step : σ → ι → σ} {allowed : σ → ι → Prop}
    [∀ state op, Decidable (allowed state op)] :
    (state : σ) → (ops : List ι) → Decidable (AllAllowed step allowed state ops)
  | _, [] => isTrue trivial
  | state, op :: ops =>
    @instDecidableAnd _ _ inferInstance (decidableAllAllowed (step state op) ops)

variable {step : σ → ι → σ} {allowed : σ → ι → Prop} {state : σ} {ops : List ι}
  (inv : σ → Prop) {other : σ → ι → Prop}

/-- What every allowed step keeps holds after every allowed run. -/
theorem AllAllowed.invariant
    (hstep : ∀ state op, inv state → allowed state op → inv (step state op))
    (hallowed : AllAllowed step allowed state ops) (hstart : inv state) :
    inv (runSteps step state ops) := by
  induction ops generalizing state with
  | nil => exact hstart
  | cons op ops ih =>
    obtain ⟨hop, hops⟩ := hallowed
    exact ih hops (hstep state op hstart hop)

/-- What every step keeps holds after every run. -/
theorem runSteps_invariant (hstep : ∀ state op, inv state → inv (step state op))
    (hstart : inv state) (ops : List ι) : inv (runSteps step state ops) := by
  induction ops generalizing state with
  | nil => exact hstart
  | cons op ops ih => exact ih (hstep state op hstart)

/-- What every step keeps holds before each step of a run. -/
theorem AllAllowed.of_invariant {inv : σ → Prop}
    (hstep : ∀ state op, inv state → inv (step state op)) (hstart : inv state)
    (ops : List ι) :
    AllAllowed step (fun state _ => inv state) state ops := by
  induction ops generalizing state with
  | nil => trivial
  | cons op ops ih => exact ⟨hstart, ih (hstep state op hstart)⟩

theorem AllAllowed.and (hallowed : AllAllowed step allowed state ops)
    (hother : AllAllowed step other state ops) :
    AllAllowed step (fun state op => allowed state op ∧ other state op)
      state ops := by
  induction ops generalizing state with
  | nil => trivial
  | cons op ops ih =>
    exact ⟨⟨hallowed.1, hother.1⟩, ih hallowed.2 hother.2⟩

/-- Conditions that agree on the steps of a run hold of it together. -/
theorem AllAllowed.congr {guard : σ → ι → Prop}
    (hiff : ∀ state op, guard state op → (allowed state op ↔ other state op))
    (hguard : AllAllowed step guard state ops) :
    AllAllowed step allowed state ops ↔ AllAllowed step other state ops := by
  induction ops generalizing state with
  | nil => exact Iff.rfl
  | cons op ops ih =>
    obtain ⟨hop, hops⟩ := hguard
    exact and_congr (hiff state op hop) (ih hops)

/-- A condition that an allowed step meets in every state that an allowed run
can reach is met by all steps of such a run. -/
theorem AllAllowed.imp
    (himp : ∀ state op, inv state → allowed state op → other state op)
    (hstep : ∀ state op, inv state → allowed state op → inv (step state op))
    (hallowed : AllAllowed step allowed state ops) (hstart : inv state) :
    AllAllowed step other state ops := by
  induction ops generalizing state with
  | nil => trivial
  | cons op ops ih =>
    obtain ⟨hop, hops⟩ := hallowed
    exact ⟨himp state op hstart hop, ih hops (hstep state op hstart hop)⟩

/-- Two conditions that agree in every state that a run under the second can
reach allow the same runs. -/
theorem allAllowed_iff (hiff : ∀ op ∈ ops, ∀ state, inv state →
      (allowed state op ↔ other state op))
    (hstep : ∀ op ∈ ops, ∀ state, inv state → other state op →
      inv (step state op)) (hstart : inv state) :
    AllAllowed step allowed state ops ↔ AllAllowed step other state ops := by
  induction ops generalizing state with
  | nil => exact Iff.rfl
  | cons op ops ih =>
    obtain ⟨hhead, htail⟩ := List.forall_mem_cons.mp hiff
    obtain ⟨hnext, hrest⟩ := List.forall_mem_cons.mp hstep
    simp only [AllAllowed, hhead state hstart]
    exact and_congr_right fun hop =>
      ih htail hrest (hnext state hstart hop)

theorem runSteps_append (step : σ → ι → σ) (state : σ) (front back : List ι) :
    runSteps step state (front ++ back) =
      runSteps step (runSteps step state front) back :=
  List.foldl_append

theorem allAllowed_append {front back : List ι} :
    AllAllowed step allowed state (front ++ back) ↔
      AllAllowed step allowed state front ∧
        AllAllowed step allowed (runSteps step state front) back := by
  induction front generalizing state with
  | nil => simp [AllAllowed, runSteps]
  | cons op ops ih =>
    simp only [List.cons_append, AllAllowed, ih, and_assoc]
    rfl

/-- What relates every two neighbouring states of an allowed run relates its
first and last. -/
theorem AllAllowed.related (rel : σ → σ → Prop) (hrefl : ∀ state, rel state state)
    (htrans : ∀ first second third, rel first second → rel second third →
      rel first third)
    (hstep : ∀ state op, inv state → allowed state op →
      inv (step state op) ∧ rel state (step state op))
    (hallowed : AllAllowed step allowed state ops) (hstart : inv state) :
    rel state (runSteps step state ops) := by
  induction ops generalizing state with
  | nil => exact hrefl state
  | cons op ops ih =>
    obtain ⟨hop, hops⟩ := hallowed
    obtain ⟨hnext, hrel⟩ := hstep state op hstart hop
    exact htrans _ _ _ hrel (ih hops hnext)

/-- A machine that follows every allowed step of another follows all its
allowed runs. -/
theorem AllAllowed.simulates {τ : Type w} {next : τ → ι → τ} {spec : τ}
    (rel : σ → τ → Prop)
    (hstep : ∀ state spec op, rel state spec → allowed state op →
      rel (step state op) (next spec op))
    (hallowed : AllAllowed step allowed state ops) (hstart : rel state spec) :
    rel (runSteps step state ops) (runSteps next spec ops) := by
  induction ops generalizing state spec with
  | nil => exact hstart
  | cons op ops ih =>
    obtain ⟨hop, hops⟩ := hallowed
    exact ih hops (hstep state spec op hstart hop)

/-- A part of the state that every step changes by itself depends only on the
steps that touch it. -/
theorem runSteps_filter {τ : Type w} (view : σ → τ) {next : τ → ι → τ}
    (hview : ∀ state op, next (view state) op = view (step state op))
    (touches : ι → Bool)
    (hskip : ∀ part op, touches op = false → next part op = part) :
    view (runSteps step state ops) =
      view (runSteps step state (ops.filter touches)) := by
  have hnext : (fun part op => if touches op then next part op else part) =
      next := by
    funext part op
    cases htouches : touches op with
    | true => rfl
    | false => exact (hskip part op htouches).symm
  rw [runSteps, runSteps, ← List.foldl_hom view hview,
    ← List.foldl_hom view hview, List.foldl_filter, hnext]

end Streambus
