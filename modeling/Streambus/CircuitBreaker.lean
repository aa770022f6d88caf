/-
Circuit breakers.  A breaker opens after failures in a row, lets calls through
again after a while, and closes after successes in a row.  Calls overlap, and
the results are counted whenever they come in; so a success counts towards
closing even if its call was admitted before the breaker opened.
-/
import Streambus.GuardedRun

namespace Streambus.Resilience

inductive State
  | stateClosed
  | stateOpen
  | stateHalfOpen
deriving DecidableEq

open State

structure Config where
  maxFailures : UInt32
  timeout : Int
  maxRequestsHalfOpen : UInt32

def defaultConfig : Config := ⟨5, 30 * 10 ^ 9, 3⟩

/-- Times that were not set yet are missing. -/
structure CircuitBreaker where
  state : State
  totalRequests : UInt64
  totalSuccesses : UInt64
  totalFailures : UInt64
  consecutiveSuccesses : UInt32
  consecutiveFailures : UInt32
  lastStateChange : Int
  lastFailure : Option Int
  openUntil : Option Int

namespace CircuitBreaker

variable (config : Config) (cb : CircuitBreaker) (now : Int)

def new : CircuitBreaker := ⟨stateClosed, 0, 0, 0, 0, 0, now, none, none⟩

def setState (newState : State) : CircuitBreaker :=
  if cb.state = newState then cb
  else
    let changed := { cb with state := newState, lastStateChange := now }
    if newState = stateClosed then
      { changed with consecutiveFailures := 0, consecutiveSuccesses := 0 }
    else changed

/-- Whether the call may proceed. -/
def beforeCall : CircuitBreaker × Bool :=
  let counted := { cb with totalRequests := cb.totalRequests + 1 }
  match cb.state with
  | stateClosed => (counted, true)
  | stateOpen =>
    if cb.openUntil.all (· < now) then
      (counted.setState now stateHalfOpen, true)
    else (counted, false)
  | stateHalfOpen => (counted, true)

def onSuccess : CircuitBreaker :=
  let counted := { cb with
    totalSuccesses := cb.totalSuccesses + 1
    consecutiveSuccesses := cb.consecutiveSuccesses + 1
    consecutiveFailures := 0 }
  match cb.state with
  | stateClosed => counted
  | stateHalfOpen =>
    if counted.consecutiveSuccesses ≥ config.maxRequestsHalfOpen then
      counted.setState now stateClosed
    else counted
  | stateOpen => counted

def onFailure : CircuitBreaker :=
  let counted := { cb with
    totalFailures := cb.totalFailures + 1
    consecutiveFailures := cb.consecutiveFailures + 1
    consecutiveSuccesses := 0
    lastFailure := some now }
  let openUntil := some (now + config.timeout)
  match cb.state with
  | stateClosed =>
    if counted.consecutiveFailures ≥ config.maxFailures then
      { counted.setState now stateOpen with openUntil }
    else counted
  | stateHalfOpen => { counted.setState now stateOpen with openUntil }
  | stateOpen => { counted with openUntil }

def afterCall (succeeded : Bool) : CircuitBreaker :=
  if succeeded then cb.onSuccess config now else cb.onFailure config now

end CircuitBreaker

/-- What happens at a breaker.  Of the call that succeeded it is noted how
many changes of state there had been when it was admitted. -/
inductive Record
  | succeeded (admitted : Nat)
  | failed
  | changed (old new : State)
deriving DecidableEq

namespace Record

def isSuccess : Record → Bool
  | succeeded _ => true
  | _ => false

def isChange : Record → Bool
  | changed _ _ => true
  | _ => false

def changesTo (state : State) : Record → Bool
  | changed _ new => new = state
  | _ => false

end Record

open List Record

/-- The newest record comes first. -/
abbrev History := List Record

namespace History

variable (history : History)

def changes : Nat := history.countP isChange

/-- What happened since the last change to a state. -/
def since (state : State) : History :=
  history.takeWhile fun record => !record.changesTo state

/-- The successes since the last failure. -/
def successes : Nat :=
  (history.takeWhile (· ≠ failed)).countP isSuccess

/-- The failures in a row, up to now, since the breaker closed. -/
def failures : Nat :=
  ((history.since stateClosed).takeWhile (· = failed)).length

/-- The successes in this half-open period of calls admitted in it. -/
def ownSuccesses : Nat :=
  (history.since stateHalfOpen).count (succeeded history.changes)

/-- A property of what happened before each change from one state to another. -/
def BeforeEach (old new : State) (prop : History → Prop) : History → Prop
  | [] => True
  | record :: before =>
    (record = changed old new → prop before) ∧ BeforeEach old new prop before

variable (config : Config)

def ClosesOnEvidence : Prop :=
  history.BeforeEach stateHalfOpen stateClosed fun before =>
    config.maxRequestsHalfOpen.toNat ≤ before.ownSuccesses ∧
      failed ∉ before.since stateHalfOpen

def OpensOnFailures : Prop :=
  history.BeforeEach stateClosed stateOpen fun before =>
    config.maxFailures.toNat ≤ before.failures

/-- Whenever the breaker closes, every success since the last failure is of a
call admitted in the half-open period. -/
def Undiluted : Prop :=
  history.BeforeEach stateHalfOpen stateClosed fun before =>
    before.successes ≤ before.ownSuccesses

end History

/-- A breaker, the calls under way, each with the changes of state there had
been when it was admitted, and what happened so far. -/
structure Run where
  breaker : CircuitBreaker
  calls : List Nat
  history : History

inductive CallStep
  | start (now : Int)
  | finish (index : Nat) (succeeded : Bool) (now : Int)

namespace Run

variable (config : Config) (run : Run)

def start (now : Int) : Run := ⟨.new now, [], []⟩

def moveTo (next : CircuitBreaker) : Run :=
  { run with
    breaker := next
    history :=
      if next.state = run.breaker.state then run.history
      else changed run.breaker.state next.state :: run.history }

def step : CallStep → Run
  | .start now =>
    let (next, admitted) := run.breaker.beforeCall now
    let moved := run.moveTo next
    if admitted then
      { moved with calls := moved.history.changes :: moved.calls }
    else moved
  | .finish index success now =>
    match run.calls[index]? with
    | none => run
    | some admitted =>
      let record := if success then succeeded admitted else failed
      { run with
        calls := run.calls.eraseIdx index
        history := record :: run.history }.moveTo
          (run.breaker.afterCall config now success)

end Run

/-- What the counters of a breaker say about its history. -/
structure Counted (config : Config) (state : State)
    (successes failures : UInt32) (history : History) : Prop where
  successes_eq : state ≠ stateClosed → successes.toNat = history.successes % 2 ^ 32
  failures_le : state = stateClosed → failures.toNat ≤ history.failures
  unfailed : state = stateHalfOpen → failed ∉ history.since stateHalfOpen
  pending : state = stateHalfOpen → (history.since stateHalfOpen).any isSuccess →
      successes < config.maxRequestsHalfOpen
  opens : history.OpensOnFailures config
  closes : history.BeforeEach stateHalfOpen stateClosed fun before =>
    (config.maxRequestsHalfOpen.toNat ≤ before.successes ∧
      failed ∉ before.since stateHalfOpen) ∧
    (2 ≤ config.maxRequestsHalfOpen.toNat → before.length < 2 ^ 32 →
      config.maxRequestsHalfOpen.toNat ≤ before.ownSuccesses →
        before.successes ≤ before.ownSuccesses)

namespace History

variable (history : History) (state old new : State) (admitted : Nat)

@[simp] theorem since_succeeded : since (succeeded admitted :: history) state =
    succeeded admitted :: history.since state := by
  simp [since, changesTo]

@[simp] theorem since_failed :
    since (failed :: history) state = failed :: history.since state := by
  simp [since, changesTo]

@[simp] theorem since_changed : since (changed old state :: history) state = [] := by
  simp [since, changesTo]

@[simp] theorem successes_succeeded :
    successes (succeeded admitted :: history) = history.successes + 1 := by
  simp [successes, countP_cons, isSuccess]

@[simp] theorem successes_failed : successes (failed :: history) = 0 := by
  simp [successes]

@[simp] theorem successes_changed :
    successes (changed old new :: history) = history.successes := by
  simp [successes, isSuccess]

@[simp] theorem failures_failed :
    failures (failed :: history) = history.failures + 1 := by
  simp [failures]

theorem successes_le_length : history.successes ≤ history.length :=
  countP_le_length.trans (takeWhile_sublist _).length_le

/-- A period without a success has one of its own with the next at most. -/
theorem ownSuccesses_le_one (hnone : ¬ (history.since stateHalfOpen).any isSuccess) :
    ownSuccesses (succeeded admitted :: history) ≤ 1 := by
  rw [ownSuccesses, since_succeeded, count_cons, count_eq_zero.mpr]
  · split <;> simp
  · intro hmem
    exact hnone (any_eq_true.mpr ⟨_, hmem, rfl⟩)

end History

theorem toNat_succ_le {count : UInt32} {bound : Nat}
    (hcount : count.toNat ≤ bound) : (count + 1).toNat ≤ bound + 1 := by
  rw [UInt32.toNat_add]
  exact (Nat.mod_le _ _).trans (Nat.succ_le_succ hcount)

namespace Counted

open History

variable {config : Config} {state : State} {successes failures : UInt32}
  {history : History}
  (hcounted : Counted config state successes failures history)

include hcounted

theorem halfOpens (hopen : state = stateOpen) :
    Counted config stateHalfOpen successes failures
      (changed stateOpen stateHalfOpen :: history) where
  successes_eq _ := by simpa [hopen] using hcounted.successes_eq
  failures_le := by simp
  unfailed := by simp
  pending := by simp
  opens := ⟨by simp, hcounted.opens⟩
  closes := ⟨by simp, hcounted.closes⟩

theorem succeeds (admitted : Nat) (hpending : state = stateHalfOpen →
      successes + 1 < config.maxRequestsHalfOpen) :
    Counted config state (successes + 1) 0 (succeeded admitted :: history) where
  successes_eq hstate := by
    rw [successes_succeeded, UInt32.toNat_add, hcounted.successes_eq hstate]
    simp
  failures_le := by simp
  unfailed hstate := by simpa using hcounted.unfailed hstate
  pending hstate _ := hpending hstate
  opens := ⟨by simp, hcounted.opens⟩
  closes := ⟨by simp, hcounted.closes⟩

theorem closesAfter (admitted : Nat) (hhalf : state = stateHalfOpen)
    (hmax : config.maxRequestsHalfOpen ≤ successes + 1) :
    Counted config stateClosed 0 0
      (changed stateHalfOpen stateClosed :: succeeded admitted :: history) where
  successes_eq := by simp
  failures_le := by simp
  unfailed := by simp
  pending := by simp
  opens := ⟨by simp, by simp, hcounted.opens⟩
  closes := by
    have hexact := hcounted.successes_eq (by simp [hhalf])
    refine ⟨fun _ => ⟨⟨?_, ?_⟩, fun htwo hlength hown => ?_⟩, by simp,
      hcounted.closes⟩
    · rw [successes_succeeded]
      exact (UInt32.le_iff_toNat_le.mp hmax).trans
        (toNat_succ_le (hexact.trans_le (Nat.mod_le _ _)))
    · simpa using hcounted.unfailed hhalf
    · -- an earlier success of the period was not enough to close
      by_cases hany : (history.since stateHalfOpen).any isSuccess
      · have hless := UInt32.lt_iff_toNat_lt.mp (hcounted.pending hhalf hany)
        have hbound := history.successes_le_length
        rw [length_cons] at hlength
        rw [Nat.mod_eq_of_lt (by omega)] at hexact
        rw [successes_succeeded]
        omega
      · have := history.ownSuccesses_le_one admitted hany
        omega

theorem fails (hstate : state ≠ stateHalfOpen) :
    Counted config state 0 (failures + 1) (failed :: history) where
  successes_eq := by simp
  failures_le hclosed := by
    rw [failures_failed]
    exact toNat_succ_le (hcounted.failures_le hclosed)
  unfailed hhalf := absurd hhalf hstate
  pending hhalf := absurd hhalf hstate
  opens := ⟨by simp, hcounted.opens⟩
  closes := ⟨by simp, hcounted.closes⟩

theorem opensAfter (hmax : state = stateClosed →
      config.maxFailures ≤ failures + 1) (failures' : UInt32) :
    Counted config stateOpen 0 failures'
      (changed state stateOpen :: failed :: history) where
  successes_eq := by simp
  failures_le := by simp
  unfailed := by simp
  pending := by simp
  opens := by
    refine ⟨fun hchange => ?_, by simp, hcounted.opens⟩
    have hclosed : state = stateClosed := by simpa using hchange
    dsimp only
    rw [failures_failed]
    exact (UInt32.le_iff_toNat_le.mp (hmax hclosed)).trans
      (toNat_succ_le (hcounted.failures_le hclosed))
  closes := ⟨by simp, by simp, hcounted.closes⟩

end Counted

namespace Run

variable {config : Config} {run : Run}

open CircuitBreaker

/-- The counters of a run are right about its history. -/
def Sound (config : Config) (run : Run) : Prop :=
  Counted config run.breaker.state run.breaker.consecutiveSuccesses
    run.breaker.consecutiveFailures run.history

theorem sound_start (now : Int) : (start now).Sound config := by
  constructor <;> simp [start, new, History.OpensOnFailures, History.BeforeEach]

theorem Sound.step (hsound : run.Sound config) (op : CallStep) :
    (run.step config op).Sound config := by
  obtain ⟨⟨state, requests, totalSuccesses, totalFailures, successes, failures,
    lastChange, lastFailure, openUntil⟩, calls, history⟩ := run
  change Counted config state successes failures history at hsound
  cases op with
  | start now =>
    cases state with
    | stateClosed => exact hsound
    | stateHalfOpen => exact hsound
    | stateOpen =>
      simp only [Run.step, beforeCall]
      split
      · exact hsound.halfOpens rfl
      · exact hsound
  | finish index success now =>
    simp only [Run.step]
    split
    · exact hsound
    · rename_i admitted _
      cases success with
      | true =>
        cases state with
        | stateClosed => exact hsound.succeeds admitted (by simp)
        | stateOpen => exact hsound.succeeds admitted (by simp)
        | stateHalfOpen =>
          simp only [afterCall, onSuccess, ↓reduceIte]
          split
          next hmax => exact hsound.closesAfter admitted rfl hmax
          next hmax =>
            exact hsound.succeeds admitted fun _ => UInt32.not_le.mp hmax
      | false =>
        cases state with
        | stateClosed =>
          simp only [afterCall, onFailure, Bool.false_eq_true, ↓reduceIte]
          split
          next hmax => exact hsound.opensAfter (fun _ => hmax) _
          next => exact hsound.fails (by simp)
        | stateOpen => exact hsound.fails (by simp)
        | stateHalfOpen => exact hsound.opensAfter (by simp) _

end Run

theorem History.BeforeEach.imp {history : History} {old new : State}
    {first second third : History → Prop}
    (himp : ∀ before, before.length < history.length → first before →
      second before → third before)
    (hfirst : history.BeforeEach old new first)
    (hsecond : history.BeforeEach old new second) :
    history.BeforeEach old new third := by
  induction history with
  | nil => trivial
  | cons record rest ih =>
    refine ⟨fun hchange => himp rest (Nat.lt_succ_self _) (hfirst.1 hchange)
      (hsecond.1 hchange), ih ?_ hfirst.2 hsecond.2⟩
    exact fun before hlength => himp before (hlength.trans (Nat.lt_succ_self _))

namespace Run

/-- A breaker opens on failures in a row only.  It closes on evidence if no
success of an earlier call counts, and otherwise not, unless one success is
enough or the counter has wrapped around. -/
theorem opens_and_closes (config : Config) (now : Int) (ops : List CallStep) :
    let history := (runSteps (step config) (start now) ops).history
    history.OpensOnFailures config ∧
      (history.Undiluted → history.ClosesOnEvidence config) ∧
      (2 ≤ config.maxRequestsHalfOpen.toNat → history.length < 2 ^ 32 →
        history.ClosesOnEvidence config → history.Undiluted) := by
  have hsound := runSteps_invariant (Sound config)
    (fun _ op hsound => hsound.step op) (sound_start now) ops
  refine ⟨hsound.opens, fun hundiluted => ?_, fun htwo hlength hevidence => ?_⟩
  · refine hsound.closes.imp ?_ hundiluted
    rintro before - ⟨⟨hmax, hunfailed⟩, -⟩ hown
    exact ⟨hmax.trans hown, hunfailed⟩
  · refine hsound.closes.imp ?_ hevidence
    rintro before hshorter ⟨-, hown⟩ ⟨hmax, -⟩
    exact hown htwo (hshorter.trans hlength) hmax

/-- Five calls fail, and when the timeout is over three succeed. -/
def recovery : List CallStep :=
  List.replicate 5 (.start 0) ++ List.replicate 5 (.finish 0 false 1) ++
    List.replicate 3 (.start 30000000002) ++
    List.replicate 3 (.finish 0 true 30000000003)

theorem opens_and_closes_recovery :
    let history := (runSteps (step defaultConfig) (start 0) recovery).history
    changed stateHalfOpen stateClosed ∈ history ∧ history.Undiluted ∧
      history.ClosesOnEvidence defaultConfig := by
  have hhistory : (runSteps (step defaultConfig) (start 0) recovery).history =
      [changed stateHalfOpen stateClosed, succeeded 2, succeeded 2, succeeded 2,
        changed stateOpen stateHalfOpen, changed stateClosed stateOpen] ++
        List.replicate 5 failed := by
    decide +kernel
  have hundiluted : (runSteps (step defaultConfig) (start 0)
      recovery).history.Undiluted := by
    rw [hhistory]
    refine ⟨fun _ => by decide, ?_⟩
    simp [History.BeforeEach]
  refine ⟨by rw [hhistory]; simp, hundiluted, ?_⟩
  exact (opens_and_closes defaultConfig 0 recovery).2.1 hundiluted

/-- Eight calls are under way when five of them fail.  Two of the others
succeed while the breaker is open, and one after it has let a ninth through. -/
def lateSuccesses : List CallStep :=
  List.replicate 8 (.start 0) ++ List.replicate 5 (.finish 0 false 1) ++
    [.finish 0 true 2, .finish 0 true 3, .start 30000000002, .finish 1 true
      30000000003]

/-- The breaker closes before the ninth call, which it was to learn from, has
come back. -/
theorem not_closesOnEvidence_lateSuccesses :
    ¬ (runSteps (step defaultConfig) (start 0)
      lateSuccesses).history.ClosesOnEvidence defaultConfig := by
  have hhistory : (runSteps (step defaultConfig) (start 0)
      lateSuccesses).history = [changed stateHalfOpen stateClosed, succeeded 0,
        changed stateOpen stateHalfOpen, succeeded 0, succeeded 0,
        changed stateClosed stateOpen] ++ List.replicate 5 failed := by
    decide +kernel
  rw [hhistory]
  rintro ⟨hcloses, -⟩
  exact absurd (hcloses rfl).1 (by decide)

end Run

namespace CircuitBreaker

variable (config : Config) (cb : CircuitBreaker)

/-- An open breaker lets a call through exactly if the timeout after the last
failure is over. -/
def WaitsOut (lastFailure : Option Int) : Prop :=
  cb.state = stateOpen → ∃ failure, lastFailure = some failure ∧
    ∀ now, (cb.beforeCall now).2 = true ↔ failure + config.timeout < now

/-- The wait of an open breaker is counted from the last failure. -/
def Timed : Prop :=
  cb.state = stateOpen → ∃ failure, cb.lastFailure = some failure ∧
    cb.openUntil = some (failure + config.timeout)

variable {config cb}

theorem Timed.waitsOut (htimed : cb.Timed config) :
    cb.WaitsOut config cb.lastFailure := by
  intro hopen
  obtain ⟨failure, hfailure, huntil⟩ := htimed hopen
  refine ⟨failure, hfailure, fun now => ?_⟩
  by_cases hover : failure + config.timeout < now <;>
    simp [beforeCall, hopen, huntil, hover]

theorem Timed.beforeCall (htimed : cb.Timed config) (now : Int) :
    (cb.beforeCall now).1.Timed config := by
  unfold CircuitBreaker.beforeCall
  cases hstate : cb.state with
  | stateClosed | stateHalfOpen => simp [Timed]
  | stateOpen =>
    dsimp only
    split
    · simp [Timed, setState]
    · exact fun _ => htimed hstate

theorem Timed.onSuccess (htimed : cb.Timed config) (now : Int) :
    (cb.onSuccess config now).Timed config := by
  unfold CircuitBreaker.onSuccess
  cases hstate : cb.state with
  | stateClosed => simp [Timed]
  | stateHalfOpen =>
    dsimp only
    split <;> simp [Timed, setState]
  | stateOpen => exact fun _ => htimed hstate

@[simp] theorem lastFailure_setState (now : Int) (state : State) :
    (cb.setState now state).lastFailure = cb.lastFailure := by
  unfold setState
  split
  · rfl
  · cases state <;> rfl

/-- A failure that leaves a breaker open sets the wait anew. -/
theorem timed_onFailure (now : Int) : (cb.onFailure config now).Timed config := by
  unfold onFailure
  cases cb.state with
  | stateClosed =>
    dsimp only
    split <;> simp [Timed, setState]
  | stateHalfOpen | stateOpen => simp [Timed, setState]

end CircuitBreaker

namespace Run

theorem timed_step {config : Config} {run : Run}
    (htimed : run.breaker.Timed config) (op : CallStep) :
    (run.step config op).breaker.Timed config := by
  cases op with
  | start now =>
    simp only [step]
    split <;> exact htimed.beforeCall now
  | finish index success now =>
    simp only [step]
    split
    · exact htimed
    · cases success with
      | true => exact htimed.onSuccess now
      | false => exact CircuitBreaker.timed_onFailure now

/-- The time of the failure that a step reports, if it reports one. -/
def failure (run : Run) : CallStep → Option Int
  | .finish index false now =>
    if index < run.calls.length then some now else none
  | _ => none

/-- The time of the last failure that was reported along a run. -/
def lastFailed (config : Config) (run : Run) (last : Option Int) :
    List CallStep → Option Int
  | [] => last
  | op :: ops =>
    lastFailed config (run.step config op) ((run.failure op).or last) ops

theorem lastFailure_step (config : Config) (run : Run) (op : CallStep) :
    (run.step config op).breaker.lastFailure =
      (run.failure op).or run.breaker.lastFailure := by
  cases op with
  | start now =>
    have hkept : (run.breaker.beforeCall now).1.lastFailure =
        run.breaker.lastFailure := by
      simp only [CircuitBreaker.beforeCall]
      split
      · rfl
      · split <;> simp
      · rfl
    simp only [step]
    split <;> exact hkept
  | finish index success now =>
    simp only [step]
    split
    next hnone =>
      rw [List.getElem?_eq_none_iff, ← not_lt] at hnone
      cases success <;> simp [failure, hnone]
    next hsome =>
      obtain ⟨hindex, -⟩ := List.getElem?_eq_some_iff.mp hsome
      cases success with
      | true =>
        change (run.breaker.onSuccess config now).lastFailure = _
        simp only [CircuitBreaker.onSuccess]
        split
        · rfl
        · split <;> simp [failure]
        · rfl
      | false =>
        simp only [failure, if_pos hindex, Option.some_or]
        change (run.breaker.onFailure config now).lastFailure = _
        simp only [CircuitBreaker.onFailure]
        split
        · split <;> simp
        · simp
        · rfl

theorem lastFailure_runSteps (config : Config) (run : Run) (ops : List CallStep) :
    (runSteps (step config) run ops).breaker.lastFailure =
      run.lastFailed config run.breaker.lastFailure ops := by
  induction ops generalizing run with
  | nil => rfl
  | cons op ops ih =>
    rw [lastFailed, ← lastFailure_step]
    exact ih (run.step config op)

/-- However calls overlap, an open breaker admits a call exactly when the
timeout after the last failure that was reported is over. -/
theorem waitsOut_runSteps (config : Config) (now : Int) (ops : List CallStep) :
    (runSteps (step config) (start now) ops).breaker.WaitsOut config
      ((start now).lastFailed config none ops) := by
  have hclosed : (start now).breaker.Timed config := fun hopen => by cases hopen
  have htimed := runSteps_invariant (fun run : Run => run.breaker.Timed config)
    (fun _ op htimed => timed_step htimed op) hclosed ops
  have hlast : _ = (start now).lastFailed config none ops :=
    lastFailure_runSteps config (start now) ops
  rw [← hlast]
  exact htimed.waitsOut

end Run

end Streambus.Resilience
