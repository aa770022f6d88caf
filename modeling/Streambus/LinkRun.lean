/-
The replication links of a broker.  A link that is started gets a stream
handler, which copies records until it is stopped.  The manager keeps the
links, the handler of each and the links it has saved in three places, and
changes them one after the other.  Failover and failback turn a link round,
whichever way it points, and do so in memory before they save it.
-/
import Streambus.ByteOrder
import Streambus.GuardedRun
import Streambus.OrderedMap

namespace Streambus.Replication

open List OrderedMap

inductive ReplicationType
  | activePassive
  | activeActive
  | star
  | other (name : Bytes)
deriving DecidableEq

inductive ReplicationStatus
  | active
  | paused
  | failed
  | stopped
  | initializing
deriving DecidableEq

/-- A link.  Clusters are whatever they are, and times are in nanoseconds. -/
structure ReplicationLink (κ : Type) where
  type : ReplicationType
  sourceCluster : κ
  targetCluster : κ
  status : ReplicationStatus
  createdAt : Int
  updatedAt : Int
  startedAt : Option Int
  stoppedAt : Option Int
  /-- The delay of the failover settings, where there are any. -/
  failbackDelayMs : Option Int
deriving DecidableEq

/-- How saving a link ends.  An error may come after the link is written. -/
inductive SaveOutcome
  | saved
  | failed
  | unconfirmed
deriving DecidableEq

abbrev LinkTable (κ : Type) := OrderedMap Bytes (ReplicationLink κ)

/-- A started stream handler: its link and which handler it is. -/
abbrev Handler := Bytes × Nat

structure LinkManager (κ : Type) where
  links : LinkTable κ
  streamHandlers : OrderedMap Bytes Nat
  /-- The links that are saved, where there is a storage. -/
  storage : Option (LinkTable κ)
  /-- The handlers that were started and not stopped yet. -/
  running : List Handler
  /-- The number of the next handler. -/
  nextHandler : Nat

inductive LinkError
  | invalid
  | alreadyExists
  | notFound
  | active
  | notPaused
  | notActive
  | handler
  | persist
  | unsupported
  | tooEarly
deriving DecidableEq

namespace LinkManager

variable {κ : Type}

/-- Saving is left out where there is no storage. -/
def saveLink (m : LinkManager κ) (linkId : Bytes) (link : ReplicationLink κ)
    (outcome : SaveOutcome) : LinkManager κ × Bool :=
  match m.storage with
  | none => (m, true)
  | some saved =>
    ({ m with
        storage := some (if outcome = .failed then saved
          else saved.insert linkId link) }, outcome = .saved)

/-- Write a link's new state to memory and to the storage. -/
def putLink (m : LinkManager κ) (linkId : Bytes) (link : ReplicationLink κ)
    (save : SaveOutcome) : LinkManager κ × Option LinkError :=
  let (saved, ok) := { m with links := m.links.insert linkId link }.saveLink
    linkId link save
  (saved, if ok then none else some .persist)

/-- The handler in the map is stopped and leaves it. -/
def stopHandler (m : LinkManager κ) (linkId : Bytes) : LinkManager κ :=
  match m.streamHandlers.find? linkId with
  | none => m
  | some handler =>
    { m with
      streamHandlers := m.streamHandlers.erase linkId
      running := m.running.filter (· ≠ (linkId, handler)) }

def loadLinksFromStorage (m : LinkManager κ) : LinkManager κ :=
  match m.storage with
  | none => m
  | some saved => { m with links := m.links.merge saved }

def newManager (storage : Option (LinkTable κ)) (running : List Handler)
    (nextHandler : Nat) : LinkManager κ :=
  loadLinksFromStorage ⟨∅, ∅, storage, running, nextHandler⟩

/-- The delay that a link gets which comes without failover settings. -/
def defaultFailbackDelayMs : Int := 300000

variable (valid : ReplicationLink κ → Bool)

def createLink (m : LinkManager κ) (linkId : Bytes)
    (config : ReplicationLink κ) (save : SaveOutcome) (now : Int) :
    LinkManager κ × Option LinkError :=
  if valid config = false then (m, some .invalid)
  else match m.links.find? linkId with
  | some _ => (m, some .alreadyExists)
  | none =>
    let link := { config with
      createdAt := now
      updatedAt := now
      status := .stopped
      failbackDelayMs :=
        some (config.failbackDelayMs.getD defaultFailbackDelayMs) }
    let (saved, ok) := { m with links := m.links.insert linkId link }.saveLink
      linkId link save
    if ok then (saved, none)
    else ({ saved with links := saved.links.erase linkId }, some .persist)

/-- The link is gone from memory even if it stays in the storage. -/
def deleteLink (m : LinkManager κ) (linkId : Bytes) (deleted : Bool) :
    LinkManager κ × Option LinkError :=
  match m.links.find? linkId with
  | none => (m, some .notFound)
  | some link =>
    if link.status = .active ∨ link.status = .initializing then
      (m, some .active)
    else
      let forgotten := { m with links := m.links.erase linkId }
      match m.storage with
      | none => (forgotten, none)
      | some saved =>
        if deleted then
          ({ forgotten with storage := some (saved.erase linkId) }, none)
        else (forgotten, some .persist)

def updateLink (m : LinkManager κ) (linkId : Bytes)
    (config : ReplicationLink κ) (save : SaveOutcome) (now : Int) :
    LinkManager κ × Option LinkError :=
  if valid config = false then (m, some .invalid)
  else match m.links.find? linkId with
  | none => (m, some .notFound)
  | some existing =>
    if existing.status = .active then (m, some .active)
    else
      let link := { config with
        createdAt := existing.createdAt
        updatedAt := now
        status := existing.status }
      m.putLink linkId link save

/-- A handler is made, started and put into the map.  Where the link cannot be
saved the handler is stopped again. -/
def startLink (m : LinkManager κ) (linkId : Bytes) (starts : Bool)
    (save : SaveOutcome) (now : Int) : LinkManager κ × Option LinkError :=
  match m.links.find? linkId with
  | none => (m, some .notFound)
  | some link =>
    if link.status = .active then (m, some .active)
    else if valid link = false ∨ starts = false then (m, some .handler)
    else
      let link := { link with
        status := .active
        startedAt := some now
        updatedAt := now }
      let started := { m with
        links := m.links.insert linkId link
        streamHandlers := m.streamHandlers.insert linkId m.nextHandler
        running := (linkId, m.nextHandler) :: m.running
        nextHandler := m.nextHandler + 1 }
      let (saved, ok) := started.saveLink linkId link save
      if ok then (saved, none)
      else (saved.stopHandler linkId, some .persist)

def stopLink (m : LinkManager κ) (linkId : Bytes) (save : SaveOutcome)
    (now : Int) : LinkManager κ × Option LinkError :=
  match m.links.find? linkId with
  | none => (m, some .notFound)
  | some link =>
    if link.status = .stopped then (m, none)
    else (m.stopHandler linkId).putLink linkId
      { link with status := .stopped, stoppedAt := some now,
                  updatedAt := now } save

def pauseLink (m : LinkManager κ) (linkId : Bytes) (save : SaveOutcome)
    (now : Int) : LinkManager κ × Option LinkError :=
  match m.links.find? linkId with
  | none => (m, some .notFound)
  | some link =>
    if link.status ≠ .active then (m, some .notActive)
    else m.putLink linkId { link with status := .paused, updatedAt := now } save

def resumeLink (m : LinkManager κ) (linkId : Bytes) (save : SaveOutcome)
    (now : Int) : LinkManager κ × Option LinkError :=
  match m.links.find? linkId with
  | none => (m, some .notFound)
  | some link =>
    if link.status ≠ .paused then (m, some .notPaused)
    else m.putLink linkId { link with status := .active, updatedAt := now } save

/-- A link with its direction turned round. -/
def turned (link : ReplicationLink κ) (now : Int) : ReplicationLink κ :=
  { link with
    sourceCluster := link.targetCluster
    targetCluster := link.sourceCluster
    updatedAt := now
    status := .stopped }

def failover (m : LinkManager κ) (linkId : Bytes) (save : SaveOutcome)
    (now : Int) : LinkManager κ × Option LinkError :=
  match m.links.find? linkId with
  | none => (m, some .notFound)
  | some link =>
    if link.type ≠ .activePassive ∧ link.type ≠ .activeActive then
      (m, some .unsupported)
    else (m.stopHandler linkId).putLink linkId (turned link now) save

/-- The delay since the link was stopped has not passed yet.  It is in
nanoseconds, in 64 bits. -/
def failbackTooEarly (link : ReplicationLink κ) (now : Int) : Bool :=
  match link.failbackDelayMs, link.stoppedAt with
  | some delay, some stoppedAt =>
    decide (delay > 0) &&
      decide (now < stoppedAt + Int.bmod (delay * 1000000) (2 ^ 64))
  | _, _ => false

def failback (m : LinkManager κ) (linkId : Bytes) (save : SaveOutcome)
    (now : Int) : LinkManager κ × Option LinkError :=
  match m.links.find? linkId with
  | none => (m, some .notFound)
  | some link =>
    if link.type ≠ .activePassive then (m, some .unsupported)
    else if failbackTooEarly link now then (m, some .tooEarly)
    else (m.stopHandler linkId).putLink linkId (turned link now) save

/-- The handlers in the map are stopped. -/
def close (m : LinkManager κ) : LinkManager κ :=
  { m with
    streamHandlers := ∅
    running := m.running.filter fun handler =>
      m.streamHandlers.find? handler.1 ≠ some handler.2 }

/-- A new manager on the same storage, after a crash, which ends every
handler, or after the old manager was closed. -/
def recreate (m : LinkManager κ) (crashed : Bool) : LinkManager κ :=
  newManager m.storage (if crashed then [] else m.close.running) m.nextHandler

end LinkManager

variable {κ : Type}

inductive LinkOp (κ : Type)
  | createLink (linkId : Bytes) (config : ReplicationLink κ)
      (save : SaveOutcome) (now : Int)
  | startLink (linkId : Bytes) (starts : Bool) (save : SaveOutcome) (now : Int)
  | pauseLink (linkId : Bytes) (save : SaveOutcome) (now : Int)
  | resumeLink (linkId : Bytes) (save : SaveOutcome) (now : Int)
  | stopLink (linkId : Bytes) (save : SaveOutcome) (now : Int)
  | updateLink (linkId : Bytes) (config : ReplicationLink κ)
      (save : SaveOutcome) (now : Int)
  | deleteLink (linkId : Bytes) (deleted : Bool)
  | failover (linkId : Bytes) (save : SaveOutcome) (now : Int)
  | failback (linkId : Bytes) (save : SaveOutcome) (now : Int)
  | recreate (crashed : Bool)

namespace LinkManager

variable (valid : ReplicationLink κ → Bool)

def step (m : LinkManager κ) : LinkOp κ → LinkManager κ
  | .createLink linkId config save now =>
    (m.createLink valid linkId config save now).1
  | .startLink linkId starts save now =>
    (m.startLink valid linkId starts save now).1
  | .pauseLink linkId save now => (m.pauseLink linkId save now).1
  | .resumeLink linkId save now => (m.resumeLink linkId save now).1
  | .stopLink linkId save now => (m.stopLink linkId save now).1
  | .updateLink linkId config save now =>
    (m.updateLink valid linkId config save now).1
  | .deleteLink linkId deleted => (m.deleteLink linkId deleted).1
  | .failover linkId save now => (m.failover linkId save now).1
  | .failback linkId save now => (m.failback linkId save now).1
  | .recreate crashed => m.recreate crashed

/-- The link exists and has a status. -/
def hasStatus (m : LinkManager κ) (status : ReplicationStatus)
    (linkId : Bytes) : Bool :=
  (m.links.find? linkId).any fun link => decide (link.status = status)

/-- The started handlers of a link that were not stopped yet. -/
def runningOf (m : LinkManager κ) (linkId : Bytes) : List Handler :=
  m.running.filter fun handler => decide (handler.1 = linkId)

/-- One handler runs for each active link, and none for any other. -/
def RunsActive (m : LinkManager κ) : Prop :=
  ∀ linkId, (m.runningOf linkId).length =
    if m.hasStatus .active linkId then 1 else 0

/-- No saved link is active. -/
def Resting (storage : Option (LinkTable κ)) : Prop :=
  ∀ saved, storage = some saved → ∀ entry ∈ saved.entries, entry.2.status ≠ .active

instance (storage : Option (LinkTable κ)) : Decidable (Resting storage) := by
  cases storage <;> unfold Resting <;> infer_instance

/-- No active link is paused and no paused one resumed, a link whose handler
starts is saved, and no manager is created over an active link. -/
def Unpaused (m : LinkManager κ) : LinkOp κ → Prop
  | .pauseLink linkId _ _ => m.hasStatus .active linkId = false
  | .resumeLink linkId _ _ => m.hasStatus .paused linkId = false
  | .startLink linkId starts save _ =>
    ∀ link ∈ m.links.find? linkId, link.status ≠ .active →
      valid link = true → starts = true → m.storage = none ∨ save = .saved
  | .recreate _ => Resting m.storage
  | _ => True

instance (m : LinkManager κ) (op : LinkOp κ) :
    Decidable (m.Unpaused valid op) := by
  cases op <;> unfold Unpaused <;> infer_instance

/-- What runs for a link is the handler in the map, which is there exactly if
the link is active. -/
structure Matched (m : LinkManager κ) (linkId : Bytes) : Prop where
  running : m.runningOf linkId = ((m.streamHandlers.find? linkId).map fun handler =>
      (linkId, handler)).toList
  active : (m.streamHandlers.find? linkId).isSome = m.hasStatus .active linkId

variable {m : LinkManager κ}

theorem runsActive_of_matched (hmatched : ∀ linkId, m.Matched linkId) :
    m.RunsActive := by
  intro linkId
  rw [(hmatched linkId).running, ← (hmatched linkId).active]
  cases m.streamHandlers.find? linkId <;> rfl

/-- Two managers that agree on what concerns a link. -/
structure SameAt (linkId : Bytes) (m other : LinkManager κ) : Prop where
  link : other.links.find? linkId = m.links.find? linkId
  handler : other.streamHandlers.find? linkId = m.streamHandlers.find? linkId
  running : other.runningOf linkId = m.runningOf linkId

variable {linkId : Bytes}

theorem SameAt.matched {m other : LinkManager κ} (hsame : SameAt linkId m other)
    (hmatched : m.Matched linkId) :
    other.Matched linkId where
  running := by rw [hsame.running, hsame.handler, hmatched.running]
  active := by
    rw [hsame.handler, hmatched.active, hasStatus, hasStatus, hsame.link]

theorem SameAt.trans {first second third : LinkManager κ}
    (hfirst : SameAt linkId first second)
    (hsecond : SameAt linkId second third) : SameAt linkId first third :=
  ⟨hsecond.link.trans hfirst.link, hsecond.handler.trans hfirst.handler,
    hsecond.running.trans hfirst.running⟩

theorem saveLink_fst (m : LinkManager κ) (linkId : Bytes)
    (link : ReplicationLink κ) (save : SaveOutcome) :
    ∃ storage, (m.saveLink linkId link save).1 = { m with storage } := by
  unfold saveLink
  split
  · exact ⟨m.storage, rfl⟩
  · exact ⟨_, rfl⟩

theorem sameAt_saveLink (m : LinkManager κ) (linkId : Bytes)
    (link : ReplicationLink κ) (save : SaveOutcome) (other : Bytes) :
    SameAt other m (m.saveLink linkId link save).1 := by
  obtain ⟨storage, hstorage⟩ := m.saveLink_fst linkId link save
  rw [hstorage]
  exact ⟨rfl, rfl, rfl⟩

variable {other : Bytes}

theorem sameAt_stopHandler (m : LinkManager κ) (hne : linkId ≠ other) :
    SameAt other m (m.stopHandler linkId) := by
  unfold stopHandler
  split
  · exact ⟨rfl, rfl, rfl⟩
  next stopped _ =>
    refine ⟨rfl, ?_, ?_⟩
    · rw [find?_erase, if_neg hne]
    · unfold runningOf
      rw [filter_filter]
      apply filter_congr
      intro handler _
      by_cases hhandler : handler.1 = other
      · have hkept : handler ≠ (linkId, stopped) := fun heq =>
          hne ((congrArg Prod.fst heq).symm.trans hhandler)
        simp only [hhandler, decide_true, Bool.true_and]
        exact decide_eq_true hkept
      · simp [hhandler]

theorem stopHandler_at (hmatched : m.Matched linkId) :
    (m.stopHandler linkId).streamHandlers.find? linkId = none ∧
      (m.stopHandler linkId).runningOf linkId = [] := by
  have hrunning := hmatched.running
  unfold stopHandler
  split
  next hnone =>
    rw [hnone] at hrunning
    exact ⟨hnone, hrunning⟩
  next handler hsome =>
    rw [hsome] at hrunning
    refine ⟨by rw [find?_erase, if_pos rfl], ?_⟩
    unfold runningOf at hrunning ⊢
    rw [filter_comm, hrunning]
    simp

theorem sameAt_putLink (m : LinkManager κ) (hne : linkId ≠ other)
    (link : ReplicationLink κ) (save : SaveOutcome) :
    SameAt other m (m.putLink linkId link save).1 := by
  have hput : SameAt other m { m with links := m.links.insert linkId link } :=
    ⟨find?_insert_of_ne _ hne link, rfl, rfl⟩
  exact hput.trans (sameAt_saveLink _ linkId link save other)

variable {link : ReplicationLink κ}

/-- A link that is written with another status than active must not have a
handler. -/
theorem matched_putLink (hstatus : link.status ≠ .active)
    (hhandler : m.streamHandlers.find? linkId = none)
    (hrunning : m.runningOf linkId = []) (save : SaveOutcome) :
    (m.putLink linkId link save).1.Matched linkId := by
  apply (sameAt_saveLink _ linkId link save linkId).matched
  constructor
  · change m.runningOf linkId = ((m.streamHandlers.find? linkId).map
      fun handler => (linkId, handler)).toList
    rw [hrunning, hhandler]
    rfl
  · change (m.streamHandlers.find? linkId).isSome =
      ((m.links.insert linkId link).find? linkId).any _
    rw [hhandler, find?_insert_self]
    exact (decide_eq_false hstatus).symm

/-- Stopping the handler and writing a link that is not active. -/
theorem matched_stopped (hmatched : ∀ linkId, m.Matched linkId) (linkId : Bytes)
    (hstatus : link.status ≠ .active) (save : SaveOutcome) (other : Bytes) :
    ((m.stopHandler linkId).putLink linkId link save).1.Matched other := by
  by_cases heq : linkId = other
  · subst heq
    obtain ⟨hhandler, hrunning⟩ := stopHandler_at (hmatched linkId)
    exact matched_putLink hstatus hhandler hrunning save
  · exact ((sameAt_stopHandler m heq).trans
      (sameAt_putLink _ heq link save)).matched (hmatched other)

theorem Matched.none_of_inactive (hmatched : m.Matched linkId)
    (hinactive : m.hasStatus .active linkId = false) :
    m.streamHandlers.find? linkId = none ∧ m.runningOf linkId = [] := by
  have hnone : m.streamHandlers.find? linkId = none := by
    rw [← Option.not_isSome_iff_eq_none, hmatched.active, hinactive]
    exact Bool.false_ne_true
  refine ⟨hnone, ?_⟩
  rw [hmatched.running, hnone]
  rfl

theorem matched_inactive_put (hmatched : ∀ linkId, m.Matched linkId)
    (hinactive : m.hasStatus .active linkId = false)
    (hstatus : link.status ≠ .active) (save : SaveOutcome) (other : Bytes) :
    (m.putLink linkId link save).1.Matched other := by
  by_cases heq : linkId = other
  · subst heq
    obtain ⟨hhandler, hrunning⟩ := (hmatched linkId).none_of_inactive hinactive
    exact matched_putLink hstatus hhandler hrunning save
  · exact (sameAt_putLink m heq link save).matched (hmatched other)

theorem hasStatus_of_find? (hfind : m.links.find? linkId = some link)
    (status : ReplicationStatus) :
    m.hasStatus status linkId = decide (link.status = status) := by
  rw [hasStatus, hfind]
  rfl

variable {m : LinkManager κ}

section

variable (hmatched : ∀ linkId, m.Matched linkId)

include hmatched

theorem matched_createLink (linkId : Bytes) (config : ReplicationLink κ)
    (save : SaveOutcome) (now : Int) (other : Bytes) :
    (m.createLink valid linkId config save now).1.Matched other := by
  unfold createLink
  split
  · exact hmatched other
  · split
    · exact hmatched other
    next hmissing =>
      have hinactive : m.hasStatus .active linkId = false := by
        rw [hasStatus, hmissing]
        rfl
      dsimp only
      split
      · exact matched_inactive_put hmatched hinactive (by simp) save other
      · obtain ⟨storage, hstorage⟩ := saveLink_fst
          { m with links := m.links.insert linkId _ } linkId _ save
        rw [hstorage]
        apply SameAt.matched _ (hmatched other)
        refine ⟨?_, rfl, rfl⟩
        rw [find?_erase, find?_insert]
        split
        · rename_i heq
          rw [← heq, hmissing]
        · rfl

theorem matched_deleteLink (linkId : Bytes) (deleted : Bool) (other : Bytes) :
    (m.deleteLink linkId deleted).1.Matched other := by
  unfold deleteLink
  split
  · exact hmatched other
  next link hfind =>
    split
    · exact hmatched other
    · rename_i hstatus
      have hinactive : m.hasStatus .active linkId = false := by
        rw [hasStatus_of_find? hfind]
        exact decide_eq_false fun hactive => hstatus (Or.inl hactive)
      have hforgotten : ∀ storage, Matched
          { m with links := m.links.erase linkId, storage } other := by
        intro storage
        by_cases heq : linkId = other
        · subst heq
          obtain ⟨hhandler, hrunning⟩ :=
            (hmatched linkId).none_of_inactive hinactive
          constructor
          · change m.runningOf linkId = _
            rw [hrunning, hhandler]
            rfl
          · rw [hasStatus, find?_erase, if_pos rfl, hhandler]
            rfl
        · apply SameAt.matched _ (hmatched other)
          exact ⟨by rw [find?_erase, if_neg heq], rfl, rfl⟩
      split
      · exact hforgotten m.storage
      · split
        · exact hforgotten _
        · exact hforgotten m.storage

theorem matched_updateLink (linkId : Bytes) (config : ReplicationLink κ)
    (save : SaveOutcome) (now : Int) (other : Bytes) :
    (m.updateLink valid linkId config save now).1.Matched other := by
  unfold updateLink
  split
  · exact hmatched other
  · split
    · exact hmatched other
    next existing hfind =>
      split
      · exact hmatched other
      · rename_i hstatus
        have hinactive : m.hasStatus .active linkId = false := by
          rw [hasStatus_of_find? hfind]
          exact decide_eq_false hstatus
        exact matched_inactive_put hmatched hinactive (by exact hstatus) save other

/-- A handler that was started and saved is the only one of its link. -/
theorem matched_startLink {starts : Bool} {save : SaveOutcome} {now : Int}
    (hsaved : m.Unpaused valid (.startLink linkId starts save now))
    (other : Bytes) :
    (m.startLink valid linkId starts save now).1.Matched other := by
  unfold startLink
  split
  · exact hmatched other
  next link hfind =>
    split
    · exact hmatched other
    · rename_i hstatus
      split
      · exact hmatched other
      · rename_i hstarts
        dsimp only
        split
        · apply (sameAt_saveLink _ _ _ _ _).matched
          have hinactive : m.hasStatus .active linkId = false := by
            rw [hasStatus_of_find? hfind]
            exact decide_eq_false hstatus
          by_cases heq : linkId = other
          · subst heq
            obtain ⟨-, hrunning⟩ :=
              (hmatched linkId).none_of_inactive hinactive
            unfold runningOf at hrunning
            constructor
            · rw [runningOf, find?_insert_self]
              rw [filter_cons_of_pos (by simp), hrunning]
              rfl
            · rw [hasStatus, find?_insert_self, find?_insert_self]
              rfl
          · apply SameAt.matched _ (hmatched other)
            refine ⟨find?_insert_of_ne _ heq _, find?_insert_of_ne _ heq _, ?_⟩
            rw [runningOf, filter_cons_of_neg (by simpa using heq)]
            rfl
        · rename_i hfailed
          have hcase := hsaved link hfind hstatus (by simp_all) (by simp_all)
          rcases hcase with hnone | rfl
          · simp [saveLink, hnone] at hfailed
          · unfold saveLink at hfailed
            split at hfailed <;> simp at hfailed

end

theorem turned_status (link : ReplicationLink κ) (now : Int) :
    (turned link now).status ≠ .active := by
  simp [turned]

/-- A manager over a resting storage, with nothing running. -/
theorem matched_newManager {storage : Option (LinkTable κ)}
    (hresting : Resting storage) (nextHandler : Nat) (linkId : Bytes) :
    (newManager storage [] nextHandler).Matched linkId := by
  unfold newManager loadLinksFromStorage
  split
  · exact ⟨rfl, rfl⟩
  next saved hsaved =>
    refine ⟨rfl, ?_⟩
    rw [hasStatus, empty_merge]
    cases hfind : saved.find? linkId with
    | none => rfl
    | some link =>
      have hstatus := hresting saved hsaved (linkId, link)
        ((saved.mem_entries_iff _ _).mpr hfind)
      exact (decide_eq_false hstatus).symm

section

variable (hmatched : ∀ linkId, m.Matched linkId)

include hmatched

/-- Closing stops every handler that is in the map, and those are all. -/
theorem running_close : m.close.running = [] := by
  unfold close
  rw [filter_eq_nil_iff]
  rintro ⟨linkId, number⟩ hmem hkept
  have hof : (linkId, number) ∈ m.runningOf linkId :=
    mem_filter.mpr ⟨hmem, decide_eq_true rfl⟩
  rw [(hmatched linkId).running, Option.mem_toList] at hof
  obtain ⟨handler, hhandler, heq⟩ := Option.map_eq_some_iff.mp hof
  cases heq
  exact of_decide_eq_true hkept hhandler

theorem matched_recreate (hresting : Resting m.storage) (crashed : Bool)
    (linkId : Bytes) :
    (m.recreate crashed).Matched linkId := by
  have hnone : (if crashed then [] else m.close.running) = [] := by
    rw [running_close hmatched]
    exact ite_self _
  rw [recreate, hnone]
  exact matched_newManager hresting m.nextHandler linkId

theorem matched_step {op : LinkOp κ} (hunpaused : m.Unpaused valid op)
    (linkId : Bytes) :
    (m.step valid op).Matched linkId := by
  cases op with
  | createLink id config save now =>
    exact matched_createLink valid hmatched id config save now linkId
  | startLink id starts save now =>
    exact matched_startLink valid hmatched hunpaused linkId
  -- Pausing a link that is not active and resuming one that is not paused are
  -- errors.
  | pauseLink id save now =>
    rw [step, pauseLink]
    split
    · exact hmatched linkId
    next link hfind =>
      rw [Unpaused, hasStatus_of_find? hfind] at hunpaused
      rw [if_pos (of_decide_eq_false hunpaused)]
      exact hmatched linkId
  | resumeLink id save now =>
    rw [step, resumeLink]
    split
    · exact hmatched linkId
    next link hfind =>
      rw [Unpaused, hasStatus_of_find? hfind] at hunpaused
      rw [if_pos (of_decide_eq_false hunpaused)]
      exact hmatched linkId
  | stopLink id save now =>
    rw [step, stopLink]
    split
    · exact hmatched linkId
    · split
      · exact hmatched linkId
      · exact matched_stopped hmatched id (by simp) save linkId
  | updateLink id config save now =>
    exact matched_updateLink valid hmatched id config save now linkId
  | deleteLink id deleted => exact matched_deleteLink hmatched id deleted linkId
  | failover id save now =>
    rw [step, failover]
    split
    · exact hmatched linkId
    · split
      · exact hmatched linkId
      · exact matched_stopped hmatched id (turned_status _ now) save linkId
  | failback id save now =>
    rw [step, failback]
    split
    · exact hmatched linkId
    · split
      · exact hmatched linkId
      · split
        · exact hmatched linkId
        · exact matched_stopped hmatched id (turned_status _ now) save linkId
  | recreate crashed => exact matched_recreate hmatched hunpaused crashed linkId

end

/-- In a run without pauses a handler runs for exactly the active links. -/
theorem runsActive_of_unpaused {storage : Option (LinkTable κ)}
    (hresting : Resting storage) {ops : List (LinkOp κ)}
    (hunpaused : AllAllowed (step valid) (Unpaused valid)
      (newManager storage [] 0) ops) :
    (runSteps (step valid) (newManager storage [] 0) ops).RunsActive := by
  apply runsActive_of_matched
  exact hunpaused.invariant (fun m => ∀ linkId, m.Matched linkId)
    (fun _ _ hmatched hop => matched_step valid hmatched hop)
    (matched_newManager hresting 0)

/-- A link that can be turned round. -/
def mirror : ReplicationLink Nat :=
  ⟨.activePassive, 1, 2, .stopped, 0, 0, none, none, none⟩

def mirrorId : Bytes := [109]

/-- The link is created, runs, is turned round and runs again, and a new
manager finds it stopped. -/
def mirrored : List (LinkOp Nat) :=
  [.createLink mirrorId mirror .saved 0, .startLink mirrorId true .saved 1,
    .failover mirrorId .unconfirmed 2, .startLink mirrorId true .saved 3,
    .pauseLink [120] .saved 4, .stopLink mirrorId .saved 5, .recreate false,
    .startLink mirrorId true .saved 6]

theorem runsActive_of_unpaused_mirrored : Resting (some (∅ : LinkTable Nat)) ∧
      AllAllowed (step fun _ => true) (Unpaused fun _ => true)
        (newManager (some ∅) [] 0) mirrored ∧
      (runSteps (step fun _ => true) (newManager (some ∅) [] 0)
        mirrored).running = [(mirrorId, 2)] ∧
      (runSteps (step fun _ => true) (newManager (some ∅) [] 0)
        mirrored).RunsActive := by
  have hresting : Resting (some (∅ : LinkTable Nat)) := by decide +kernel
  have hunpaused : AllAllowed (step fun _ => true) (Unpaused fun _ => true)
      (newManager (some ∅) [] 0) mirrored := by
    decide +kernel
  exact ⟨hresting, hunpaused, by decide +kernel,
    runsActive_of_unpaused (fun _ => true) hresting hunpaused⟩

/-- The link is paused and started again. -/
def paused : List (LinkOp Nat) :=
  [.createLink mirrorId mirror .saved 0, .startLink mirrorId true .saved 1,
    .pauseLink mirrorId .saved 2, .startLink mirrorId true .saved 3]

/-- Two handlers run for it. -/
theorem not_runsActive_paused :
    ¬ (runSteps (step fun _ => true) (newManager (some ∅) [] 0)
      paused).RunsActive := by
  intro hruns
  exact absurd (hruns mirrorId) (by decide +kernel)

end LinkManager

variable {κ : Type}

/-- What happens to a link, by hand or by itself. -/
inductive LinkAction
  | failover (save : SaveOutcome) (now : Int)
  | failback (save : SaveOutcome) (now : Int)
  | startLink (starts : Bool) (save : SaveOutcome) (now : Int)
  | stopLink (save : SaveOutcome) (now : Int)

/-- Where a link copies from and to. -/
def ReplicationLink.clusters (link : ReplicationLink κ) : κ × κ :=
  (link.sourceCluster, link.targetCluster)

namespace LinkManager

variable (valid : ReplicationLink κ → Bool) (linkId : Bytes) (origin : κ × κ)
  (m : LinkManager κ)

def act : LinkAction → LinkManager κ × Option LinkError
  | .failover save now => m.failover linkId save now
  | .failback save now => m.failback linkId save now
  | .startLink starts save now => m.startLink valid linkId starts save now
  | .stopLink save now => m.stopLink linkId save now

def direction : Option (κ × κ) :=
  (m.links.find? linkId).map ReplicationLink.clusters

/-- The link is saved as it is in memory. -/
def Persisted : Prop :=
  ∀ saved, m.storage = some saved →
    (saved.find? linkId).map ReplicationLink.clusters = m.direction linkId

/-- A failback restores the direction, an error keeps it, and it is saved. -/
structure Directed (action : LinkAction) : Prop where
  restored : ∀ save now, action = .failback save now →
    (m.act valid linkId action).2 = none →
      (m.act valid linkId action).1.direction linkId = some origin
  kept : ∀ save now, action = .failover save now ∨ action = .failback save now →
    (m.act valid linkId action).2 ≠ none →
      (m.act valid linkId action).1.direction linkId = m.direction linkId
  persisted : (m.act valid linkId action).1.Persisted linkId

/-- A link is turned round only if it is saved, and a failback finds it turned
round. -/
def Careful : LinkAction → Prop
  | .failover save _ => m.storage = none ∨ save = .saved
  | .failback save now =>
    (m.links.find? linkId).any (failbackTooEarly · now) = true ∨
      (m.storage = none ∨ save = .saved) ∧ m.direction linkId = some origin.swap
  | _ => True

/-- The link points one way or the other, and is saved so. -/
structure Oriented : Prop where
  link : ∃ link, m.links.find? linkId = some link ∧ link.type = .activePassive ∧
    (link.clusters = origin ∨ link.clusters = origin.swap)
  persisted : m.Persisted linkId

variable {valid linkId origin m} {link : ReplicationLink κ}
  {save : SaveOutcome}

theorem Oriented.stopHandler (horiented : m.Oriented linkId origin) :
    (m.stopHandler linkId).Oriented linkId origin := by
  unfold LinkManager.stopHandler
  split
  · exact horiented
  · exact ⟨horiented.link, horiented.persisted⟩

theorem putLink_error : (m.putLink linkId link save).2 = none ↔
      m.storage = none ∨ save = .saved := by
  unfold putLink saveLink
  cases m.storage <;> simp

theorem find?_putLink :
    (m.putLink linkId link save).1.links.find? linkId = some link := by
  unfold putLink saveLink
  cases m.storage <;> exact OrderedMap.find?_insert_self _ _ _

theorem persisted_putLink : (m.putLink linkId link save).1.Persisted linkId ↔
      ∀ saved, m.storage = some saved → save = .failed →
        (saved.find? linkId).map ReplicationLink.clusters = some link.clusters := by
  unfold Persisted direction
  rw [find?_putLink]
  unfold putLink saveLink
  cases m.storage with
  | none => simp
  | some saved =>
    cases save <;> simp [OrderedMap.find?_insert_self]

/-- The link is written as it points already, or saved. -/
theorem oriented_putLink {other : LinkManager κ} {written : ReplicationLink κ}
    (hstorage : other.storage = m.storage)
    (htype : written.type = .activePassive)
    (hclusters : written.clusters = origin ∨ written.clusters = origin.swap)
    (hsaved : m.Persisted linkId ∧ m.direction linkId = some written.clusters ∨
        m.storage = none ∨ save = .saved) :
    (other.putLink linkId written save).1.Oriented linkId origin := by
  refine ⟨⟨written, find?_putLink, htype, hclusters⟩, ?_⟩
  rw [persisted_putLink, hstorage]
  intro saved hsome hfailed
  rcases hsaved with ⟨hpersisted, hsame⟩ | hnone | hsaved
  · rw [hpersisted saved hsome, hsame]
  · rw [hnone] at hsome
    cases hsome
  · rw [hsaved] at hfailed
    cases hfailed

theorem oriented_startLink (horiented : m.Oriented linkId origin)
    (starts : Bool) (save : SaveOutcome) (now : Int) :
    (m.startLink valid linkId starts save now).1.Oriented linkId origin := by
  obtain ⟨link, hfind, htype, hclusters⟩ := horiented.link
  unfold startLink
  rw [hfind]
  dsimp only
  split
  · exact horiented
  · split
    · exact horiented
    · have hput := @oriented_putLink κ linkId origin m save
        { m with
          streamHandlers := m.streamHandlers.insert linkId m.nextHandler
          running := (linkId, m.nextHandler) :: m.running
          nextHandler := m.nextHandler + 1 }
        { link with status := .active, startedAt := some now, updatedAt := now }
        rfl htype hclusters
        (Or.inl ⟨horiented.persisted, by rw [direction, hfind]; rfl⟩)
      split
      · exact hput
      · exact hput.stopHandler

theorem storage_stopHandler : (m.stopHandler linkId).storage = m.storage := by
  unfold stopHandler
  split <;> rfl

theorem oriented_stopLink (horiented : m.Oriented linkId origin)
    (save : SaveOutcome) (now : Int) :
    (m.stopLink linkId save now).1.Oriented linkId origin := by
  obtain ⟨link, hfind, htype, hclusters⟩ := horiented.link
  unfold stopLink
  rw [hfind]
  dsimp only
  split
  · exact horiented
  · exact oriented_putLink storage_stopHandler htype hclusters
      (Or.inl ⟨horiented.persisted, by rw [direction, hfind]; rfl⟩)

section

variable (hfind : m.links.find? linkId = some link)
  (htype : link.type = .activePassive)
  (hclusters : link.clusters = origin ∨ link.clusters = origin.swap)
  {now : Int} {action : LinkAction}
  (hact : m.act valid linkId action =
    (m.stopHandler linkId).putLink linkId (turned link now) save)

include htype hclusters hact

theorem oriented_turned (hsaved : m.storage = none ∨ save = .saved) :
    (m.act valid linkId action).1.Oriented linkId origin := by
  rw [hact]
  refine oriented_putLink storage_stopHandler htype ?_ (Or.inr hsaved)
  change link.clusters.swap = origin ∨ link.clusters.swap = origin.swap
  rcases hclusters with hsame | hturned
  · exact Or.inr (by rw [hsame])
  · exact Or.inl (by rw [hturned, Prod.swap_swap])

include hfind

/-- An action that turns the link round has to save it. -/
theorem directed_turned_iff (hne : origin.1 ≠ origin.2) (hturns : ∃ save now,
      action = .failover save now ∨ action = .failback save now) :
    m.Directed valid linkId origin action ↔ (m.storage = none ∨ save = .saved) ∧
        ∀ save now, action = .failback save now → link.clusters = origin.swap := by
  have herror : (m.act valid linkId action).2 = none ↔
      m.storage = none ∨ save = .saved := by
    rw [hact, putLink_error, storage_stopHandler]
  have hdirection : (m.act valid linkId action).1.direction linkId =
      some link.clusters.swap := by
    rw [hact, direction, find?_putLink]
    rfl
  constructor
  · rintro ⟨hrestored, hkept, -⟩
    have hsaved : m.storage = none ∨ save = .saved := by
      by_contra hunsaved
      obtain ⟨save, now, hturns⟩ := hturns
      have hsame := hkept save now hturns (mt herror.mp hunsaved)
      rw [hdirection, direction, hfind] at hsame
      have hequal := congrArg Prod.fst (Option.some.inj hsame)
      rcases hclusters with horigin | horigin <;> rw [horigin] at hequal
      · exact hne hequal.symm
      · exact hne hequal
    refine ⟨hsaved, fun save now haction => ?_⟩
    have horigin := hrestored save now haction (herror.mpr hsaved)
    rw [← Option.some.inj (hdirection.symm.trans horigin), Prod.swap_swap]
  · rintro ⟨hsaved, hback⟩
    refine ⟨fun save now haction _ => ?_,
      fun _ _ _ herr => absurd (herror.mpr hsaved) herr,
      (oriented_turned htype hclusters hact hsaved).persisted⟩
    rw [hdirection, hback save now haction, Prod.swap_swap]

end

theorem careful_step (hne : origin.1 ≠ origin.2)
    (horiented : m.Oriented linkId origin) (action : LinkAction) :
    (m.Directed valid linkId origin action ↔ m.Careful linkId origin action) ∧
      (m.Careful linkId origin action →
        (m.act valid linkId action).1.Oriented linkId origin) := by
  obtain ⟨link, hfind, htype, hclusters⟩ := horiented.link
  cases action with
  | failover save now =>
    have hact : m.act valid linkId (.failover save now) =
        (m.stopHandler linkId).putLink linkId (turned link now) save := by
      simp [act, failover, hfind, htype]
    refine ⟨?_, oriented_turned htype hclusters hact⟩
    rw [directed_turned_iff hfind htype hclusters hact hne ⟨save, now, Or.inl rfl⟩]
    simp [Careful]
  | failback save now =>
    by_cases hearly : failbackTooEarly link now
    · have hact : m.act valid linkId (.failback save now) = (m, some .tooEarly) := by
        simp [act, failback, hfind, htype, hearly]
      refine ⟨?_, fun _ => by rw [hact]; exact horiented⟩
      have hdirected : m.Directed valid linkId origin (.failback save now) :=
        ⟨by simp [hact], by simp [hact], by rw [hact]; exact horiented.persisted⟩
      simp [hdirected, Careful, hfind, hearly]
    · have hact : m.act valid linkId (.failback save now) =
          (m.stopHandler linkId).putLink linkId (turned link now) save := by
        simp [act, failback, hfind, htype, hearly]
      have hcareful : m.Careful linkId origin (.failback save now) ↔
          (m.storage = none ∨ save = .saved) ∧ link.clusters = origin.swap := by
        simp [Careful, hfind, hearly, direction]
      rw [hcareful, directed_turned_iff hfind htype hclusters hact hne
        ⟨save, now, Or.inr rfl⟩]
      refine ⟨by simp, fun hboth => ?_⟩
      exact oriented_turned htype hclusters hact hboth.1
  | startLink starts save now =>
    have hnext := @oriented_startLink κ valid linkId origin m horiented
      starts save now
    exact ⟨⟨fun _ => trivial, fun _ => ⟨by simp, by simp, hnext.persisted⟩⟩,
      fun _ => hnext⟩
  | stopLink save now =>
    have hnext := oriented_stopLink horiented save now
    exact ⟨⟨fun _ => trivial, fun _ => ⟨by simp, by simp, hnext.persisted⟩⟩,
      fun _ => hnext⟩

theorem oriented_createLink {created : LinkManager κ}
    {config : ReplicationLink κ} {now : Int}
    (hcreated : m.createLink valid linkId config save now = (created, none))
    (htype : config.type = .activePassive) :
    created.Oriented linkId config.clusters := by
  unfold createLink at hcreated
  split at hcreated
  · cases hcreated
  · split at hcreated
    · cases hcreated
    · dsimp only at hcreated
      split at hcreated
      · rename_i hok
        cases hcreated
        refine oriented_putLink rfl htype (Or.inl rfl) (Or.inr ?_)
        unfold saveLink at hok
        split at hok
        · exact Or.inl ‹_›
        · exact Or.inr (of_decide_eq_true hok)
      · cases hcreated

/-- From its creation on, a link keeps its direction as it should exactly if
every turn is saved and every failback follows one failover. -/
theorem allDirected_iff_allCareful {created : LinkManager κ}
    {config : ReplicationLink κ} {now : Int}
    (hcreated : m.createLink valid linkId config save now = (created, none))
    (htype : config.type = .activePassive)
    (hne : config.sourceCluster ≠ config.targetCluster)
    (actions : List LinkAction) :
    let step := fun m action => (act valid linkId m action).1
    AllAllowed step (Directed valid linkId config.clusters) created actions ↔
      AllAllowed step (Careful linkId config.clusters) created actions :=
  allAllowed_iff (fun m => m.Oriented linkId config.clusters)
    (fun action _ _ horiented => (careful_step hne horiented action).1)
    (fun action _ _ horiented => (careful_step hne horiented action).2)
    (oriented_createLink hcreated htype)

/-- The mirror after its creation. -/
def mirrorCreated : LinkManager Nat :=
  ((newManager (some ∅) [] 0).createLink (fun _ => true) mirrorId mirror .saved 0).1

theorem allDirected_mirror :
    AllAllowed (fun m action => (act (fun _ => true) mirrorId m action).1)
      (Directed (fun _ => true) mirrorId (1, 2)) mirrorCreated
      [.failover .saved 1, .startLink true .failed 2, .failback .saved 3] := by
  have hcreated : (newManager (some ∅) [] 0).createLink (fun _ => true) mirrorId
      mirror .saved 0 = (mirrorCreated, none) := rfl
  exact (allDirected_iff_allCareful hcreated rfl (by decide) _).mpr
    ⟨Or.inr rfl, trivial, Or.inr ⟨Or.inr rfl, by decide +kernel⟩, trivial⟩

/-- A failback without a failover turns the link round, and a failover that is
not saved leaves it turned in memory only. -/
theorem not_directed_mirror : (mirrorCreated.failback mirrorId .saved 1).2 = none ∧
      (mirrorCreated.failback mirrorId .saved 1).1.direction mirrorId = some (2, 1) ∧
      (mirrorCreated.failover mirrorId .failed 1).2 = some .persist ∧
      (mirrorCreated.failover mirrorId .failed 1).1.direction mirrorId = some (2, 1) ∧
      ¬ (mirrorCreated.failover mirrorId .failed 1).1.Persisted mirrorId := by
  refine ⟨by decide +kernel, by decide +kernel, by decide +kernel,
    by decide +kernel, fun hpersisted => ?_⟩
  exact absurd (hpersisted _ rfl) (by decide +kernel)

end LinkManager

end Streambus.Replication
