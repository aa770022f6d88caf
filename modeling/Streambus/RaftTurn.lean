/-
A Raft node: the loop that takes what the Raft library hands over, saves it,
applies what is committed to the state machine and asks for more.  An error is
put into a channel that holds one and that nobody reads; after most errors the
loop goes on without asking for more.
-/
import Streambus.RaftLog

namespace Streambus.Consensus

open List Option UInt64

/-- What a node replicates.  A command may be refused; it is applied at some
local time, and states that are the same up to such times stay so. -/
structure StateMachine (σ : Type) where
  initial : σ
  apply : Int → σ → Bytes → σ × Bool
  snapshot : σ → Option Bytes
  restore : Bytes → Option σ
  same : σ → σ → Prop
  same_refl : ∀ state, same state state
  apply_same : ∀ {left right}, same left right → ∀ leftTime rightTime data,
    (apply leftTime left data).2 = (apply rightTime right data).2 ∧
      same (apply leftTime left data).1 (apply rightTime right data).1

inductive ConfChangeType where
  | addNode
  | removeNode
  | updateNode
  | addLearnerNode
deriving Repr, DecidableEq

structure ConfChange where
  type : ConfChangeType
  nodeId : UInt64
deriving Repr, DecidableEq

/-- A node's configuration, with what the Raft library does: how it reads a
change of the voters and which voters the change leads to. -/
structure NodeConfig (σ : Type) where
  machine : StateMachine σ
  unmarshalConfChange : Bytes → Option ConfChange
  applyConfChange : List UInt64 → ConfChange → List UInt64
  peers : List UInt64
  snapshotInterval : UInt64
  snapshotCatchUpEntries : UInt64

/-- What the Raft library hands over.  An empty hard state or snapshot stands
for none. -/
structure Ready where
  hardState : HardState
  entries : List Entry
  snapshot : Snapshot
  committedEntries : List Entry
deriving Repr, DecidableEq

/-- A node.  `voters` are those of the configuration that the Raft library
holds, `errorPending` says that the error channel is full, and `applyCalls`
lists the entries that were passed to the state machine. -/
structure RaftNode (σ : Type) where
  storage : DiskStorage
  state : σ
  appliedIndex : UInt64
  snapshotIndex : UInt64
  voters : List UInt64
  errorPending : Bool
  applyCalls : List Entry

/-- How a turn of the loop ends: by asking for more, by going on without, or
by waiting for the error channel. -/
inductive Turn where
  | advanced
  | continued
  | blocked
deriving Repr, DecidableEq

namespace NodeConfig

variable {σ : Type} (config : NodeConfig σ)

def newNode (dir : StorageDir) : RaftNode σ :=
  let storage := DiskStorage.newDiskStorage dir
  ⟨storage, config.machine.initial, 0, 0, storage.confState.voters, false, []⟩

/-- Apply one committed entry. -/
def applyEntry (clock : UInt64 → Int) (node : RaftNode σ) (entry : Entry) :
    RaftNode σ × Bool :=
  if entry.index ≤ node.appliedIndex then (node, true)
  else
    match entry.type with
    | .normal =>
      if entry.data.length > 0 then
        let applied := config.machine.apply (clock entry.index) node.state entry.data
        let node := { node with
          state := applied.1, applyCalls := node.applyCalls ++ [entry] }
        if applied.2 then ({ node with appliedIndex := entry.index }, true)
        else (node, false)
      else ({ node with appliedIndex := entry.index }, true)
    | .confChange =>
      match config.unmarshalConfChange entry.data with
      | none => (node, false)
      | some change =>
        ({ node with
            voters := config.applyConfChange node.voters change
            appliedIndex := entry.index }, true)
    | .confChangeV2 => ({ node with appliedIndex := entry.index }, true)

/-- Apply committed entries up to the first that fails. -/
def applyCommittedEntries (clock : UInt64 → Int) (node : RaftNode σ) :
    List Entry → RaftNode σ × Bool
  | [] => (node, true)
  | entry :: rest =>
    match config.applyEntry clock node entry with
    | (node, true) => applyCommittedEntries clock node rest
    | (node, false) => (node, false)

def applySnapshot (node : RaftNode σ) (snap : Snapshot) : RaftNode σ × Bool :=
  match node.storage.saveSnapshot snap with
  | (_, some _) => (node, false)
  | (storage, none) =>
    match config.machine.restore snap.data with
    | none => ({ node with storage := storage }, false)
    | some state =>
      ({ node with
          storage := storage
          state := state
          appliedIndex := snap.index
          snapshotIndex := snap.index
          voters := snap.confState.voters }, true)

def shouldSnapshot (node : RaftNode σ) : Bool :=
  config.snapshotInterval ≠ 0 ∧
    node.appliedIndex - node.snapshotIndex ≥ config.snapshotInterval

def createSnapshot (node : RaftNode σ) : Outcome (RaftNode σ × Bool) :=
  match config.machine.snapshot node.state with
  | none => .returned (node, false)
  | some data => do
      let (storage, error) ← node.storage.snapshotAndCompact
        node.appliedIndex config.snapshotCatchUpEntries data
      let node := { node with storage := storage }
      match error with
      | some _ => .returned (node, false)
      | none =>
        .returned ({ node with snapshotIndex := node.appliedIndex }, true)

end NodeConfig

namespace RaftNode

variable {σ : Type} (node : RaftNode σ)

/-- A node that knows of no voters starts a new cluster. -/
def startsCluster : Bool :=
  node.storage.initialState.2.voters.isEmpty

/-- Put an error into the channel, and then end the turn as given. -/
def sendError (sent : Turn) : RaftNode σ × Turn :=
  if node.errorPending then (node, .blocked)
  else ({ node with errorPending := true }, sent)

end RaftNode

namespace NodeConfig

variable {σ : Type} (config : NodeConfig σ)

/-- What follows once the committed entries are applied. -/
def finishTurn (node : RaftNode σ) : Outcome (RaftNode σ × Turn) :=
  if config.shouldSnapshot node then do
    let (node, created) ← config.createSnapshot node
    .returned (if created then (node, .advanced)
      else node.sendError .advanced)
  else .returned (node, .advanced)

/-- What follows once hard state and entries are saved. -/
def applyReady (clock : UInt64 → Int) (node : RaftNode σ) (rd : Ready) :
    Outcome (RaftNode σ × Turn) :=
  match (if rd.snapshot.index = 0 then (node, true)
      else config.applySnapshot node rd.snapshot) with
  | (node, false) => .returned (node.sendError .continued)
  | (node, true) =>
    match config.applyCommittedEntries clock node rd.committedEntries with
    | (node, false) => .returned (node.sendError .continued)
    | (node, true) => config.finishTurn node

/-- One turn of the loop. -/
def handleReady (clock : UInt64 → Int) (node : RaftNode σ) (rd : Ready) :
    Outcome (RaftNode σ × Turn) := do
  let node :=
    if rd.hardState = .empty then node
    else { node with storage := node.storage.saveState rd.hardState }
  let (storage, error) ← node.storage.saveEntries rd.entries
  let node := { node with storage := storage }
  match error with
  | some _ => .returned (node.sendError .continued)
  | none => config.applyReady clock node rd

end NodeConfig

/-- How far the Raft library is: the index up to which committed entries were
handed over, and the last index of its log. -/
structure RaftProgress where
  applied : Nat
  last : Nat

namespace Ready

variable (rd : Ready)

/-- The index that the committed entries of a batch follow. -/
def base (progress : RaftProgress) : Nat :=
  if rd.snapshot.index = 0 then progress.applied else rd.snapshot.index.toNat

/-- The index that the entries of a batch follow at the latest. -/
def reach (progress : RaftProgress) : Nat :=
  if rd.snapshot.index = 0 then progress.last else rd.snapshot.index.toNat

/-- How far the Raft library is after a batch. -/
def progress (before : RaftProgress) : RaftProgress where
  applied := rd.base before + rd.committedEntries.length
  last := match rd.entries.getLast? with
    | some entry => entry.index.toNat
    | none => rd.reach before

/-- The index of the last committed entry or snapshot of a batch, if it has
one. -/
def latest (before : UInt64) : UInt64 :=
  match rd.committedEntries.getLast? with
  | some entry => entry.index
  | none => if rd.snapshot.index = 0 then before else rd.snapshot.index

/-- What the Raft library keeps to.  A snapshot is beyond what was committed;
committed entries follow one another; entries continue the log and replace
nothing that is committed; every index is followed by another one. -/
@[mk_iff] structure Contract {σ : Type} (config : NodeConfig σ) (rd : Ready)
    (progress : RaftProgress) : Prop where
  snapshot : rd.snapshot.index ≠ 0 → progress.applied < rd.snapshot.index.toNat ∧
      config.machine.restore rd.snapshot.data ≠ none
  committed : Consecutive (rd.base progress + 1) rd.committedEntries
  committed_room : rd.base progress + rd.committedEntries.length + 1 < UInt64.size
  confChanges : ∀ entry ∈ rd.committedEntries, entry.type = .confChange →
    config.unmarshalConfChange entry.data ≠ none
  entries : ∀ first, rd.entries.head? = some first →
    rd.base progress < first.index.toNat ∧ first.index.toNat ≤ rd.reach progress + 1 ∧
      Consecutive first.index.toNat rd.entries ∧
      first.index.toNat + rd.entries.length < UInt64.size

end Ready

/-- The entries that carry a command. -/
def commands (entries : List Entry) : List Entry :=
  entries.filter fun entry => entry.type = .normal ∧ entry.data ≠ []

/-- The commands of the entries, applied one after the other up to the first
that is refused. -/
def StateMachine.replay {σ : Type} (machine : StateMachine σ)
    (clock : UInt64 → Int) (state : σ) : List Entry → σ × Bool
  | [] => (state, true)
  | entry :: rest =>
    let applied := machine.apply (clock entry.index) state entry.data
    if applied.2 then machine.replay clock applied.1 rest else applied

theorem commands_append (front back : List Entry) :
    commands (front ++ back) = commands front ++ commands back :=
  filter_append _ _

theorem StateMachine.replay_append {σ : Type} (machine : StateMachine σ)
    (clock : UInt64 → Int) (state : σ) (front back : List Entry) :
    machine.replay clock state (front ++ back) =
      if (machine.replay clock state front).2 then
        machine.replay clock (machine.replay clock state front).1 back
      else machine.replay clock state front := by
  induction front generalizing state with
  | nil => simp [StateMachine.replay]
  | cons entry rest ih =>
    simp only [cons_append, StateMachine.replay, ih]
    split
    · rfl
    · rfl

/-- The configuration changes of the entries. -/
def NodeConfig.confChanges {σ : Type} (config : NodeConfig σ)
    (entries : List Entry) : List ConfChange :=
  entries.filterMap fun entry =>
    if entry.type = .confChange then config.unmarshalConfChange entry.data
    else none

/-- The state that the committed entries of a batch are applied to. -/
def NodeConfig.stateBefore {σ : Type} (config : NodeConfig σ)
    (node : RaftNode σ) (rd : Ready) : σ :=
  if rd.snapshot.index = 0 then node.state
  else (config.machine.restore rd.snapshot.data).getD node.state

/-- A snapshot of the state machine is due after a batch. -/
def NodeConfig.Due {σ : Type} (config : NodeConfig σ) (node : RaftNode σ)
    (rd : Ready) : Prop :=
  config.snapshotInterval ≠ 0 ∧
    rd.latest node.appliedIndex - (if rd.snapshot.index = 0
      then node.snapshotIndex else rd.snapshot.index) ≥ config.snapshotInterval
deriving Decidable

namespace NodeConfig

variable {σ : Type} {config : NodeConfig σ}

/-- The node after entries of which every command is accepted. -/
def afterEntries (config : NodeConfig σ) (clock : UInt64 → Int)
    (node : RaftNode σ) (entries : List Entry) : RaftNode σ :=
  { node with
    state := (config.machine.replay clock node.state (commands entries)).1
    appliedIndex := (entries.getLast?.map Entry.index).getD node.appliedIndex
    voters :=
      (config.confChanges entries).foldl config.applyConfChange node.voters
    applyCalls := node.applyCalls ++ commands entries }

variable {clock : UInt64 → Int} {node : RaftNode σ}

theorem applyEntry_eq {entry : Entry} (hnew : ¬ entry.index ≤ node.appliedIndex)
    (hconf : entry.type = .confChange → config.unmarshalConfChange entry.data ≠ none)
    (haccepted : (config.machine.replay clock node.state
      (commands [entry])).2 = true) :
    config.applyEntry clock node entry =
      (config.afterEntries clock node [entry], true) := by
  rw [applyEntry, if_neg hnew]
  cases htype : entry.type with
  | normal =>
    by_cases hdata : entry.data = []
    · simp [hdata, afterEntries, commands, StateMachine.replay,
        NodeConfig.confChanges, htype]
    · have hcommands : commands [entry] = [entry] := by
        simp [commands, htype, hdata]
      rw [hcommands] at haccepted
      have htrue : (config.machine.apply (clock entry.index) node.state
          entry.data).2 = true := by
        simp only [StateMachine.replay] at haccepted
        split at haccepted
        · assumption
        · exact haccepted
      simp [length_pos_iff.mpr hdata, htrue, afterEntries, hcommands,
        StateMachine.replay, NodeConfig.confChanges, htype]
  | confChange =>
    obtain ⟨change, hchange⟩ := ne_none_iff_exists'.mp (hconf htype)
    simp [hchange, afterEntries, commands, StateMachine.replay,
      NodeConfig.confChanges, htype]
  | confChangeV2 =>
    simp [afterEntries, commands, StateMachine.replay, NodeConfig.confChanges, htype]

theorem afterEntries_append (config : NodeConfig σ) {front back : List Entry}
    (hfront : (config.machine.replay clock node.state (commands front)).2 = true) :
    config.afterEntries clock (config.afterEntries clock node front) back =
      config.afterEntries clock node (front ++ back) := by
  have hlast : ((front ++ back).getLast?.map Entry.index).getD
      node.appliedIndex = (back.getLast?.map Entry.index).getD
        ((front.getLast?.map Entry.index).getD node.appliedIndex) := by
    rw [getLast?_append]
    cases back.getLast? <;> simp
  simp only [afterEntries, commands_append, StateMachine.replay_append, hfront,
    ↓reduceIte, confChanges, filterMap_append, foldl_append, hlast,
    append_assoc]

/-- Committed entries that are accepted are all applied. -/
theorem applyCommittedEntries_eq {base : Nat} {entries : List Entry}
    (hentries : Consecutive (base + 1) entries)
    (hbase : node.appliedIndex.toNat ≤ base)
    (hconf : ∀ entry ∈ entries, entry.type = .confChange →
      config.unmarshalConfChange entry.data ≠ none)
    (haccepted : (config.machine.replay clock node.state
      (commands entries)).2 = true) :
    config.applyCommittedEntries clock node entries =
      (config.afterEntries clock node entries, true) := by
  induction entries generalizing node base with
  | nil => simp [applyCommittedEntries, afterEntries, commands,
      StateMachine.replay, NodeConfig.confChanges]
  | cons entry rest ih =>
    obtain ⟨hindex, hrest⟩ := hentries
    have hnew : ¬ entry.index ≤ node.appliedIndex := by
      rw [le_iff_toNat_le]
      omega
    rw [← singleton_append, commands_append, StateMachine.replay_append] at haccepted
    split at haccepted
    next hhead =>
      rw [applyCommittedEntries, applyEntry_eq hnew (hconf entry mem_cons_self) hhead]
      dsimp only
      rw [ih hrest hindex.le (fun other hother =>
        hconf other (mem_cons_of_mem _ hother)) haccepted,
        config.afterEntries_append hhead, singleton_append]
    next hrefused => exact absurd haccepted hrefused

end NodeConfig

/-- The storage holds what the Raft library relies on. -/
structure DiskStorage.Sound (s : DiskStorage) (progress : RaftProgress) : Prop where
  aligned : ∃ saved, s.Aligned saved
  room : s.lastIndex.toNat + 1 < UInt64.size
  snapshot_le : s.snapshot.index.toNat ≤ progress.applied
  last_le : progress.last ≤ s.lastIndex.toNat

/-- The storage after a snapshot of the state machine was tried, or not: the
snapshot may have been saved. -/
def DiskStorage.Tried (s after : DiskStorage) : Prop :=
  after = s ∨ ∃ snap, s.snapshot.index < snap.index ∧ after = s.withSnapshot snap

namespace DiskStorage.Sound

variable {s : DiskStorage} {progress : RaftProgress}

section

variable (hsound : s.Sound progress)

include hsound

theorem first_ne_zero : s.firstIndex ≠ 0 := by
  obtain ⟨saved, haligned⟩ := hsound.aligned
  intro hzero
  have hroom := hsound.room
  rw [haligned.lastIndex_of_exhausted hzero, ← haligned.first_sub, hzero]
    at hroom
  exact absurd hroom (by decide)

theorem first_toNat : s.firstIndex.toNat = s.snapshot.index.toNat + 1 :=
  hsound.aligned.elim fun _ haligned =>
    haligned.first_toNat hsound.first_ne_zero

theorem lastIndex_toNat :
    s.lastIndex.toNat + 1 = s.firstIndex.toNat + s.entries.length :=
  hsound.aligned.elim fun _ haligned =>
    haligned.lastIndex_toNat hsound.first_ne_zero

theorem saveState (state : HardState) : (s.saveState state).Sound progress :=
  { aligned := hsound.aligned.imp fun _ haligned => haligned.saveState state
    room := hsound.room
    snapshot_le := hsound.snapshot_le
    last_le := hsound.last_le }

/-- Entries that continue the log after what is committed are saved. -/
theorem saveEntries {entries : List Entry} {first : Entry}
    (hhead : entries.head? = some first)
    (hafter : progress.applied < first.index.toNat)
    (hgap : first.index.toNat ≤ s.lastIndex.toNat + 1)
    (hentries : Consecutive first.index.toNat entries)
    (hroom : first.index.toNat + entries.length < UInt64.size) :
    ∃ after, s.saveEntries entries = .returned (after, none) ∧
      after.snapshot = s.snapshot ∧ after.confState = s.confState ∧
      after.Sound ⟨progress.applied, first.index.toNat + entries.length - 1⟩ := by
  obtain ⟨saved, haligned⟩ := hsound.aligned
  have hfirst := hsound.first_toNat
  have hlast := hsound.lastIndex_toNat
  have hsnapshot := hsound.snapshot_le
  have hne : first.index ≠ 0 := by
    intro hzero
    rw [hzero] at hafter
    exact Nat.not_lt_zero _ hafter
  have hle : s.firstIndex ≤ first.index := by
    rw [le_iff_toNat_le]
    omega
  have hgap' : first.index ≤ s.lastIndex + 1 := by
    have hroom := hsound.room
    rw [UInt64.le_iff_toNat_le, UInt64.toNat_add]
    change _ ≤ (_ + 1) % UInt64.size
    rw [Nat.mod_eq_of_lt hroom]
    exact hgap
  have heq := haligned.saveEntries_eq hhead hne hle hgap'
  refine ⟨_, heq, rfl, rfl, ?_⟩
  obtain ⟨error, herror⟩ | ⟨after, hsaved, haligned'⟩ :=
    haligned.saveEntries ⟨entries, first.index.toNat, by omega, hentries⟩ (by
        intro other hother _
        rw [hhead] at hother
        cases hother
        exact hle)
  · rw [heq] at herror
    exact nomatch (Prod.mk.inj (Outcome.returned.inj herror)).2
  · rw [heq] at hsaved
    cases hsaved
    have hlastIndex := haligned'.lastIndex_toNat hsound.first_ne_zero
    have hlength : (s.entries.take (first.index.toNat -
        s.firstIndex.toNat) ++ entries).length =
          first.index.toNat - s.firstIndex.toNat + entries.length := by
      rw [length_append, length_take_of_le (by omega)]
    change _ = s.firstIndex.toNat + (_ ++ entries).length at hlastIndex
    rw [hlength] at hlastIndex
    rw [le_iff_toNat_le] at hle
    exact
      { aligned := ⟨_, haligned'⟩
        room := by omega
        snapshot_le := hsnapshot
        last_le := by dsimp only; omega }

theorem saveSnapshot {snap : Snapshot} (hnewer : s.snapshot.index < snap.index)
    (hroom : snap.index.toNat + 1 < UInt64.size) :
    s.saveSnapshot snap = (s.withSnapshot snap, none) ∧
      (s.withSnapshot snap).Sound ⟨max progress.applied snap.index.toNat,
        max progress.last snap.index.toNat⟩ := by
  obtain ⟨saved, haligned⟩ := hsound.aligned
  obtain ⟨-, heq⟩ := haligned.saveSnapshot_eq hnewer
  have haligned' := haligned.withSnapshot hnewer
  have hfirst := hsound.first_toNat
  have hlast := hsound.lastIndex_toNat
  have hlt := lt_iff_toNat_lt.mp hnewer
  have hnext : (s.withSnapshot snap).firstIndex.toNat = snap.index.toNat + 1 := by
    change (snap.index + 1).toNat = _
    rw [UInt64.toNat_add]
    exact Nat.mod_eq_of_lt hroom
  have hlast' := haligned'.lastIndex_toNat fun hzero => by
    rw [hzero] at hnext
    exact absurd hnext (Nat.succ_ne_zero _).symm
  rw [hnext] at hlast'
  change _ = _ + (s.entries.drop _).length at hlast'
  rw [length_drop] at hlast'
  have hprogress := hsound.last_le
  have hroom' := hsound.room
  refine ⟨heq, ⟨⟨_, haligned'⟩, ?_, ?_, ?_⟩⟩
  · omega
  · exact le_max_right _ _
  · dsimp only
    omega

/-- A snapshot of the state machine is not taken, but may be saved. -/
theorem snapshotAndCompact {appliedIndex : UInt64}
    (hle : appliedIndex.toNat ≤ progress.applied)
    (hroom : appliedIndex.toNat + 1 < UInt64.size) (catchUp : UInt64)
    (data : Bytes) :
    ∃ after error, s.snapshotAndCompact appliedIndex catchUp data =
        .returned (after, some error) ∧
      after.confState = s.confState ∧ s.Tried after ∧
      after.Sound ⟨progress.applied, progress.last⟩ := by
  unfold DiskStorage.snapshotAndCompact
  dsimp only
  by_cases hnewer : s.snapshot.index < appliedIndex
  · have hsnap : s.snapshot.index <
        (⟨data, appliedIndex, 0, s.initialState.2⟩ : Snapshot).index := hnewer
    obtain ⟨heq, hsound'⟩ := hsound.saveSnapshot hsnap hroom
    rw [heq]
    have hfirst := hsound'.first_toNat
    have hindex : (if appliedIndex > catchUp then appliedIndex - catchUp
        else appliedIndex) < (s.withSnapshot ⟨data, appliedIndex, 0,
          s.initialState.2⟩).firstIndex := by
      rw [lt_iff_toNat_lt, hfirst]
      change _ < appliedIndex.toNat + 1
      split
      next hmore =>
        rw [UInt64.toNat_sub_of_le _ _ (UInt64.le_of_lt hmore)]
        omega
      · omega
    refine ⟨s.withSnapshot ⟨data, appliedIndex, 0, s.initialState.2⟩,
      .outOfRange (if appliedIndex > catchUp then appliedIndex - catchUp
        else appliedIndex), ?_, rfl, .inr ⟨_, hnewer, rfl⟩, ?_⟩
    · dsimp only
      rw [DiskStorage.compact, if_pos hindex]
    · exact
        { aligned := hsound'.aligned
          room := hsound'.room
          snapshot_le := hle
          last_le := (le_max_left _ _).trans hsound'.last_le }
  · refine ⟨s, .snapshotOlder, ?_, rfl, .inl rfl, hsound⟩
    rw [Aligned.saveSnapshot_of_older hnewer]

end

end DiskStorage.Sound

/-- A storage after the hard state and the entries of a batch were saved. -/
def DiskStorage.Saved (s : DiskStorage) (rd : Ready) (after : DiskStorage) :
    Prop :=
  ∃ kept, (kept = s ∨ kept = s.saveState rd.hardState) ∧
    kept.saveEntries rd.entries = .returned (after, none)

/-- Two nodes that have applied the same. -/
structure RaftNode.Agrees {σ : Type} (node other : RaftNode σ) : Prop where
  state : node.state = other.state
  appliedIndex : node.appliedIndex = other.appliedIndex
  voters : node.voters = other.voters
  applyCalls : node.applyCalls = other.applyCalls
  confState : node.storage.confState = other.storage.confState

namespace NodeConfig

variable {σ : Type} {config : NodeConfig σ}

/-- The node after the snapshot of a batch. -/
def afterSnapshot (config : NodeConfig σ) (node : RaftNode σ) (rd : Ready) :
    RaftNode σ :=
  if rd.snapshot.index = 0 then node
  else
    { node with
      storage := node.storage.withSnapshot rd.snapshot
      state := config.stateBefore node rd
      appliedIndex := rd.snapshot.index
      snapshotIndex := rd.snapshot.index
      voters := rd.snapshot.confState.voters }

variable {progress : RaftProgress} {node : RaftNode σ} {rd : Ready}

/-- A turn ends by asking for more if the error channel is empty whenever a
snapshot of the state machine is due. -/
theorem finishTurn_advanced (hsound : node.storage.Sound progress)
    (hle : node.appliedIndex.toNat ≤ progress.applied)
    (hroom : progress.applied + 1 < UInt64.size)
    (hempty : config.shouldSnapshot node = true → node.errorPending = false) :
    ∃ after, config.finishTurn node = .returned (after, .advanced) ∧
      after.Agrees node ∧ node.storage.Tried after.storage ∧
      after.storage.Sound progress := by
  unfold finishTurn
  split
  next hdue =>
    have hsend : ∀ storage : DiskStorage,
        ({ node with storage := storage } : RaftNode σ).sendError .advanced =
          ({ node with storage := storage, errorPending := true }, .advanced) := by
      intro storage
      rw [RaftNode.sendError, if_neg (by simp [hempty hdue])]
    unfold createSnapshot
    cases config.machine.snapshot node.state with
    | none =>
      refine ⟨{ node with errorPending := true }, ?_,
        ⟨rfl, rfl, rfl, rfl, rfl⟩, .inl rfl, hsound⟩
      exact congrArg Outcome.returned (hsend node.storage)
    | some data =>
      obtain ⟨storage, error, heq, hconf, htried, hsound'⟩ :=
        hsound.snapshotAndCompact hle (by omega) config.snapshotCatchUpEntries data
      refine ⟨{ node with storage := storage, errorPending := true }, ?_,
        ⟨rfl, rfl, rfl, rfl, hconf⟩, htried, hsound'⟩
      simp only [heq]
      exact congrArg Outcome.returned (hsend storage)
  · exact ⟨node, rfl, ⟨rfl, rfl, rfl, rfl, rfl⟩, .inl rfl, hsound⟩

/-- A snapshot that keeps to the contract is applied. -/
theorem afterSnapshot_spec {last : Nat} (hcontract : rd.Contract config progress)
    (hsound : node.storage.Sound ⟨progress.applied, last⟩) :
    (if rd.snapshot.index = 0 then (node, true)
      else config.applySnapshot node rd.snapshot) =
        (config.afterSnapshot node rd, true) ∧
      (config.afterSnapshot node rd).storage.Sound
        ⟨rd.base progress, if rd.snapshot.index = 0 then last
          else max last rd.snapshot.index.toNat⟩ := by
  unfold afterSnapshot Ready.base
  by_cases hnone : rd.snapshot.index = 0
  · simp only [hnone, ↓reduceIte]
    exact ⟨trivial, hsound⟩
  · obtain ⟨hbeyond, hrestore⟩ := hcontract.snapshot hnone
    have hroom := hcontract.committed_room
    simp only [Ready.base, hnone, ↓reduceIte] at hroom
    have hnewer : node.storage.snapshot.index < rd.snapshot.index := by
      have hsnapshot := hsound.snapshot_le
      rw [lt_iff_toNat_lt]
      dsimp only at hsnapshot
      omega
    obtain ⟨heq, hsound'⟩ := hsound.saveSnapshot hnewer (by omega)
    obtain ⟨state, hstate⟩ := ne_none_iff_exists'.mp hrestore
    simp only [hnone, ↓reduceIte, applySnapshot, heq, hstate, stateBefore,
      getD_some, true_and]
    rw [max_eq_right (show progress.applied ≤ rd.snapshot.index.toNat by
      omega)] at hsound'
    exact hsound'

variable {clock : UInt64 → Int}

/-- A batch that is saved is applied, and the loop asks for more. -/
theorem applyReady_advanced {last : Nat} (hcontract : rd.Contract config progress)
    (hsound : node.storage.Sound ⟨progress.applied, last⟩)
    (hle : node.appliedIndex.toNat ≤ progress.applied)
    (haccepted : (config.machine.replay clock (config.stateBefore node rd)
      (commands rd.committedEntries)).2 = true)
    (hempty : config.Due node rd → node.errorPending = false) :
    ∃ after, config.applyReady clock node rd = .returned (after, .advanced) ∧
      after.Agrees (config.afterEntries clock (config.afterSnapshot node rd)
        rd.committedEntries) ∧
      (config.afterSnapshot node rd).storage.Tried after.storage ∧
      after.storage.Sound ⟨(rd.progress progress).applied,
        if rd.snapshot.index = 0 then last
        else max last rd.snapshot.index.toNat⟩ := by
  obtain ⟨heq, hsound'⟩ := afterSnapshot_spec hcontract hsound
  have hstate : (config.afterSnapshot node rd).state =
      config.stateBefore node rd := by
    unfold afterSnapshot stateBefore
    split
    · rfl
    · rfl
  have happlied : (config.afterSnapshot node rd).appliedIndex.toNat ≤
      rd.base progress := by
    unfold afterSnapshot Ready.base
    split
    · exact hle
    · exact Nat.le_refl _
  rw [← hstate] at haccepted
  have hentries := applyCommittedEntries_eq hcontract.committed happlied
    hcontract.confChanges haccepted
  -- The index after the entries, as the loop and the library have it.
  have hlatest : (config.afterEntries clock (config.afterSnapshot node rd)
      rd.committedEntries).appliedIndex = rd.latest node.appliedIndex := by
    unfold afterEntries afterSnapshot Ready.latest
    cases rd.committedEntries.getLast? with
    | none => by_cases hnone : rd.snapshot.index = 0 <;> simp [hnone]
    | some entry => rfl
  have hreached : (config.afterEntries clock (config.afterSnapshot node rd)
      rd.committedEntries).appliedIndex.toNat ≤ (rd.progress progress).applied := by
    change _ ≤ rd.base progress + rd.committedEntries.length
    unfold afterEntries
    dsimp only
    cases hlast : rd.committedEntries.getLast? with
    | none => exact happlied.trans (Nat.le_add_right _ _)
    | some entry =>
      have := hcontract.committed.last_eq hlast
      simp only [map_some, getD_some]
      omega
  have hsnapshotIndex : (config.afterEntries clock
      (config.afterSnapshot node rd) rd.committedEntries).snapshotIndex =
        if rd.snapshot.index = 0 then node.snapshotIndex
        else rd.snapshot.index := by
    unfold afterEntries afterSnapshot
    split
    · rfl
    · rfl
  have herrorPending : (config.afterEntries clock
      (config.afterSnapshot node rd) rd.committedEntries).errorPending =
        node.errorPending := by
    unfold afterEntries afterSnapshot
    split
    · rfl
    · rfl
  have hstored : (config.afterEntries clock (config.afterSnapshot node rd)
      rd.committedEntries).storage.Sound
        ⟨(rd.progress progress).applied, if rd.snapshot.index = 0
          then last else max last rd.snapshot.index.toNat⟩ :=
    { aligned := hsound'.aligned
      room := hsound'.room
      snapshot_le := hsound'.snapshot_le.trans (Nat.le_add_right _ _)
      last_le := hsound'.last_le }
  obtain ⟨after, hturn, hagrees, htried, hsound''⟩ :=
    finishTurn_advanced hstored hreached hcontract.committed_room (by
      intro hdue
      rw [herrorPending]
      apply hempty
      rw [shouldSnapshot, hlatest, hsnapshotIndex] at hdue
      rw [Due]
      exact of_decide_eq_true hdue)
  refine ⟨after, ?_, hagrees, htried, hsound''⟩
  simp only [applyReady, heq, hentries, hturn]

/-- One turn over a batch that keeps to the contract and that the loop gets
through. -/
theorem handleReady_advanced (hcontract : rd.Contract config progress)
    (hsound : node.storage.Sound progress)
    (hle : node.appliedIndex.toNat ≤ progress.applied)
    (hentries : rd.snapshot.index ≠ 0 → rd.entries ≠ [] →
      rd.snapshot.index ≤ node.storage.lastIndex)
    (haccepted : (config.machine.replay clock (config.stateBefore node rd)
      (commands rd.committedEntries)).2 = true)
    (hempty : config.Due node rd → node.errorPending = false) :
    ∃ saved after, saved.Agrees node ∧ node.storage.Saved rd saved.storage ∧
      config.handleReady clock node rd = .returned (after, .advanced) ∧
      after.Agrees (config.afterEntries clock (config.afterSnapshot saved rd)
        rd.committedEntries) ∧
      (config.afterSnapshot saved rd).storage.Tried after.storage ∧
      after.storage.Sound (rd.progress progress) := by
  unfold handleReady
  -- Neither the hard state nor the entries change what was applied.
  have hstate : ∃ storage : DiskStorage, (if rd.hardState = .empty then node
        else { node with storage := node.storage.saveState rd.hardState }) =
          { node with storage := storage } ∧
        (storage = node.storage ∨ storage = node.storage.saveState rd.hardState) ∧
        storage.Sound progress ∧
        storage.lastIndex = node.storage.lastIndex ∧
        storage.confState = node.storage.confState := by
    split
    · exact ⟨node.storage, rfl, .inl rfl, hsound, rfl, rfl⟩
    · exact ⟨_, rfl, .inr rfl, hsound.saveState _, rfl, rfl⟩
  obtain ⟨storage, heq, hkept, hsound', hlast, hconf⟩ := hstate
  rw [heq]
  have hsaved : ∃ after : DiskStorage,
      storage.saveEntries rd.entries = .returned (after, none) ∧
        after.confState = storage.confState ∧
        after.Sound ⟨progress.applied, match rd.entries.getLast? with
          | some entry => entry.index.toNat
          | none => progress.last⟩ := by
    cases hhead : rd.entries.head? with
    | none =>
      rw [head?_eq_none_iff] at hhead
      rw [hhead]
      exact ⟨storage, rfl, rfl, hsound'⟩
    | some first =>
      obtain ⟨hafter, hgap, hconsecutive, hroom⟩ :=
        hcontract.entries first hhead
      have hne : rd.entries ≠ [] := by
        intro hnil
        rw [hnil] at hhead
        cases hhead
      have hbound : progress.applied < first.index.toNat ∧
          first.index.toNat ≤ storage.lastIndex.toNat + 1 := by
        unfold Ready.base at hafter
        unfold Ready.reach at hgap
        split at hafter
        next hnone =>
          rw [if_pos hnone] at hgap
          have := hsound'.last_le
          omega
        next hsome =>
          rw [if_neg hsome] at hgap
          have hle := hentries hsome hne
          rw [le_iff_toNat_le, ← hlast] at hle
          have := (hcontract.snapshot hsome).1
          omega
      obtain ⟨after, hafterEq, -, hafterConf, hafterSound⟩ :=
        hsound'.saveEntries hhead hbound.1 hbound.2 hconsecutive hroom
      obtain ⟨final, hfinal⟩ : ∃ final, rd.entries.getLast? = some final :=
        ne_none_iff_exists'.mp (by simpa using hne)
      have hindex := hconsecutive.last_eq hfinal
      refine ⟨after, hafterEq, hafterConf, ?_⟩
      rw [hfinal]
      rw [← hindex, Nat.add_sub_cancel] at hafterSound
      exact hafterSound
  obtain ⟨after, hafter, hafterConf, hafterSound⟩ := hsaved
  have hstored : ({ node with storage := after } : RaftNode σ).storage.Sound
      _ := hafterSound
  obtain ⟨final, hturn, hagrees, htried, hfinal⟩ :=
    applyReady_advanced hcontract hstored hle haccepted hempty
  refine ⟨{ node with storage := after }, final,
    ⟨rfl, rfl, rfl, rfl, hafterConf.trans hconf⟩, ⟨storage, hkept, hafter⟩,
    ?_, hagrees, htried, ?_⟩
  · simp only [hafter]
    exact hturn
  · have hlastLe := hfinal.last_le
    refine ⟨hfinal.aligned, hfinal.room, hfinal.snapshot_le, le_trans ?_ hlastLe⟩
    simp only [Ready.progress, Ready.reach]
    cases rd.entries.getLast? with
    | none =>
      dsimp only
      split
      · exact Nat.le_refl _
      · exact le_max_right _ _
    | some entry =>
      dsimp only
      split
      · exact Nat.le_refl _
      · exact le_max_left _ _

end NodeConfig

end Streambus.Consensus
