/-
The loop of a Raft node over whole runs, and its restart.  A turn that does not
ask for more is the last one.  A new node reads the directory and starts with a
fresh state machine, to which the Raft library has the committed entries of the
log applied again; nothing is taken from the snapshot but the voters.
-/
import Streambus.RaftTurn

namespace Streambus.Consensus

open List Nat StorageDir

/-- A batch with the times at which its entries are applied. -/
structure ReadyEvent where
  ready : Ready
  clock : UInt64 → Int

/-- The loop, how far the Raft library is, and how often the loop got a batch
and asked for more. -/
structure NodeRun (σ : Type) where
  node : RaftNode σ
  progress : RaftProgress
  waiting : Bool
  delivered : Nat
  advances : Nat

namespace NodeRun

variable {σ : Type} (config : NodeConfig σ)

/-- A node that has been started on a directory. -/
def start (dir : StorageDir) : NodeRun σ where
  node := config.newNode dir
  progress := ⟨(DiskStorage.newDiskStorage dir).snapshot.index.toNat,
    (DiskStorage.newDiskStorage dir).lastIndex.toNat⟩
  waiting := false
  delivered := 0
  advances := 0

/-- The next batch comes only if the loop has asked for it. -/
def step (run : NodeRun σ) (event : ReadyEvent) : NodeRun σ :=
  if run.waiting then run
  else
    match config.handleReady event.clock run.node event.ready with
    | .panicked =>
      { run with waiting := true, delivered := run.delivered + 1 }
    | .returned (node, .advanced) =>
      { node := node
        progress := event.ready.progress run.progress
        waiting := false
        delivered := run.delivered + 1
        advances := run.advances + 1 }
    | .returned (node, _) =>
      { run with
        node := node, waiting := true, delivered := run.delivered + 1 }

/-- The batch keeps to the contract. -/
def KeepsContract (run : NodeRun σ) (event : ReadyEvent) : Prop :=
  event.ready.Contract config run.progress

end NodeRun

/-- A batch that the loop gets through: with a snapshot come only entries that
the storage can take before it, every command is accepted, and the error
channel is empty if a snapshot of the state machine is due. -/
@[mk_iff] structure NodeRun.NothingRefused {σ : Type} (config : NodeConfig σ)
    (run : NodeRun σ) (event : ReadyEvent) : Prop where
  entries : event.ready.snapshot.index ≠ 0 → event.ready.entries ≠ [] →
    event.ready.snapshot.index ≤ run.node.storage.lastIndex
  accepted : (config.machine.replay event.clock
    (config.stateBefore run.node event.ready)
    (commands event.ready.committedEntries)).2 = true
  snapshot : config.Due run.node event.ready → run.node.errorPending = false

/-- A batch that keeps to the contract and that the loop gets through. -/
def NodeRun.Digestible {σ : Type} (config : NodeConfig σ) (run : NodeRun σ)
    (event : ReadyEvent) : Prop :=
  run.KeepsContract config event ∧ run.NothingRefused config event

/-- A directory that a node can be started on. -/
def StorageDir.Usable (dir : StorageDir) : Prop :=
  (∃ saved, (DiskStorage.newDiskStorage dir).Aligned saved) ∧
    (DiskStorage.newDiskStorage dir).lastIndex.toNat + 1 < UInt64.size

theorem StorageDir.usable_empty : StorageDir.empty.Usable :=
  ⟨⟨_, DiskStorage.aligned_new⟩, by decide⟩

namespace NodeRun

variable {σ : Type} {config : NodeConfig σ} {run : NodeRun σ}

/-- The loop waits for the next batch, and storage and indexes are those the
Raft library relies on. -/
structure Healthy (run : NodeRun σ) : Prop where
  waiting : run.waiting = false
  sound : run.node.storage.Sound run.progress
  applied_le : run.node.appliedIndex.toNat ≤ run.progress.applied
  room : run.progress.applied + 1 < UInt64.size
  calls_le : ∀ entry ∈ run.node.applyCalls, entry.index.toNat ≤ run.progress.applied
  ordered : run.node.applyCalls.Pairwise fun left right =>
    left.index < right.index

theorem healthy_start (config : NodeConfig σ) {dir : StorageDir}
    (husable : dir.Usable) : (start config dir).Healthy := by
  obtain ⟨⟨saved, haligned⟩, hroom⟩ := husable
  have hle := UInt64.le_iff_toNat_le.mp haligned.snapshot_le
  exact
    { waiting := rfl
      sound := ⟨⟨saved, haligned⟩, hroom, le_refl _, le_refl _⟩
      applied_le := zero_le _
      room := lt_of_le_of_lt (succ_le_succ hle) hroom
      calls_le := fun _ hentry => by cases hentry
      ordered := List.Pairwise.nil }

/-- What a turn over a batch does that the loop gets through. -/
structure Takes (config : NodeConfig σ) (run after : NodeRun σ)
    (event : ReadyEvent) : Prop where
  progress : after.progress = event.ready.progress run.progress
  delivered : after.delivered = run.delivered + 1
  advances : after.advances = run.advances + 1
  node : ∃ saved : RaftNode σ, saved.Agrees run.node ∧
    run.node.storage.Saved event.ready saved.storage ∧
    after.node.Agrees (config.afterEntries event.clock
      (config.afterSnapshot saved event.ready)
      event.ready.committedEntries) ∧
    (config.afterSnapshot saved event.ready).storage.Tried after.node.storage

namespace Takes

variable {after : NodeRun σ} {event : ReadyEvent}

theorem applyCalls (htakes : Takes config run after event) : after.node.applyCalls =
      run.node.applyCalls ++ commands event.ready.committedEntries := by
  obtain ⟨saved, hsaved, -, hagrees, -⟩ := htakes.node
  rw [hagrees.applyCalls, ← hsaved.applyCalls]
  unfold NodeConfig.afterEntries NodeConfig.afterSnapshot
  split
  · rfl
  · rfl

theorem appliedIndex (htakes : Takes config run after event) :
    after.node.appliedIndex = event.ready.latest run.node.appliedIndex := by
  obtain ⟨saved, hsaved, -, hagrees, -⟩ := htakes.node
  rw [hagrees.appliedIndex, ← hsaved.appliedIndex]
  unfold NodeConfig.afterEntries NodeConfig.afterSnapshot Ready.latest
  cases event.ready.committedEntries.getLast? with
  | none => by_cases hnone : event.ready.snapshot.index = 0 <;> simp [hnone]
  | some entry => rfl

end Takes

theorem Healthy.step (hhealthy : run.Healthy) {event : ReadyEvent}
    (hkeeps : run.KeepsContract config event)
    (hunrefused : run.NothingRefused config event) :
    (run.step config event).Healthy ∧
      Takes config run (run.step config event) event := by
  obtain ⟨saved, node, hsaved, hstored, hturn, hagrees, htried, hsound⟩ :=
    NodeConfig.handleReady_advanced hkeeps hhealthy.sound
      hhealthy.applied_le hunrefused.entries hunrefused.accepted hunrefused.snapshot
  have hstep : run.step config event =
      { node := node
        progress := event.ready.progress run.progress
        waiting := false
        delivered := run.delivered + 1
        advances := run.advances + 1 } := by
    unfold NodeRun.step
    rw [if_neg (by simp [hhealthy.waiting]), hturn]
  have htakes : Takes config run (run.step config event) event := by
    rw [hstep]
    exact ⟨rfl, rfl, rfl, saved, hsaved, hstored, hagrees, htried⟩
  refine ⟨?_, htakes⟩
  have hcommitted := hkeeps.committed
  have hbase : run.progress.applied ≤ event.ready.base run.progress := by
    unfold Ready.base
    split
    · exact le_refl _
    next hsome => exact (hkeeps.snapshot hsome).1.le
  have hnew : ∀ entry ∈ commands event.ready.committedEntries,
      run.progress.applied < entry.index.toNat ∧ entry.index.toNat ≤
        (event.ready.progress run.progress).applied := by
    intro entry hentry
    have hrange := hcommitted.le_of_mem (mem_of_mem_filter hentry)
    change _ ∧ _ ≤ event.ready.base run.progress + event.ready.committedEntries.length
    omega
  have hwider : run.progress.applied ≤ (event.ready.progress run.progress).applied :=
    hbase.trans (le_add_right _ _)
  constructor
  · rw [hstep]
  · rw [hstep]
    exact hsound
  · rw [htakes.appliedIndex, htakes.progress]
    unfold Ready.latest
    cases hlast : event.ready.committedEntries.getLast? with
    | none =>
      dsimp only
      split
      · exact hhealthy.applied_le.trans hwider
      next hsome =>
        change _ ≤ event.ready.base run.progress + event.ready.committedEntries.length
        rw [Ready.base, if_neg hsome]
        exact le_add_right _ _
    | some entry =>
      have := hcommitted.last_eq hlast
      change entry.index.toNat ≤ event.ready.base run.progress +
        event.ready.committedEntries.length
      omega
  · rw [htakes.progress]
    exact hkeeps.committed_room
  · rw [htakes.applyCalls, htakes.progress]
    intro entry hentry
    rcases mem_append.mp hentry with hold | hcommand
    · exact (hhealthy.calls_le entry hold).trans hwider
    · exact (hnew entry hcommand).2
  · rw [htakes.applyCalls, pairwise_append]
    refine ⟨hhealthy.ordered, ?_, ?_⟩
    · exact hcommitted.pairwise.filter _
    · intro left hleft right hright
      have := hhealthy.calls_le left hleft
      have := (hnew right hright).1
      rw [UInt64.lt_iff_toNat_lt]
      omega

/-- What a whole run over batches does that the loop gets through. -/
theorem healthy_runSteps (hhealthy : run.Healthy) {events : List ReadyEvent}
    (hall : AllAllowed (step config) (Digestible config) run events) :
    let after := runSteps (step config) run events
    after.Healthy ∧ after.delivered = run.delivered + events.length ∧
      after.advances = run.advances + events.length ∧
      after.node.applyCalls = run.node.applyCalls ++ commands
        (events.flatMap fun event => event.ready.committedEntries) ∧
      after.node.appliedIndex = events.foldl
        (fun index event => event.ready.latest index)
        run.node.appliedIndex := by
  induction events generalizing run with
  | nil => simp [runSteps, commands, hhealthy]
  | cons event rest ih =>
    obtain ⟨⟨hkeeps, hunrefused⟩, hrest⟩ := hall
    obtain ⟨hafter, htakes⟩ := hhealthy.step hkeeps hunrefused
    obtain ⟨hfinal, hdelivered, hadvances, hcalls, hindex⟩ := ih hafter hrest
    refine ⟨hfinal, ?_, ?_, ?_, ?_⟩
    · rw [htakes.delivered] at hdelivered
      rw [length_cons, add_comm rest.length, ← add_assoc]
      exact hdelivered
    · rw [htakes.advances] at hadvances
      rw [length_cons, add_comm rest.length, ← add_assoc]
      exact hadvances
    · rw [htakes.applyCalls, append_assoc, ← commands_append] at hcalls
      exact hcalls
    · rw [htakes.appliedIndex] at hindex
      exact hindex

/-- In every run over batches that keep to the contract and that the loop gets
through, the loop asks for more once after each batch, passes every committed
command to the state machine once and in order, and has applied everything up
to the last committed entry or snapshot. -/
theorem advances_of_digestible (config : NodeConfig σ) {dir : StorageDir}
    (husable : dir.Usable) {events : List ReadyEvent}
    (hall : AllAllowed (step config) (Digestible config) (start config dir) events) :
    let run := runSteps (step config) (start config dir) events
    run.waiting = false ∧ run.delivered = events.length ∧
      run.advances = events.length ∧
      run.node.applyCalls = commands
        (events.flatMap fun event => event.ready.committedEntries) ∧
      (run.node.applyCalls.Pairwise fun left right =>
        left.index < right.index) ∧
      run.node.appliedIndex =
        events.foldl (fun index event => event.ready.latest index) 0 := by
  obtain ⟨hhealthy, hdelivered, hadvances, hcalls, hindex⟩ :=
    healthy_runSteps (healthy_start config husable) hall
  refine ⟨hhealthy.waiting, ?_, ?_, hcalls, hhealthy.ordered, hindex⟩
  · exact hdelivered.trans (zero_add _)
  · exact hadvances.trans (zero_add _)

instance decidableContract (config : NodeConfig σ) (rd : Ready)
    (progress : RaftProgress) : Decidable (rd.Contract config progress) :=
  decidable_of_iff' _ (rd.contract_iff config progress)

instance decidableKeepsContract (config : NodeConfig σ) (run : NodeRun σ)
    (event : ReadyEvent) : Decidable (run.KeepsContract config event) :=
  decidableContract config event.ready run.progress

instance decidableNothingRefused (config : NodeConfig σ) (run : NodeRun σ)
    (event : ReadyEvent) : Decidable (run.NothingRefused config event) :=
  decidable_of_iff' _ (run.nothingRefused_iff config event)

instance decidableDigestible (config : NodeConfig σ) (run : NodeRun σ)
    (event : ReadyEvent) : Decidable (run.Digestible config event) :=
  instDecidableAnd

end NodeRun

/-- A state machine that knows topics, each a byte, and when they were
created.  A topic that exists already is refused. -/
def topicMachine : StateMachine (List (UInt8 × Int)) where
  initial := []
  apply now topics data :=
    match data with
    | [name] =>
      if name ∈ topics.map Prod.fst then (topics, false)
      else (topics ++ [(name, now)], true)
    | _ => (topics, false)
  snapshot topics := some (topics.map Prod.fst)
  restore data := some (data.map fun name => (name, 0))
  same left right := left.map Prod.fst = right.map Prod.fst
  same_refl _ := rfl
  apply_same := by
    intro left right hsame leftTime rightTime data
    split
    · rw [hsame]
      split
      · exact ⟨rfl, hsame⟩
      · simp [hsame]
    · exact ⟨rfl, hsame⟩

/-- A node with topics.  Every byte string adds the voter that its length
says, if there is no such voter yet. -/
def topicConfig (snapshotInterval : UInt64) : NodeConfig (List (UInt8 × Int)) where
  machine := topicMachine
  unmarshalConfChange data := some ⟨.addNode, UInt64.ofNat data.length⟩
  applyConfChange voters change :=
    if change.nodeId = 0 then voters
    else
      match change.type with
      | .addNode => if change.nodeId ∈ voters then voters
          else voters ++ [change.nodeId]
      | .updateNode => voters
      | _ => voters.filter (· ≠ change.nodeId)
  peers := [1]
  snapshotInterval := snapshotInterval
  snapshotCatchUpEntries := 1

/-- A batch whose entry, a command, is committed at once. -/
def creates (index : UInt64) (name : UInt8) : ReadyEvent :=
  ⟨⟨⟨1, 1, index⟩, [⟨1, index, .normal, [name]⟩], .empty,
    [⟨1, index, .normal, [name]⟩]⟩, fun _ => 0⟩

/-- A batch with a snapshot and the entry after it. -/
def catchesUp : ReadyEvent :=
  ⟨⟨⟨1, 1, 10⟩, [⟨1, 11, .normal, [97]⟩], ⟨[97], 10, 1, ⟨[1]⟩⟩, []⟩, fun _ => 0⟩

namespace NodeRun

/-- A node on a new directory. -/
def topicRun (snapshotInterval : UInt64) : NodeRun (List (UInt8 × Int)) :=
  start (topicConfig snapshotInterval) .empty

/-- The same after batches. -/
def topicsAfter (snapshotInterval : UInt64) (events : List ReadyEvent) :
    NodeRun (List (UInt8 × Int)) :=
  runSteps (step (topicConfig snapshotInterval)) (topicRun snapshotInterval) events

theorem advances_of_digestible_topics : StorageDir.empty.Usable ∧
      AllAllowed (step (topicConfig 2)) (Digestible (topicConfig 2))
        (topicRun 2) [creates 1 97, creates 2 98] ∧
      (topicsAfter 2 [creates 1 97, creates 2 98]).advances = 2 := by
  have hall : AllAllowed (step (topicConfig 2)) (Digestible (topicConfig 2))
      (topicRun 2) [creates 1 97, creates 2 98] := by
    decide +kernel
  exact ⟨usable_empty, hall, (advances_of_digestible _ usable_empty hall).2.2.1⟩

/-- A command that is refused, entries that come with their snapshot, and a
second snapshot of the state machine each stop the loop for good. -/
theorem waiting_of_indigestible :
    (AllAllowed (step (topicConfig 9)) (KeepsContract (topicConfig 9))
        (topicRun 9) [creates 1 97, creates 2 97] ∧
      (topicsAfter 9 [creates 1 97, creates 2 97]).waiting = true ∧
      (topicsAfter 9 [creates 1 97, creates 2 97]).node.appliedIndex = 1) ∧
    (AllAllowed (step (topicConfig 9)) (KeepsContract (topicConfig 9))
        (topicRun 9) [catchesUp] ∧
      (topicsAfter 9 [catchesUp]).waiting = true) ∧
    (AllAllowed (step (topicConfig 1)) (KeepsContract (topicConfig 1))
        (topicRun 1) [creates 1 97, creates 2 98] ∧
      (topicsAfter 1 [creates 1 97, creates 2 98]).delivered = 2 ∧
      (topicsAfter 1 [creates 1 97, creates 2 98]).advances = 1) := by
  decide +kernel

end NodeRun

open List Nat

/-- The log of the Raft library after it has handed over entries. -/
def splice (log entries : List Entry) : List Entry :=
  match entries.head? with
  | none => log
  | some first => log.take (first.index.toNat - 1) ++ entries

/-- Entries that continue a log leave it consecutive, and its length is the
index of the last of them. -/
theorem splice_spec {log entries : List Entry} (hlog : Consecutive 1 log)
    (hentries : ∀ first, entries.head? = some first →
      0 < first.index.toNat ∧ first.index.toNat ≤ log.length + 1 ∧
        Consecutive first.index.toNat entries) :
    Consecutive 1 (splice log entries) ∧
      (splice log entries).length = match entries.getLast? with
        | some entry => entry.index.toNat
        | none => log.length := by
  unfold splice
  cases hhead : entries.head? with
  | none =>
    rw [head?_eq_none_iff] at hhead
    rw [hhead]
    exact ⟨hlog, rfl⟩
  | some first =>
    obtain ⟨hpos, hgap, hconsecutive⟩ := hentries first hhead
    have hlength : (log.take (first.index.toNat - 1)).length =
        first.index.toNat - 1 :=
      length_take_of_le (by omega)
    obtain ⟨last, hlast⟩ : ∃ last, entries.getLast? = some last := by
      apply Option.ne_none_iff_exists'.mp
      intro hnone
      rw [getLast?_eq_none_iff] at hnone
      rw [hnone] at hhead
      cases hhead
    have hindex := hconsecutive.last_eq hlast
    rw [hlast, consecutive_append, length_append, hlength]
    refine ⟨⟨hlog.take _, ?_⟩, ?_⟩
    · rwa [Nat.add_sub_cancel' hpos]
    · dsimp only
      omega

variable (events : List ReadyEvent)

/-- All entries that were handed over and not replaced. -/
def raftLog : List Entry :=
  events.foldl (fun log event => splice log event.ready.entries) []

def committedOf : List Entry :=
  events.flatMap fun event => event.ready.committedEntries

/-- The voters of the last snapshot that was received, and the changes that
were committed since. -/
def NodeConfig.membership {σ : Type} (config : NodeConfig σ)
    (before : List UInt64 × List ConfChange) (rd : Ready) :
    List UInt64 × List ConfChange :=
  if rd.snapshot.index = 0 then
    (before.1, before.2 ++ config.confChanges rd.committedEntries)
  else (rd.snapshot.confState.voters, config.confChanges rd.committedEntries)

/-- A change that adds only a voter there is, or removes only a node that is
none; node 0 stands for nobody. -/
def ConfChange.Idle (change : ConfChange) (voters : List UInt64) : Prop :=
  match change.type with
  | .addNode => change.nodeId = 0 ∨ change.nodeId ∈ voters
  | .removeNode | .addLearnerNode => change.nodeId = 0 ∨ change.nodeId ∉ voters
  | .updateNode => True

instance (change : ConfChange) (voters : List UInt64) :
    Decidable (change.Idle voters) := by
  rcases change with ⟨type, node⟩
  cases type <;> unfold ConfChange.Idle <;> infer_instance

/-- The Raft library keeps the voters, in whatever order, over such changes. -/
def NodeConfig.KeepsVoters {σ : Type} (config : NodeConfig σ) : Prop :=
  ∀ voters change, voters ≠ [] → change.Idle voters →
    ∀ id, id ∈ config.applyConfChange voters change ↔ id ∈ voters

theorem NodeConfig.KeepsVoters.foldl {σ : Type} {config : NodeConfig σ}
    (hkeeps : config.KeepsVoters) {voters : List UInt64} (hvoters : voters ≠ [])
    {changes : List ConfChange} (hidle : ∀ change ∈ changes, change.Idle voters)
    {current : List UInt64} (hcurrent : ∀ id, id ∈ current ↔ id ∈ voters)
    (id : UInt64) :
    id ∈ changes.foldl config.applyConfChange current ↔ id ∈ voters := by
  induction changes generalizing current with
  | nil => exact hcurrent id
  | cons change rest ih =>
    have hsome : current ≠ [] := by
      obtain ⟨voter, hvoter⟩ := exists_mem_of_ne_nil voters hvoters
      exact ne_nil_of_mem ((hcurrent voter).mpr hvoter)
    have hchange : change.Idle current := by
      have := hidle change mem_cons_self
      unfold ConfChange.Idle at this ⊢
      simp only [hcurrent]
      exact this
    apply ih fun other hother => hidle other (mem_cons_of_mem _ hother)
    intro other
    rw [hkeeps current change hsome hchange, hcurrent]

/-- A new node on a directory, after the committed entries of its log have
been applied. -/
def NodeConfig.restart {σ : Type} (config : NodeConfig σ)
    (clock : UInt64 → Int) (dir : StorageDir) (committed : Nat) :
    RaftNode σ × Bool :=
  let node := config.newNode dir
  config.applyCommittedEntries clock node
    (node.storage.entries.filter fun entry => entry.index.toNat ≤ committed)

/-- The entries file begins with the first entry there was. -/
def StorageDir.Uncompacted (dir : StorageDir) : Prop :=
  ∀ file, dir.entries = some file → file.firstIndex = 1

/-- As long as its log begins with the first entry there was, the storage has
all entries. -/
structure DiskStorage.Holds (s : DiskStorage) (log : List Entry) : Prop where
  memory : s.firstIndex = 1 → s.entries = log
  file : ∀ file, s.dir.entries = some file → file.firstIndex = 1 → file.entries = log
  missing : s.dir.entries = none → log = []

namespace DiskStorage.Holds

variable {s after : DiskStorage} {log : List Entry}

theorem saveState (hholds : s.Holds log) (state : HardState) :
    (s.saveState state).Holds log :=
  ⟨hholds.memory, hholds.file, hholds.missing⟩

theorem tried (hholds : s.Holds log) (htried : s.Tried after) : after.Holds log := by
  rcases htried with rfl | ⟨snap, hnewer, rfl⟩
  · exact hholds
  · refine ⟨?_, hholds.file, hholds.missing⟩
    intro hfirst
    change snap.index + 1 = 1 at hfirst
    have hzero : snap.index = 0 := by
      have hsub := congrArg (· - 1) hfirst
      simpa using hsub
    rw [hzero] at hnewer
    exact absurd hnewer (not_lt_zero _)

theorem saveEntries (hholds : s.Holds log) {progress : RaftProgress}
    (hsound : s.Sound progress) {entries : List Entry}
    (hafter : ∀ first, entries.head? = some first →
      progress.applied < first.index.toNat)
    (hsaved : s.saveEntries entries = .returned (after, none)) :
    after.Holds (splice log entries) := by
  cases hhead : entries.head? with
  | none =>
    simp only [DiskStorage.saveEntries, hhead, Outcome.returned.injEq,
      Prod.mk.injEq, and_true] at hsaved
    rw [splice, hhead, ← hsaved]
    exact hholds
  | some first =>
    obtain ⟨saved, haligned⟩ := hsound.aligned
    have hpos := hafter first hhead
    have hsnapshot := hsound.snapshot_le
    have hfirst := hsound.first_toNat
    have hne : first.index ≠ 0 := by
      intro hzero
      rw [hzero] at hpos
      exact not_lt_zero _ hpos
    have hle : s.firstIndex ≤ first.index := by
      rw [UInt64.le_iff_toNat_le]
      omega
    have hgap : first.index ≤ s.lastIndex + 1 := by
      by_contra hgap
      rw [UInt64.not_le] at hgap
      simp [DiskStorage.saveEntries, hhead, hgap] at hsaved
    rw [haligned.saveEntries_eq hhead hne hle hgap] at hsaved
    cases hsaved
    have hsplice : s.firstIndex = 1 →
        s.entries.take (first.index.toNat - s.firstIndex.toNat) ++ entries =
          splice log entries := by
      intro hone
      rw [splice, hhead, hholds.memory hone, hone]
      rfl
    refine ⟨hsplice, ?_, fun hnone => by cases hnone⟩
    intro file hfile
    cases hfile
    exact hsplice

end DiskStorage.Holds

/-- Replicas that are the same stay so over the same commands, whenever these
are applied. -/
theorem StateMachine.replay_same {σ : Type} (machine : StateMachine σ)
    {left right : σ} (hsame : machine.same left right)
    (leftClock rightClock : UInt64 → Int) (entries : List Entry) :
    (machine.replay leftClock left entries).2 =
        (machine.replay rightClock right entries).2 ∧
      machine.same (machine.replay leftClock left entries).1
        (machine.replay rightClock right entries).1 := by
  induction entries generalizing left right with
  | nil => exact ⟨rfl, hsame⟩
  | cons entry rest ih =>
    obtain ⟨haccepted, hnext⟩ := machine.apply_same hsame
      (leftClock entry.index) (rightClock entry.index) entry.data
    simp only [StateMachine.replay]
    rw [haccepted]
    split
    · exact ih hnext
    · exact ⟨haccepted, hnext⟩

namespace Consecutive

variable {index : Nat} {entries : List Entry}

/-- The entries up to an index are the first ones. -/
theorem filter_le (hentries : Consecutive (index + 1) entries) (count : Nat) :
    entries.filter (fun entry => entry.index.toNat ≤ index + count) =
      entries.take count := by
  induction entries generalizing index count with
  | nil => simp
  | cons entry rest ih =>
    cases count with
    | zero =>
      have hnone : (entry :: rest).filter
          (fun entry => entry.index.toNat ≤ index + 0) = [] := by
        rw [filter_eq_nil_iff]
        intro other hother
        have := (le_of_mem hentries hother).1
        simp only [decide_eq_true_eq]
        omega
      rw [hnone, take_zero]
    | succ count =>
      have hhead : decide (entry.index.toNat ≤ index + (count + 1)) =
          true := by
        have := hentries.1
        simp only [decide_eq_true_eq]
        omega
      have hrest := ih hentries.2 count
      rw [filter_cons, if_pos hhead, take_succ_cons, ← hrest]
      simp only [add_assoc, add_comm 1 count]

end Consecutive

namespace NodeRun

variable {σ : Type} {config : NodeConfig σ} {run after : NodeRun σ}
  {event : ReadyEvent}

/-- The node has the voters that the changes since the last snapshot lead to,
and its storage those of the snapshot. -/
structure Belongs (config : NodeConfig σ) (run : NodeRun σ)
    (membership : List UInt64 × List ConfChange) : Prop where
  stored : run.node.storage.confState.voters = membership.1
  voters : run.node.voters = membership.2.foldl config.applyConfChange membership.1

variable {membership : List UInt64 × List ConfChange} {events : List ReadyEvent}

theorem Belongs.takes (hbelongs : run.Belongs config membership)
    (htakes : Takes config run after event) :
    after.Belongs config (config.membership membership event.ready) := by
  obtain ⟨saved, hsaved, -, hagrees, -⟩ := htakes.node
  unfold NodeConfig.membership
  by_cases hnone : event.ready.snapshot.index = 0
  · rw [if_pos hnone]
    have hsame : config.afterSnapshot saved event.ready = saved := by
      rw [NodeConfig.afterSnapshot, if_pos hnone]
    rw [hsame] at hagrees
    constructor
    · rw [hagrees.confState, ← hbelongs.stored, ← hsaved.confState]
      rfl
    · rw [hagrees.voters, foldl_append, ← hbelongs.voters, ← hsaved.voters]
      rfl
  · rw [if_neg hnone]
    constructor
    · rw [hagrees.confState]
      unfold NodeConfig.afterEntries NodeConfig.afterSnapshot
      rw [if_neg hnone]
      rfl
    · rw [hagrees.voters]
      unfold NodeConfig.afterEntries NodeConfig.afterSnapshot
      rw [if_neg hnone]

/-- The node has applied the committed entries of a log that its storage
has. -/
structure Replays (config : NodeConfig σ) (run : NodeRun σ)
    (log committed : List Entry) : Prop where
  holds : run.node.storage.Holds log
  log_consecutive : Consecutive 1 log
  last : run.progress.last = log.length
  applied : run.progress.applied = committed.length
  consecutive : Consecutive 1 committed
  confChanges : ∀ entry ∈ committed, entry.type = .confChange →
    config.unmarshalConfChange entry.data ≠ none
  index : run.node.appliedIndex = (committed.getLast?.map Entry.index).getD 0
  state : ∀ clock, (config.machine.replay clock config.machine.initial
      (commands committed)).2 = true ∧
    config.machine.same (config.machine.replay clock config.machine.initial
      (commands committed)).1 run.node.state

variable {committed log : List Entry}

theorem Replays.takes (hreplays : run.Replays config log committed)
    (hhealthy : run.Healthy) (hkeeps : run.KeepsContract config event)
    (hunrefused : run.NothingRefused config event)
    (hnone : event.ready.snapshot.index = 0)
    (htakes : Takes config run after event) :
    after.Replays config (splice log event.ready.entries)
      (committed ++ event.ready.committedEntries) := by
  obtain ⟨saved, hsaved, ⟨kept, hkept, hstored⟩, hagrees, htried⟩ :=
    htakes.node
  have hsame : config.afterSnapshot saved event.ready = saved := by
    rw [NodeConfig.afterSnapshot, if_pos hnone]
  have hbase : event.ready.base run.progress = committed.length := by
    rw [Ready.base, if_pos hnone, hreplays.applied]
  have hcommitted := hkeeps.committed
  rw [hbase] at hcommitted
  rw [hsame] at hagrees htried
  have hafter : ∀ first, event.ready.entries.head? = some first →
      run.progress.applied < first.index.toNat := by
    intro first hhead
    have := (hkeeps.entries first hhead).1
    rwa [hbase, ← hreplays.applied] at this
  have hentries : ∀ first, event.ready.entries.head? = some first →
      0 < first.index.toNat ∧ first.index.toNat ≤ log.length + 1 ∧
        Consecutive first.index.toNat event.ready.entries := by
    intro first hhead
    obtain ⟨hpos, hgap, hconsecutive, -⟩ := hkeeps.entries first hhead
    rw [Ready.reach, if_pos hnone, hreplays.last] at hgap
    exact ⟨zero_lt_of_lt hpos, hgap, hconsecutive⟩
  have hkeptSound : kept.Sound run.progress ∧ kept.Holds log := by
    rcases hkept with rfl | rfl
    · exact ⟨hhealthy.sound, hreplays.holds⟩
    · exact ⟨hhealthy.sound.saveState _, hreplays.holds.saveState _⟩
  constructor
  · exact (hkeptSound.2.saveEntries hkeptSound.1 hafter hstored).tried htried
  · exact (splice_spec hreplays.log_consecutive hentries).1
  · rw [htakes.progress, (splice_spec hreplays.log_consecutive hentries).2]
    change (match event.ready.entries.getLast? with
      | some entry => entry.index.toNat
      | none => event.ready.reach run.progress) = _
    rw [Ready.reach, if_pos hnone, hreplays.last]
  · rw [htakes.progress]
    change event.ready.base run.progress + _ = _
    rw [hbase, length_append]
  · rw [consecutive_append, add_comm 1]
    exact ⟨hreplays.consecutive, hcommitted⟩
  · intro entry hentry
    rcases mem_append.mp hentry with hold | hnew
    · exact hreplays.confChanges entry hold
    · exact hkeeps.confChanges entry hnew
  · rw [htakes.appliedIndex, hreplays.index, getLast?_append]
    unfold Ready.latest
    cases event.ready.committedEntries.getLast? with
    | none => simp [hnone]
    | some entry => simp
  · intro clock
    obtain ⟨haccepted, hstate⟩ := hreplays.state clock
    have hbefore : config.stateBefore run.node event.ready = run.node.state := by
      rw [NodeConfig.stateBefore, if_pos hnone]
    have hrefusedNone := hunrefused.accepted
    rw [hbefore] at hrefusedNone
    obtain ⟨hsameAccepted, hsameState⟩ := config.machine.replay_same hstate
      clock event.clock (commands event.ready.committedEntries)
    rw [commands_append, StateMachine.replay_append, if_pos haccepted]
    refine ⟨hsameAccepted.trans hrefusedNone, ?_⟩
    rw [hagrees.state, NodeConfig.afterEntries, hsaved.state]
    exact hsameState

theorem replays_start (config : NodeConfig σ) :
    (start config .empty).Replays config [] [] where
  holds := ⟨fun _ => rfl, fun _ hfile => (nomatch hfile), fun _ => rfl⟩
  log_consecutive := trivial
  last := rfl
  applied := rfl
  consecutive := trivial
  confChanges := fun _ hentry => by cases hentry
  index := rfl
  state := fun _ => ⟨rfl, config.machine.same_refl _⟩

/-- A run with batches that the loop gets through keeps track of members. -/
theorem belongs_runSteps (hbelongs : run.Belongs config membership)
    (hhealthy : run.Healthy)
    (hall : AllAllowed (step config) (Digestible config) run events) :
    (runSteps (step config) run events).Belongs config (events.foldl
      (fun membership event => config.membership membership event.ready)
      membership) := by
  induction events generalizing run membership with
  | nil => exact hbelongs
  | cons event rest ih =>
    obtain ⟨⟨hkeeps, hunrefused⟩, hrest⟩ := hall
    obtain ⟨hafter, htakes⟩ := hhealthy.step hkeeps hunrefused
    exact ih (hbelongs.takes htakes) hafter hrest

/-- A run without snapshots from elsewhere can be replayed from its log. -/
theorem replays_runSteps (hreplays : run.Replays config log committed)
    (hhealthy : run.Healthy)
    (hall : AllAllowed (step config) (Digestible config) run events)
    (hnone : ∀ event ∈ events, event.ready.snapshot.index = 0) :
    (runSteps (step config) run events).Replays config
      (events.foldl (fun log event => splice log event.ready.entries) log)
      (committed ++ committedOf events) := by
  induction events generalizing run log committed with
  | nil =>
    rw [committedOf, flatMap_nil, append_nil]
    exact hreplays
  | cons event rest ih =>
    obtain ⟨⟨hkeeps, hunrefused⟩, hrest⟩ := hall
    obtain ⟨hafter, htakes⟩ := hhealthy.step hkeeps hunrefused
    have hnext := hreplays.takes hhealthy hkeeps hunrefused
      (hnone event mem_cons_self) htakes
    have hfinal := ih hnext hafter hrest fun other hother =>
      hnone other (mem_cons_of_mem _ hother)
    rw [append_assoc] at hfinal
    exact hfinal

/-- What a new node reads back if the entries file begins with the first
entry. -/
theorem Replays.restart (hreplays : run.Replays config log committed)
    (hlogged : committed <+: log)
    (huncompacted : run.node.storage.dir.Uncompacted) (clock : UInt64 → Int) :
    let restarted := config.restart clock run.node.storage.dir run.progress.applied
    restarted.2 = true ∧ config.machine.same restarted.1.state run.node.state ∧
      restarted.1.appliedIndex = run.node.appliedIndex := by
  have hentries : (config.newNode run.node.storage.dir).storage.entries =
      log := by
    change (DiskStorage.newDiskStorage run.node.storage.dir).entries = log
    rw [DiskStorage.newDiskStorage_eq]
    cases hfile : run.node.storage.dir.entries with
    | none => exact (hreplays.holds.missing hfile).symm
    | some file =>
      exact hreplays.holds.file file hfile (huncompacted file hfile)
  have hredelivered : log.filter
      (fun entry => entry.index.toNat ≤ run.progress.applied) =
        committed := by
    have hlog : Consecutive (0 + 1) log := hreplays.log_consecutive
    have hfilter := hlog.filter_le run.progress.applied
    simp only [zero_add] at hfilter
    rw [hfilter, hreplays.applied]
    exact (prefix_iff_eq_take.mp hlogged).symm
  obtain ⟨haccepted, hsame⟩ := hreplays.state clock
  have hnone : (config.newNode run.node.storage.dir).appliedIndex.toNat ≤ 0 :=
    le_refl _
  have happlied := NodeConfig.applyCommittedEntries_eq hreplays.consecutive
    hnone hreplays.confChanges haccepted
  unfold NodeConfig.restart
  dsimp only
  rw [hentries, hredelivered, happlied]
  refine ⟨rfl, hsame, ?_⟩
  rw [hreplays.index]
  rfl

/-- A batch with a snapshot of one topic. -/
def receives : ReadyEvent :=
  ⟨⟨⟨1, 1, 10⟩, [], ⟨[97], 10, 1, ⟨[1]⟩⟩, []⟩, fun _ => 0⟩

/-- A batch whose entry adds the first voter. -/
def adds (index : UInt64) : ReadyEvent :=
  ⟨⟨⟨1, 1, index⟩, [⟨1, index, .confChange, [0]⟩], .empty,
    [⟨1, index, .confChange, [0]⟩]⟩, fun _ => 0⟩

theorem keepsVoters_topicConfig (snapshotInterval : UInt64) :
    (topicConfig snapshotInterval).KeepsVoters := by
  rintro voters ⟨type, node⟩ - hidle id
  by_cases hnobody : node = 0
  · simp [topicConfig, hnobody]
  · cases type with
    | addNode =>
      have hmem : node ∈ voters := hidle.resolve_left hnobody
      simp [topicConfig, hmem]
    | updateNode => simp [topicConfig]
    | removeNode | addLearnerNode =>
      have hmem : node ∉ voters := hidle.resolve_left hnobody
      simp only [topicConfig, if_neg hnobody, mem_filter, decide_eq_true_eq]
      exact and_iff_left_of_imp fun hid heq => hmem (heq ▸ hid)

end NodeRun

end Streambus.Consensus
