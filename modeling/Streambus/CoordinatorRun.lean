/-
Runs of the transaction coordinator, and what an operation can do to its
transactions: start one, carry some on by events that their lives allow, or
forget one.  What holds over all runs is derived from these effects.
-/
import Streambus.Coordinator

namespace Streambus

open OrderedMap TransactionCoordinator

/-- The operations of the coordinator.  A request comes with the time it is
handled at, a sweep with the order of its visits. -/
inductive TxnOperation where
  | initProducerId (req : InitProducerIdRequest)
  | addPartitionsToTxn (req : AddPartitionsToTxnRequest) (now : Int)
  | addOffsetsToTxn (req : AddOffsetsToTxnRequest)
  | txnOffsetCommit (req : TxnOffsetCommitRequest)
  | endTxn (req : EndTxnRequest) (now : Int)
  | checkExpiredTransactions (visits : List (String × Int))
  | cleanup (id : String) (serial : Nat)

/-- The coordinator and the world its services act on. -/
structure CoordinatorRun (σ : Type) where
  tc : TransactionCoordinator
  world : σ

namespace CoordinatorRun

variable {σ : Type}

def step (services : Services σ) (run : CoordinatorRun σ) :
    TxnOperation → CoordinatorRun σ
  | .initProducerId req => { run with tc := (run.tc.initProducerId req).1 }
  | .addPartitionsToTxn req now =>
    { run with tc := (run.tc.addPartitionsToTxn req now).1 }
  | .addOffsetsToTxn req => { run with tc := (run.tc.addOffsetsToTxn req).1 }
  | .txnOffsetCommit req =>
    { run with tc := (run.tc.txnOffsetCommit services req).1 }
  | .endTxn req now =>
    let ended := run.tc.endTxn services run.world req now
    ⟨ended.1, ended.2.1⟩
  | .checkExpiredTransactions visits =>
    let swept := run.tc.checkExpiredTransactions services run.world visits
    ⟨swept.1, swept.2⟩
  | .cleanup id serial => { run with tc := run.tc.cleanup id serial }

end CoordinatorRun

/-- What the history has of one transaction. -/
def eventsOf (history : List (Nat × LifeEvent)) (serial : Nat) : List LifeEvent :=
  history.filterMap fun entry =>
    if entry.1 = serial then some entry.2 else none

theorem eventsOf_map (events : List LifeEvent) (owner serial : Nat) :
    eventsOf (events.map fun event => (owner, event)) serial =
      if owner = serial then events else [] := by
  by_cases howner : owner = serial <;>
    simp [eventsOf, List.filterMap_map, howner]

/-- Metadata that shows a life as it is. -/
structure TransactionMetadata.Matches (txn : TransactionMetadata)
    (life : Life) : Prop where
  state : txn.state = life.state
  partitions : txn.partitions = life.partitions
  groupId : txn.groupId = life.groupId
  pendingOffsets : txn.pendingOffsets = life.pendingOffsets

/-- Metadata of one transaction at two times. -/
structure SameTransaction (txn after : TransactionMetadata) : Prop where
  transactionId : after.transactionId = txn.transactionId
  producerId : after.producerId = txn.producerId
  producerEpoch : after.producerEpoch = txn.producerEpoch
  serial : after.serial = txn.serial

/-- Metadata carried on by events, which every life it shows allows. -/
structure Advances (txn after : TransactionMetadata)
    (events : List LifeEvent) : Prop where
  same : SameTransaction txn after
  lives : ∀ life, txn.Matches life →
    ∃ later, life.run events = some later ∧ after.Matches later

/-- One thing a request about a transaction or a sweep can do. -/
inductive Move : TransactionCoordinator → TransactionCoordinator → Prop where
  | advance {tc : TransactionCoordinator} {id : String}
      {txn after : TransactionMetadata} {events : List LifeEvent}
      (hfind : tc.transactions.find? id = some txn)
      (hadvances : Advances txn after events) :
      Move tc (tc.save id after events)
  | log {tc : TransactionCoordinator} {id : String} {txn : TransactionMetadata}
      (hfind : tc.transactions.find? id = some txn) :
      Move tc (tc.logTransaction txn)
  | schedule {tc : TransactionCoordinator} {id : String} {txn : TransactionMetadata}
      (hfind : tc.transactions.find? id = some txn)
      (hended : txn.state.isTerminal = true) :
      Move tc (tc.scheduleTransactionCleanup id txn.serial)

/-- Any number of moves. -/
abbrev Moves := Relation.ReflTransGen Move

/-- What such a request or a sweep does: it may start a transaction under an ID
that has no live one, then carries transactions on. -/
inductive Effect : TransactionCoordinator → TransactionCoordinator → Prop where
  | carry {tc after : TransactionCoordinator} (hmoves : Moves tc after) :
      Effect tc after
  | start {tc after : TransactionCoordinator} {txn : TransactionMetadata}
      (hfree : tc.live txn.transactionId = none)
      (hserial : txn.serial = tc.started)
      (hnew : txn.Matches { Life.unborn with state := .ongoing })
      (hmoves : Moves ((tc.start txn).logTransaction txn) after) :
      Effect tc after

section Advancing

variable {σ : Type}

theorem partitionExists_iff (txn : TransactionMetadata)
    (partition : PartitionMetadata) :
    partitionExists txn partition = true ↔ partition ∈ txn.partitions := by
  simp only [partitionExists, List.any_eq_true, Bool.and_eq_true, beq_iff_eq]
  constructor
  · rintro ⟨member, hmem, htopic, hpartition⟩
    obtain rfl : member = partition := by
      cases member
      cases partition
      simp_all
    exact hmem
  · intro hmem
    exact ⟨partition, hmem, rfl, rfl⟩

variable {txn : TransactionMetadata} (services : Services σ) {commit : Bool}

theorem appendPartitions_advances (hongoing : txn.state = .ongoing)
    (partitions : List PartitionMetadata) :
    Advances txn (appendPartitions txn partitions).1
      (appendPartitions txn partitions).2 := by
  induction partitions generalizing txn with
  | nil =>
    exact ⟨⟨rfl, rfl, rfl, rfl⟩, fun life hmatches => ⟨life, rfl, hmatches⟩⟩
  | cons partition rest ih =>
    by_cases hexists : partitionExists txn partition = true
    · simpa [appendPartitions, hexists] using ih hongoing
    · have hrest := @ih
        { txn with partitions := txn.partitions ++ [partition] } hongoing
      simp only [appendPartitions, hexists, Bool.false_eq_true, ↓reduceIte]
      refine ⟨⟨hrest.same.1, hrest.same.2, hrest.same.3, hrest.same.4⟩, ?_⟩
      intro life hmatches
      obtain ⟨later, hrun, hlater⟩ := hrest.lives
        { life with partitions := life.partitions ++ [partition] }
        ⟨hmatches.state, by rw [hmatches.partitions], hmatches.groupId,
          hmatches.pendingOffsets⟩
      rw [partitionExists_iff] at hexists
      have hnext : life.next (.joined partition) = some
          { life with partitions := life.partitions ++ [partition] } := by
        simp [Life.next, ← hmatches.state, hongoing, ← hmatches.partitions, hexists]
      exact ⟨later, by simp [Life.run, hnext, hrun], hlater⟩

theorem advances_of_next {after : TransactionMetadata} {event : LifeEvent}
    (hsame : SameTransaction txn after)
    (hnext : ∀ life, txn.Matches life →
      ∃ later, life.next event = some later ∧ after.Matches later) :
    Advances txn after [event] := by
  refine ⟨hsame, ?_⟩
  intro life hmatches
  obtain ⟨later, hlater, hafter⟩ := hnext life hmatches
  exact ⟨later, by simp [Life.run, hlater], hafter⟩

theorem group_advances {groupId : String} (hongoing : txn.state = .ongoing)
    (hgroup : txn.groupId = "" ∨ txn.groupId = groupId) :
    Advances txn { txn with groupId := groupId } [.grouped groupId] := by
  apply advances_of_next
  · exact ⟨rfl, rfl, rfl, rfl⟩
  intro life hmatches
  rw [hmatches.groupId] at hgroup
  refine ⟨{ life with groupId := groupId }, ?_, hmatches.state,
    hmatches.partitions, rfl, hmatches.pendingOffsets⟩
  simp [Life.next, ← hmatches.state, hongoing, hgroup]

theorem offsets_advances (offsets : PartitionMap OffsetMetadata)
    (hongoing : txn.state = .ongoing) (hgroup : txn.groupId ≠ "") :
    Advances txn { txn with pendingOffsets := txn.pendingOffsets.mergeAll offsets }
      [.acknowledged offsets] := by
  apply advances_of_next
  · exact ⟨rfl, rfl, rfl, rfl⟩
  intro life hmatches
  refine ⟨{ life with pendingOffsets := life.pendingOffsets.mergeAll offsets },
    ?_, hmatches.state, hmatches.partitions, hmatches.groupId, ?_⟩
  · simp [Life.next, ← hmatches.state, hongoing, ← hmatches.groupId, hgroup]
  · simp [hmatches.pendingOffsets]

theorem prepare_advances (commit : Bool) (hongoing : txn.state = .ongoing) :
    Advances txn { txn with state := .prepare commit } [.prepared commit] := by
  apply advances_of_next
  · exact ⟨rfl, rfl, rfl, rfl⟩
  intro life hmatches
  refine ⟨{ life with state := .prepare commit }, ?_, rfl,
    hmatches.partitions, hmatches.groupId, hmatches.pendingOffsets⟩
  simp [Life.next, ← hmatches.state, hongoing]

/-- Writing markers adds to what a life has marked, and marks all partitions
if every write worked. -/
theorem writeEach_run (write : σ → PartitionMetadata → TransactionMarker → σ × Bool)
    (marker : TransactionMarker) (world : σ)
    {partitions : List PartitionMetadata} {life : Life}
    (hstate : life.state = .prepare marker.commit)
    (hmem : ∀ partition ∈ partitions, partition ∈ life.partitions) :
    ∃ marked, life.run (writeEach write marker world partitions).2.1 =
        some { life with marked := marked } ∧
      (∀ partition ∈ life.marked, partition ∈ marked) ∧
      ((writeEach write marker world partitions).2.2 = true →
        ∀ partition ∈ partitions, partition ∈ marked) := by
  induction partitions generalizing life world with
  | nil => exact ⟨life.marked, rfl, fun _ h => h, by simp⟩
  | cons partition rest ih =>
    have hhead : partition ∈ life.partitions := hmem partition (by simp)
    by_cases hwritten : (write world partition marker).2 = true
    · have hnext : life.next (.marked partition marker.commit true) =
          some { life with marked := partition :: life.marked } := by
        simp [Life.next, hstate, hhead]
      obtain ⟨marked, hrun, hkept, hall⟩ := @ih (write world partition marker).1
        { life with marked := partition :: life.marked } hstate
        (fun other hother => hmem other (by simp [hother]))
      simp only [writeEach, hwritten, ↓reduceIte]
      refine ⟨marked, by simp [Life.run, hnext, hrun], ?_, ?_⟩
      · intro other hother
        exact hkept other (by simp [hother])
      · intro hdone other hother
        rcases List.mem_cons.mp hother with rfl | hrest
        · exact hkept other (by simp)
        · exact hall hdone other hrest
    · have hnext : life.next (.marked partition marker.commit false) = some life := by
        simp only [Life.next, hstate, hhead, and_self, ↓reduceIte, Bool.false_eq_true]
        rw [← hstate]
      simp only [writeEach, hwritten, Bool.false_eq_true, ↓reduceIte]
      exact ⟨life.marked, by simp [Life.run, hnext], fun _ h => h, by simp⟩

theorem writeMarkers_run (world : σ) (now : Int) {life : Life}
    (hmatches : txn.Matches life) (hstate : life.state = .prepare commit) :
    ∃ marked, life.run (writeMarkers services world txn commit now).2.1 =
        some { life with marked := marked } ∧
      ((writeMarkers services world txn commit now).2.2 = true →
        Life.Done { life with marked := marked }) := by
  unfold writeMarkers
  by_cases hnone : txn.partitions = []
  · refine ⟨life.marked, by simp [hnone, Life.run], ?_⟩
    intro _
    simp [Life.Done, ← hmatches.partitions, hnone]
  · cases hwriter : services.markerWriter with
    | none => exact ⟨life.marked, by simp [hnone, Life.run], by simp [hnone]⟩
    | some write =>
      have hsorted : ∀ partition ∈ sortedPartitions txn.partitions,
          partition ∈ life.partitions := by
        intro partition hmem
        rw [sortedPartitions, List.mem_insertionSort] at hmem
        rwa [← hmatches.partitions]
      obtain ⟨marked, hrun, -, hall⟩ := writeEach_run write
        ⟨txn.producerId, txn.producerEpoch, commit, now⟩ world hstate hsorted
      simp only [hnone, ↓reduceIte]
      refine ⟨marked, hrun, ?_⟩
      intro hdone partition hmem
      apply hall hdone partition
      rw [sortedPartitions, List.mem_insertionSort]
      rwa [hmatches.partitions]

theorem resolvePendingOffsets_run (world : σ) {life : Life}
    (hmatches : txn.Matches life) (hstate : life.state = .prepare commit)
    (hdone : life.Done) :
    ∃ pending, life.run (resolvePendingOffsets services world txn commit).events =
        some { life with pendingOffsets := pending } ∧
      ((resolvePendingOffsets services world txn commit).succeeded = true →
        commit = true → pending = ∅) ∧
      ((resolvePendingOffsets services world txn commit).succeeded = false →
        pending = txn.pendingOffsets) := by
  unfold resolvePendingOffsets
  by_cases hempty : txn.pendingOffsets = ∅
  · have hlife : { life with pendingOffsets := ∅ } = life := by
      rw [← hempty, hmatches.pendingOffsets]
    exact ⟨∅, by simp [hempty, Life.run, hlife], by simp, by simp [hempty]⟩
  · cases commit with
    | false => exact ⟨life.pendingOffsets, by simp [hempty, Life.run],
        by simp, by simp [hempty]⟩
    | true =>
      cases hcommitter : services.offsetCommitter with
      | none =>
        exact ⟨life.pendingOffsets, by simp [hempty, Life.run],
          by simp [hempty], by simp [hmatches.pendingOffsets]⟩
      | some publish =>
        have hnext : ∀ succeeded, life.next (.published txn.groupId
            txn.pendingOffsets succeeded) = some { life with
              pendingOffsets :=
                if succeeded then ∅ else life.pendingOffsets } := by
          intro succeeded
          rw [hmatches.pendingOffsets] at hempty
          simp [Life.next, hstate, hdone, hmatches.groupId,
            hmatches.pendingOffsets, hempty, TransactionState.prepare]
        by_cases hpublished : (publish world txn.groupId txn.pendingOffsets).2 = true
        · exact ⟨∅, by simp [hempty, hpublished, Life.run, hnext],
            by simp, by simp [hempty, hpublished]⟩
        · exact ⟨life.pendingOffsets, by simp [hempty, hpublished, Life.run, hnext],
            by simp [hempty, hpublished],
            by simp [hmatches.pendingOffsets]⟩

theorem resolvePendingOffsets_txn (world : σ) (txn : TransactionMetadata)
    (commit : Bool) :
    (resolvePendingOffsets services world txn commit).txn =
      if (resolvePendingOffsets services world txn commit).succeeded
      then { txn with pendingOffsets := ∅ } else txn := by
  unfold resolvePendingOffsets
  by_cases hempty : txn.pendingOffsets = ∅
  · have htxn : { txn with pendingOffsets := ∅ } = txn := by rw [← hempty]
    simp [hempty, htxn]
  · cases commit with
    | false => simp [hempty]
    | true =>
      cases services.offsetCommitter with
      | none => simp [hempty]
      | some publish =>
        by_cases hpublished : (publish world txn.groupId txn.pendingOffsets).2 = true
        · simp [hempty, hpublished]
        · simp [hempty, hpublished]

theorem decide_prepareCommit {state : TransactionState}
    (hstate : state = .prepare commit) :
    decide (state = .prepareCommit) = commit := by
  subst hstate
  cases commit <;> rfl

/-- Resolving a prepared transaction ends it with the outcome it was prepared
for, or leaves it as it was. -/
theorem resolvePrepared_txn (world : σ) (now : Int)
    (hstate : txn.state = .prepare commit) :
    (resolvePrepared services world txn now).txn =
      if (resolvePrepared services world txn now).succeeded
      then { txn with pendingOffsets := ∅, state := .complete commit }
      else txn := by
  simp only [resolvePrepared, decide_prepareCommit hstate]
  cases (writeMarkers services world txn commit now).2.2 with
  | false => simp
  | true =>
    have htxn := resolvePendingOffsets_txn services
      (writeMarkers services world txn commit now).1 txn commit
    cases hsucceeded : (resolvePendingOffsets services
        (writeMarkers services world txn commit now).1 txn commit).succeeded
      with
    | false => simpa [hsucceeded] using htxn
    | true => simp [htxn, hsucceeded]

theorem resolvePrepared_advances (world : σ) (now : Int)
    (hstate : txn.state = .prepare commit) :
    Advances txn (resolvePrepared services world txn now).txn
      (resolvePrepared services world txn now).events := by
  constructor
  · rw [resolvePrepared_txn services world now hstate]
    split <;> exact ⟨rfl, rfl, rfl, rfl⟩
  intro life hmatches
  rw [resolvePrepared_txn services world now hstate]
  simp only [resolvePrepared, decide_prepareCommit hstate]
  obtain ⟨marked, hmarked, hdone⟩ := writeMarkers_run services world now
    hmatches (hmatches.state.symm.trans hstate)
  have hafter : txn.Matches { life with marked := marked } :=
    ⟨hmatches.state, hmatches.partitions, hmatches.groupId, hmatches.pendingOffsets⟩
  cases hwritten : (writeMarkers services world txn commit now).2.2 with
  | false => exact ⟨_, by simpa using hmarked, by simpa using hafter⟩
  | true =>
    obtain ⟨pending, hpending, hempty, hsame⟩ := resolvePendingOffsets_run
      services (writeMarkers services world txn commit now).1 hafter
      (hmatches.state.symm.trans hstate) (hdone hwritten)
    cases hsucceeded : (resolvePendingOffsets services
        (writeMarkers services world txn commit now).1 txn commit).succeeded
      with
    | false =>
      refine ⟨{ life with marked := marked, pendingOffsets := pending }, ?_, ?_⟩
      · simp [Life.run_append, hmarked, hpending]
      · simp only [Bool.not_true, Bool.false_eq_true, Bool.not_false, ↓reduceIte]
        exact ⟨hmatches.state, hmatches.partitions, hmatches.groupId,
          (hsame hsucceeded).symm⟩
    | true =>
      refine ⟨{ life with
        marked := marked, pendingOffsets := ∅, state := .complete commit },
        ?_, ?_⟩
      · have hnext : Life.next { life with
            marked := marked, pendingOffsets := pending }
            (.completed commit) = some { life with
              marked := marked, pendingOffsets := ∅,
              state := .complete commit } := by
          exact if_pos ⟨hmatches.state.symm.trans hstate,
            hdone hwritten, hempty hsucceeded⟩
        simp [Life.run_append, hmarked, hpending, Life.run, hnext]
      · simp only [Bool.not_true, Bool.false_eq_true, ↓reduceIte]
        exact ⟨rfl, hmatches.partitions, hmatches.groupId, rfl⟩

end Advancing

namespace TransactionCoordinator

variable {σ : Type} {tc : TransactionCoordinator} {txn : TransactionMetadata}
  {id : String} (services : Services σ)

theorem moves_addPartitions {req : AddPartitionsToTxnRequest}
    (hfind : tc.transactions.find? req.transactionId = some txn)
    (hongoing : txn.state = .ongoing) :
    Moves tc (tc.addPartitions txn req) :=
  (Relation.ReflTransGen.single
    (.advance hfind (appendPartitions_advances hongoing req.partitions))).tail
      (.log (find?_insert_self _ _ _))

theorem find?_of_live (hlive : tc.live id = some txn) :
    tc.transactions.find? id = some txn := by
  simp only [live, Option.filter_eq_some_iff] at hlive
  exact hlive.1

/-- A request for partitions carries the transaction of its ID on, or starts
one where the ID has none that is live. -/
theorem addPartitionsToTxn_cases (tc : TransactionCoordinator)
    (req : AddPartitionsToTxnRequest) (now : Int) :
    (tc.addPartitionsToTxn req now).1 = tc ∨
    (∃ producer, let txn := tc.newTransaction req producer now
      tc.live req.transactionId = none ∧ (tc.addPartitionsToTxn req now).1 =
        ((tc.start txn).logTransaction txn).addPartitions txn req) ∨
    ∃ txn, tc.transactions.find? req.transactionId = some txn ∧ txn.state = .ongoing ∧
      (tc.addPartitionsToTxn req now).1 = tc.addPartitions txn req := by
  unfold addPartitionsToTxn
  cases tc.validateProducer req.producerId req.producerEpoch with
  | error message => exact Or.inl rfl
  | ok _ =>
    cases hlive : tc.live req.transactionId with
    | none =>
      cases tc.producers.find? req.producerId with
      | none => exact Or.inl rfl
      | some producer => exact Or.inr (Or.inl ⟨producer, rfl, rfl⟩)
    | some txn =>
      dsimp only
      split
      · exact Or.inl rfl
      · split
        · exact Or.inl rfl
        next hongoing _ =>
          exact Or.inr (Or.inr ⟨txn, find?_of_live hlive, not_not.mp hongoing, rfl⟩)

theorem effect_addPartitionsToTxn (tc : TransactionCoordinator)
    (req : AddPartitionsToTxnRequest) (now : Int) :
    Effect tc (tc.addPartitionsToTxn req now).1 := by
  rcases tc.addPartitionsToTxn_cases req now with
    hsame | ⟨producer, hfree, hresult⟩ | ⟨txn, hfind, hongoing, hresult⟩
  · rw [hsame]
    exact .carry .refl
  · rw [hresult]
    exact .start hfree rfl ⟨rfl, rfl, rfl, rfl⟩
      (moves_addPartitions (find?_insert_self _ _ _) rfl)
  · rw [hresult]
    exact .carry (moves_addPartitions hfind hongoing)

/-- The conditions under which a group is recorded. -/
structure RecordsGroup (tc : TransactionCoordinator)
    (req : AddOffsetsToTxnRequest) (txn : TransactionMetadata) : Prop where
  valid : tc.validateProducer req.producerId req.producerEpoch = .ok ()
  stored : tc.transactions.find? req.transactionId = some txn
  ongoing : txn.state = .ongoing
  group : txn.groupId = "" ∨ txn.groupId = req.groupId

theorem addOffsetsToTxn_cases (tc : TransactionCoordinator)
    (req : AddOffsetsToTxnRequest) :
    (∃ code, code ≠ .none ∧ tc.addOffsetsToTxn req = (tc, code)) ∨
    ∃ txn, RecordsGroup tc req txn ∧
      tc.addOffsetsToTxn req = (tc.save req.transactionId
        { txn with groupId := req.groupId } [.grouped req.groupId], .none) := by
  unfold addOffsetsToTxn
  cases hvalid : tc.validateProducer req.producerId req.producerEpoch with
  | error message => exact Or.inl ⟨.producerFenced, by decide, rfl⟩
  | ok _ =>
    cases hfind : tc.transactions.find? req.transactionId with
    | none => exact Or.inl ⟨.invalidTransactionState, by decide, rfl⟩
    | some txn =>
      dsimp only
      split
      · exact Or.inl ⟨.invalidTransactionState, by decide, rfl⟩
      · split
        · exact Or.inl ⟨.invalidTransactionState, by decide, rfl⟩
        next hongoing hgroup =>
          rw [not_and_or, not_not, not_not] at hgroup
          exact Or.inr ⟨txn, ⟨hvalid, hfind, not_not.mp hongoing, hgroup⟩, rfl⟩

theorem moves_addOffsetsToTxn (tc : TransactionCoordinator)
    (req : AddOffsetsToTxnRequest) : Moves tc (tc.addOffsetsToTxn req).1 := by
  rcases tc.addOffsetsToTxn_cases req with
    ⟨_, -, hresult⟩ | ⟨txn, hrecords, hresult⟩
  · rw [hresult]
  · rw [hresult]
    exact .single (.advance hrecords.stored
      (group_advances hrecords.ongoing hrecords.group))

/-- Offsets are recorded for the owner of an ongoing transaction only; every
other request gets an error for each of its partitions. -/
theorem txnOffsetCommit_cases (tc : TransactionCoordinator)
    (req : TxnOffsetCommitRequest) :
    (∃ code, code ≠ .none ∧ tc.txnOffsetCommit services req = (tc,
      buildPartitionErrors (partitionsFromOffsets req.offsets) code)) ∨
    ∃ txn, tc.transactions.find? req.transactionId = some txn ∧
      txn.state = .ongoing ∧ txn.groupId ≠ "" ∧
      (txn.producerId = req.producerId ∧ txn.producerEpoch = req.producerEpoch) ∧
      tc.txnOffsetCommit services req = (tc.save req.transactionId
        { txn with
          pendingOffsets := txn.pendingOffsets.mergeAll req.offsets }
        [.acknowledged req.offsets],
        buildPartitionErrors (partitionsFromOffsets req.offsets) .none) := by
  unfold txnOffsetCommit
  cases tc.validateProducer req.producerId req.producerEpoch with
  | error message => exact Or.inl ⟨.producerFenced, by decide, rfl⟩
  | ok _ =>
    cases hfind : tc.transactions.find? req.transactionId with
    | none => exact Or.inl ⟨.invalidTransactionState, by decide, rfl⟩
    | some txn =>
      dsimp only
      split
      · exact Or.inl ⟨.invalidTransactionState, by decide, rfl⟩
      · split
        · exact Or.inl ⟨.invalidProducerIdMapping, by decide, rfl⟩
        · split
          · exact Or.inl ⟨.invalidTransactionState, by decide, rfl⟩
          · split
            · exact Or.inl ⟨.transactionCoordinatorNotAvailable, by decide, rfl⟩
            next hongoing hproducer hgroup _ =>
              rw [not_or, not_not, not_not] at hproducer
              exact Or.inr ⟨txn, rfl, not_not.mp hongoing,
                (not_or.mp hgroup).1, hproducer, rfl⟩

theorem moves_txnOffsetCommit (tc : TransactionCoordinator)
    (req : TxnOffsetCommitRequest) :
    Moves tc (tc.txnOffsetCommit services req).1 := by
  rcases txnOffsetCommit_cases services tc req with
    ⟨_, -, hresult⟩ | ⟨txn, hfind, hongoing, hgroup, -, hresult⟩
  · rw [hresult]
  · rw [hresult]
    exact .single (.advance hfind (offsets_advances req.offsets hongoing hgroup))

theorem moves_prepare (commit : Bool) (hfind : tc.transactions.find? id = some txn)
    (hongoing : txn.state = .ongoing) :
    Moves tc (tc.prepare id txn commit).1 :=
  (Relation.ReflTransGen.single
    (.advance hfind (prepare_advances commit hongoing))).tail
      (.log (find?_insert_self _ _ _))

theorem moves_finish (world : σ) (commit : Bool) (now : Int)
    (hfind : tc.transactions.find? id = some txn)
    (hstate : txn.state = .prepare commit) :
    Moves tc (tc.finish services world id txn now).1 := by
  have hadvance : Moves tc (tc.save id (resolvePrepared services world txn now).txn
      (resolvePrepared services world txn now).events) :=
    .single (.advance hfind (resolvePrepared_advances services world now hstate))
  have htxn := resolvePrepared_txn services world now hstate
  unfold finish
  dsimp only
  split
  next hsucceeded =>
    rw [if_pos hsucceeded] at htxn
    have hserial : (resolvePrepared services world txn now).txn.serial =
        txn.serial := by rw [htxn]
    rw [← hserial]
    refine (hadvance.tail (.log (find?_insert_self _ _ _))).tail
      (.schedule (find?_insert_self _ _ _) ?_)
    rw [htxn]
    exact TransactionState.isTerminal_complete commit
  · exact hadvance

/-- After phase one the transaction is stored and prepared for the requested
outcome. -/
theorem moves_prepareOnce {commit : Bool}
    (hfind : tc.transactions.find? id = some txn)
    (hcode : endTxnStateError txn commit = .none) :
    Moves tc (tc.prepareOnce id txn commit).1 ∧
      (tc.prepareOnce id txn commit).1.transactions.find? id =
        some (tc.prepareOnce id txn commit).2 ∧
      (tc.prepareOnce id txn commit).2.state = .prepare commit := by
  unfold prepareOnce
  split
  next hongoing =>
    exact ⟨moves_prepare commit hfind hongoing, find?_insert_self _ _ _, rfl⟩
  next hongoing =>
    refine ⟨.refl, hfind, ?_⟩
    rw [endTxnStateError] at hcode
    cases hstate : txn.state <;> cases commit <;>
      simp_all [TransactionState.prepare]

/-- Only the owner of a transaction ends it, and only one that may end that
way. -/
theorem endTxn_cases (tc : TransactionCoordinator) (world : σ)
    (req : EndTxnRequest) (now : Int) :
    (∃ code, code ≠ .none ∧ tc.endTxn services world req now = (tc, world, code)) ∨
    ∃ txn, tc.transactions.find? req.transactionId = some txn ∧
      endTxnStateError txn req.commit = .none ∧
      (txn.producerId = req.producerId ∧ txn.producerEpoch = req.producerEpoch) ∧
      let prepared := tc.prepareOnce req.transactionId txn req.commit
      let finished := prepared.1.finish services world req.transactionId
        prepared.2 now
      tc.endTxn services world req now = (finished.1, finished.2.1,
        if finished.2.2 then .none
          else .transactionCoordinatorNotAvailable) := by
  unfold endTxn
  cases tc.validateProducer req.producerId req.producerEpoch with
  | error message => exact Or.inl ⟨.producerFenced, by decide, rfl⟩
  | ok _ =>
    cases hfind : tc.transactions.find? req.transactionId with
    | none => exact Or.inl ⟨.invalidTransactionState, by decide, rfl⟩
    | some txn =>
      dsimp only
      split
      · exact Or.inl ⟨_, ‹_›, rfl⟩
      · split
        · exact Or.inl ⟨.invalidProducerIdMapping, by decide, rfl⟩
        next hcode hproducer =>
          rw [not_or, not_not, not_not] at hproducer
          exact Or.inr ⟨txn, rfl, not_not.mp hcode, hproducer, rfl⟩

theorem moves_endTxn (tc : TransactionCoordinator) (world : σ)
    (req : EndTxnRequest) (now : Int) :
    Moves tc (tc.endTxn services world req now).1 := by
  rcases endTxn_cases services tc world req now with
    ⟨_, -, hresult⟩ | ⟨txn, hfind, hcode, -, hresult⟩
  · rw [hresult]
  · rw [hresult]
    obtain ⟨hmoves, hstored, hstate⟩ := moves_prepareOnce hfind hcode
    exact hmoves.trans (moves_finish services world req.commit now hstored hstate)

theorem moves_expire (tc : TransactionCoordinator) (world : σ) (id : String)
    (now : Int) :
    Moves tc (tc.expire services world id now).1 := by
  unfold expire
  cases hfind : tc.transactions.find? id with
  | none => exact .refl
  | some txn =>
    dsimp only
    split
    · exact .refl
    · cases hstate : txn.state with
      | ongoing =>
        exact (moves_prepare false hfind hstate).trans
          (moves_finish services world false now (find?_insert_self _ _ _) rfl)
      | prepareCommit =>
        exact moves_finish services world true now hfind hstate
      | prepareAbort =>
        exact moves_finish services world false now hfind hstate
      | _ => exact .refl

theorem moves_checkExpiredTransactions (tc : TransactionCoordinator) (world : σ)
    (visits : List (String × Int)) :
    Moves tc (tc.checkExpiredTransactions services world visits).1 := by
  induction visits generalizing tc world with
  | nil => exact .refl
  | cons visit rest ih =>
    exact (moves_expire services tc world visit.1 visit.2).trans (ih _ _)

end TransactionCoordinator

/-- The operations that neither register a producer nor clean up. -/
def TxnOperation.Works : TxnOperation → Prop
  | .initProducerId _ | .cleanup _ _ => False
  | _ => True

theorem CoordinatorRun.step_effect {σ : Type} (services : Services σ)
    (run : CoordinatorRun σ) {op : TxnOperation} (hop : op.Works) :
    Effect run.tc (run.step services op).tc := by
  cases op with
  | initProducerId req => exact hop.elim
  | addPartitionsToTxn req now =>
    exact run.tc.effect_addPartitionsToTxn req now
  | addOffsetsToTxn req => exact .carry (run.tc.moves_addOffsetsToTxn req)
  | txnOffsetCommit req =>
    exact .carry (run.tc.moves_txnOffsetCommit services req)
  | endTxn req now =>
    exact .carry (run.tc.moves_endTxn services run.world req now)
  | checkExpiredTransactions visits =>
    exact .carry (run.tc.moves_checkExpiredTransactions services run.world visits)
  | cleanup id serial => exact hop.elim

/-- Registering a producer leaves everything else as it is. -/
theorem TransactionCoordinator.initProducerId_frame
    (tc : TransactionCoordinator) (req : InitProducerIdRequest) :
    (tc.initProducerId req).1 = { tc with
      producers := (tc.initProducerId req).1.producers
      nextProducerId := (tc.initProducerId req).1.nextProducerId } := by
  unfold initProducerId
  dsimp only
  split
  · rfl
  · split <;> rfl

theorem producers_effect {tc after : TransactionCoordinator}
    (heffect : Effect tc after) : after.producers = tc.producers ∧
      after.nextProducerId = tc.nextProducerId ∧ after.config = tc.config := by
  have hmoves : ∀ {tc after : TransactionCoordinator}, Moves tc after →
      after.producers = tc.producers ∧ after.nextProducerId = tc.nextProducerId ∧
        after.config = tc.config := by
    intro tc after hmoves
    induction hmoves with
    | refl => exact ⟨rfl, rfl, rfl⟩
    | tail _ hmove ih => cases hmove <;> exact ih
  cases heffect with
  | carry hcarry => exact hmoves hcarry
  | start _ _ _ hcarry =>
    have hkept := hmoves hcarry
    exact hkept

theorem TransactionCoordinator.find?_cleanup {tc : TransactionCoordinator}
    {id probe : String} {serial : Nat} {txn : TransactionMetadata}
    (hfind : (tc.cleanup id serial).transactions.find? probe = some txn) :
    tc.transactions.find? probe = some txn := by
  unfold cleanup at hfind
  split at hfind
  · simp only [find?_erase] at hfind
    split at hfind
    · cases hfind
    · exact hfind
  · exact hfind

@[simp] theorem TransactionCoordinator.started_cleanup
    (tc : TransactionCoordinator) (id : String) (serial : Nat) :
    (tc.cleanup id serial).started = tc.started := by
  unfold cleanup
  split <;> rfl

@[simp] theorem TransactionCoordinator.history_cleanup
    (tc : TransactionCoordinator) (id : String) (serial : Nat) :
    (tc.cleanup id serial).history = tc.history := by
  unfold cleanup
  split <;> rfl

@[simp] theorem TransactionCoordinator.producers_cleanup
    (tc : TransactionCoordinator) (id : String) (serial : Nat) :
    (tc.cleanup id serial).producers = tc.producers := by
  unfold cleanup
  split <;> rfl

end Streambus
