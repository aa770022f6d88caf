/-
The transaction coordinator: it hands out producer identities, keeps one
transaction per transactional ID, and ends a transaction in two phases with a
marker on every partition it touched.  The marker writer and the offset
committer are arbitrary functions of a world that may fail at any call; the
broker's topics are one such world.  The number of a transaction stands for the
identity of its metadata; what happens to each is recorded beside the
coordinator's own state.
-/
import Mathlib.Data.List.Sort
import Streambus.Partition
import Streambus.TransactionLife

namespace Streambus

open OrderedMap

instance producerIdLinearOrder : LinearOrder Int64 where
  le_refl := Int64.le_refl
  le_trans _ _ _ := Int64.le_trans
  lt_iff_le_not_ge _ _ := Std.lt_iff_le_and_not_ge
  le_antisymm _ _ := Int64.le_antisymm
  le_total := Int64.le_total
  toDecidableLE := inferInstance

/-- The metadata of a transaction.  `serial` tells apart the transactions that
follow each other under one ID. -/
structure TransactionMetadata where
  transactionId : String
  producerId : Int64
  producerEpoch : Int16
  state : TransactionState
  partitions : List PartitionMetadata
  transactionTimeout : Int
  startTime : Int
  groupId : String
  pendingOffsets : PartitionMap OffsetMetadata
  serial : Nat
deriving DecidableEq

variable (txn : TransactionMetadata)

def TransactionMetadata.isExpired (now : Int) :
    Bool :=
  decide (now - txn.startTime > txn.transactionTimeout)

structure ProducerMetadata where
  producerId : Int64
  producerEpoch : Int16
  transactionId : String
  transactionTimeout : Int
deriving DecidableEq

inductive ErrorCode where
  | none
  | invalidProducerEpoch
  | invalidTransactionState
  | invalidProducerIdMapping
  | transactionCoordinatorNotAvailable
  | transactionCoordinatorFenced
  | producerFenced
  | invalidTransactionTimeout
  | concurrentTransactions
  | transactionAborted
  | invalidPartitionList
deriving Repr, DecidableEq

structure InitProducerIdRequest where
  transactionId : String
  transactionTimeout : Int
deriving DecidableEq

structure InitProducerIdResponse where
  producerId : Int64
  producerEpoch : Int16
  errorCode : ErrorCode
deriving DecidableEq

structure AddPartitionsToTxnRequest where
  transactionId : String
  producerId : Int64
  producerEpoch : Int16
  partitions : List PartitionMetadata
deriving DecidableEq

structure EndTxnRequest where
  transactionId : String
  producerId : Int64
  producerEpoch : Int16
  commit : Bool
deriving DecidableEq

structure AddOffsetsToTxnRequest where
  transactionId : String
  producerId : Int64
  producerEpoch : Int16
  groupId : String
deriving DecidableEq

structure TxnOffsetCommitRequest where
  transactionId : String
  groupId : String
  producerId : Int64
  producerEpoch : Int16
  offsets : PartitionMap OffsetMetadata
deriving DecidableEq

structure TransactionLogEntry where
  transactionId : String
  producerId : Int64
  producerEpoch : Int16
  state : TransactionState
  partitions : List PartitionMetadata
deriving DecidableEq

structure CoordinatorConfig where
  defaultTransactionTimeout : Int
  maxTransactionTimeout : Int
deriving DecidableEq

/-- The coordinator.  `scheduled` holds the cleanups that sleep, each with the
number of the transaction that asked for it; `started` counts transactions and
`history` records what happened to them. -/
structure TransactionCoordinator where
  transactions : OrderedMap String TransactionMetadata
  producers : OrderedMap Int64 ProducerMetadata
  config : CoordinatorConfig
  nextProducerId : Int64
  txnLog : Option (OrderedMap String TransactionLogEntry)
  scheduled : List (String × Nat)
  started : Nat
  history : List (Nat × LifeEvent)
deriving DecidableEq

/-- What the coordinator calls: both may be missing, and each call may fail. -/
structure Services (σ : Type) where
  markerWriter : Option (σ → PartitionMetadata → TransactionMarker → σ × Bool)
  offsetCommitter : Option (σ → String → PartitionMap OffsetMetadata → σ × Bool)

def newTransactionCoordinator
    (txnLog : Option (OrderedMap String TransactionLogEntry))
    (config : CoordinatorConfig) : TransactionCoordinator :=
  ⟨∅, ∅, config, 1000, txnLog, [], 0, []⟩

def isTerminalState (state : TransactionState) : Bool :=
  state == .completeCommit || state == .completeAbort

theorem isTerminalState_eq (state : TransactionState) :
    isTerminalState state = state.isTerminal := by
  cases state <;> rfl

/-- Record an error for every partition of a request. -/
def buildPartitionErrors (partitions : List PartitionMetadata)
    (code : ErrorCode) : PartitionMap ErrorCode :=
  partitions.foldl (fun errors partition =>
    PartitionMap.set errors partition.topic partition.partition code) ∅

def partitionsFromOffsets (offsets : PartitionMap OffsetMetadata) :
    List PartitionMetadata :=
  offsets.entries.flatMap fun entry =>
    entry.2.keys.map fun partition => ⟨entry.1, partition⟩

def partitionExists (partition : PartitionMetadata) : Bool :=
  txn.partitions.any fun p =>
    p.topic == partition.topic && p.partition == partition.partition

/-- Add the partitions a transaction does not have yet. -/
def appendPartitions (txn : TransactionMetadata) :
    List PartitionMetadata → TransactionMetadata × List LifeEvent
  | [] => (txn, [])
  | partition :: rest =>
    if partitionExists txn partition then appendPartitions txn rest
    else
      let appended := appendPartitions
        { txn with partitions := txn.partitions ++ [partition] } rest
      (appended.1, .joined partition :: appended.2)

/-- The error `EndTxn` answers with for a transaction in a state. -/
def endTxnStateError (commit : Bool) : ErrorCode :=
  match txn.state with
  | .ongoing => .none
  | .prepareCommit => if commit then .none else .invalidTransactionState
  | .prepareAbort => if !commit then .none else .invalidTransactionState
  | _ => .invalidTransactionState

def PartitionMetadata.precedes (left right : PartitionMetadata) : Prop :=
  left.topic < right.topic ∨
    left.topic = right.topic ∧ left.partition ≤ right.partition
deriving Decidable

def sortedPartitions (partitions : List PartitionMetadata) : List PartitionMetadata :=
  partitions.insertionSort PartitionMetadata.precedes

section Resolution

variable {σ : Type}

/-- What resolving a transaction came to. -/
structure Resolution (σ : Type) where
  world : σ
  txn : TransactionMetadata
  events : List LifeEvent
  succeeded : Bool

/-- Write a marker to one partition after the other, up to the first failure. -/
def writeEach (write : σ → PartitionMetadata → TransactionMarker → σ × Bool)
    (marker : TransactionMarker) (world : σ) :
    List PartitionMetadata → σ × List LifeEvent × Bool
  | [] => (world, [], true)
  | partition :: rest =>
    let written := write world partition marker
    if written.2 then
      let others := writeEach write marker written.1 rest
      (others.1, .marked partition marker.commit true :: others.2.1, others.2.2)
    else (written.1, [.marked partition marker.commit false], false)

variable (services : Services σ)

def writeMarkers (world : σ) (txn : TransactionMetadata) (commit : Bool) (now : Int) :
    σ × List LifeEvent × Bool :=
  if txn.partitions = [] then (world, [], true)
  else
    match services.markerWriter with
    | none => (world, [], false)
    | some write =>
      writeEach write ⟨txn.producerId, txn.producerEpoch, commit, now⟩ world
        (sortedPartitions txn.partitions)

def resolvePendingOffsets (world : σ) (txn : TransactionMetadata)
    (commit : Bool) : Resolution σ :=
  if txn.pendingOffsets = ∅ then ⟨world, txn, [], true⟩
  else if !commit then ⟨world, { txn with pendingOffsets := ∅ }, [], true⟩
  else
    match services.offsetCommitter with
    | none => ⟨world, txn, [], false⟩
    | some publish =>
      let published := publish world txn.groupId txn.pendingOffsets
      let event := LifeEvent.published txn.groupId txn.pendingOffsets published.2
      if published.2 then
        ⟨published.1, { txn with pendingOffsets := ∅ }, [event], true⟩
      else ⟨published.1, txn, [event], false⟩

/-- Phases two and three of a transaction in a prepare state, whose outcome is
the one its state records. -/
def resolvePrepared (world : σ) (txn : TransactionMetadata) (now : Int) :
    Resolution σ :=
  let commit := txn.state = .prepareCommit
  let marked := writeMarkers services world txn commit now
  if !marked.2.2 then ⟨marked.1, txn, marked.2.1, false⟩
  else
    let resolved := resolvePendingOffsets services marked.1 txn commit
    if !resolved.succeeded then
      { resolved with events := marked.2.1 ++ resolved.events }
    else
      { resolved with
        txn := { resolved.txn with state := .complete commit }
        events := marked.2.1 ++ resolved.events ++ [.completed commit] }

end Resolution

namespace TransactionCoordinator

variable (tc : TransactionCoordinator)

/-- Store metadata and record what happened to it. -/
def save (id : String) (txn : TransactionMetadata) (events : List LifeEvent) :
    TransactionCoordinator :=
  { tc with
    transactions := tc.transactions.insert id txn
    history := tc.history ++ events.map fun event => (txn.serial, event) }

def logTransaction (txn : TransactionMetadata) :
    TransactionCoordinator :=
  { tc with
    txnLog := tc.txnLog.map fun entries =>
      entries.insert txn.transactionId
        ⟨txn.transactionId, txn.producerId, txn.producerEpoch, txn.state,
          txn.partitions⟩ }

def scheduleTransactionCleanup (id : String) (serial : Nat) :
    TransactionCoordinator :=
  { tc with scheduled := (id, serial) :: tc.scheduled }

/-- A scheduled cleanup wakes up. -/
def cleanup (id : String) (serial : Nat) :
    TransactionCoordinator :=
  if (id, serial) ∈ tc.scheduled then
    { tc with
      transactions := tc.transactions.erase id
      txnLog := tc.txnLog.map fun entries => entries.erase id
      scheduled := tc.scheduled.erase (id, serial) }
  else tc

def validateProducer (producerId : Int64) (epoch : Int16) : Except String Unit :=
  match tc.producers.find? producerId with
  | none => .error s!"unknown producer ID: {producerId}"
  | some producer =>
    if producer.producerEpoch ≠ epoch then
      let expected := producer.producerEpoch
      .error s!"producer epoch mismatch: expected {expected}, got {epoch}"
    else .ok ()

def findProducerByTransactionId (id : String) : Option ProducerMetadata :=
  (tc.producers.entries.map Prod.snd).find? fun producer =>
    producer.transactionId == id

/-- The timeout a request asks for, the default if it asks for none. -/
def timeoutOf (req : InitProducerIdRequest) :
    Int :=
  if req.transactionTimeout = 0 then tc.config.defaultTransactionTimeout
  else req.transactionTimeout

def initProducerId (req : InitProducerIdRequest) :
    TransactionCoordinator × InitProducerIdResponse :=
  let timeout := tc.timeoutOf req
  if timeout > tc.config.maxTransactionTimeout then
    (tc, ⟨0, 0, .invalidTransactionTimeout⟩)
  else
    match tc.findProducerByTransactionId req.transactionId with
    | some existing =>
      -- The next epoch fences the producer that had the ID before.
      let epoch := existing.producerEpoch + 1
      let producer : ProducerMetadata :=
        ⟨existing.producerId, epoch, req.transactionId, timeout⟩
      ({ tc with
          producers := tc.producers.insert existing.producerId producer },
        ⟨existing.producerId, epoch, .none⟩)
    | none =>
      let producerId := tc.nextProducerId + 1
      let producer : ProducerMetadata :=
        ⟨producerId, 0, req.transactionId, timeout⟩
      ({ tc with
          nextProducerId := producerId
          producers := tc.producers.insert producerId producer },
        ⟨producerId, 0, .none⟩)

/-- The transaction of an ID that has not ended. -/
def live (id : String) : Option TransactionMetadata :=
  (tc.transactions.find? id).filter fun txn => !isTerminalState txn.state

def newTransaction (req : AddPartitionsToTxnRequest)
    (producer : ProducerMetadata) (now : Int) : TransactionMetadata where
  transactionId := req.transactionId
  producerId := req.producerId
  producerEpoch := req.producerEpoch
  state := .ongoing
  partitions := []
  transactionTimeout := producer.transactionTimeout
  startTime := now
  groupId := ""
  pendingOffsets := ∅
  serial := tc.started

/-- Put a new transaction in the place of whatever its ID had. -/
def start (txn : TransactionMetadata) :
    TransactionCoordinator :=
  { tc.save txn.transactionId txn [.started] with started := tc.started + 1 }

/-- Add the partitions of a request to a transaction of its producer. -/
def addPartitions (txn : TransactionMetadata)
    (req : AddPartitionsToTxnRequest) : TransactionCoordinator :=
  let appended := appendPartitions txn req.partitions
  (tc.save req.transactionId appended.1 appended.2).logTransaction appended.1

def addPartitionsToTxn (req : AddPartitionsToTxnRequest) (now : Int) :
    TransactionCoordinator × Except String (PartitionMap ErrorCode) :=
  match tc.validateProducer req.producerId req.producerEpoch with
  | .error message => (tc, .error message)
  | .ok () =>
    match tc.live req.transactionId with
    | none =>
      match tc.producers.find? req.producerId with
      | none =>
        (tc, .ok (buildPartitionErrors req.partitions .invalidProducerIdMapping))
      | some producer =>
        let txn := tc.newTransaction req producer now
        (((tc.start txn).logTransaction txn).addPartitions txn req, .ok ∅)
    | some txn =>
      if txn.state ≠ .ongoing then
        (tc, .ok (buildPartitionErrors req.partitions .invalidTransactionState))
      else if txn.producerId ≠ req.producerId ∨
          txn.producerEpoch ≠ req.producerEpoch then
        (tc, .ok (buildPartitionErrors req.partitions .invalidProducerIdMapping))
      else (tc.addPartitions txn req, .ok ∅)

def addOffsetsToTxn (req : AddOffsetsToTxnRequest) :
    TransactionCoordinator × ErrorCode :=
  match tc.validateProducer req.producerId req.producerEpoch with
  | .error _ => (tc, .producerFenced)
  | .ok () =>
    match tc.transactions.find? req.transactionId with
    | none => (tc, .invalidTransactionState)
    | some txn =>
      if txn.state ≠ .ongoing then (tc, .invalidTransactionState)
      else if txn.groupId ≠ "" ∧ txn.groupId ≠ req.groupId then
        (tc, .invalidTransactionState)
      else
        (tc.save req.transactionId { txn with groupId := req.groupId }
          [.grouped req.groupId], .none)

section Calls

variable {σ : Type} (services : Services σ)

def txnOffsetCommit (tc : TransactionCoordinator) (req : TxnOffsetCommitRequest) :
    TransactionCoordinator × PartitionMap ErrorCode :=
  let errors := buildPartitionErrors (partitionsFromOffsets req.offsets)
  match tc.validateProducer req.producerId req.producerEpoch with
  | .error _ => (tc, errors .producerFenced)
  | .ok () =>
    match tc.transactions.find? req.transactionId with
    | none => (tc, errors .invalidTransactionState)
    | some txn =>
      if txn.state ≠ .ongoing then (tc, errors .invalidTransactionState)
      else if txn.producerId ≠ req.producerId ∨
          txn.producerEpoch ≠ req.producerEpoch then
        (tc, errors .invalidProducerIdMapping)
      else if txn.groupId = "" ∨ txn.groupId ≠ req.groupId then
        (tc, errors .invalidTransactionState)
      else if services.offsetCommitter.isNone then
        (tc, errors .transactionCoordinatorNotAvailable)
      else
        let pending := txn.pendingOffsets.mergeAll req.offsets
        (tc.save req.transactionId { txn with pendingOffsets := pending }
          [.acknowledged req.offsets], errors .none)

/-- Record the outcome of an ongoing transaction. -/
def prepare (tc : TransactionCoordinator) (id : String)
    (txn : TransactionMetadata) (commit : Bool) :
    TransactionCoordinator × TransactionMetadata :=
  let prepared := { txn with state := .prepare commit }
  ((tc.save id prepared [.prepared commit]).logTransaction prepared, prepared)

/-- Phase one, only the first time through: a retry finds the outcome
recorded. -/
def prepareOnce (tc : TransactionCoordinator) (id : String)
    (txn : TransactionMetadata) (commit : Bool) :
    TransactionCoordinator × TransactionMetadata :=
  if txn.state = .ongoing then tc.prepare id txn commit else (tc, txn)

/-- Resolve a prepared transaction, and have it cleaned up if that worked. -/
def finish (tc : TransactionCoordinator) (world : σ) (id : String)
    (txn : TransactionMetadata) (now : Int) :
    TransactionCoordinator × σ × Bool :=
  let resolution := resolvePrepared services world txn now
  let stored := tc.save id resolution.txn resolution.events
  if resolution.succeeded then
    ((stored.logTransaction resolution.txn).scheduleTransactionCleanup id
      txn.serial, resolution.world, true)
  else (stored, resolution.world, false)

def endTxn (tc : TransactionCoordinator) (world : σ) (req : EndTxnRequest)
    (now : Int) :
    TransactionCoordinator × σ × ErrorCode :=
  match tc.validateProducer req.producerId req.producerEpoch with
  | .error _ => (tc, world, .producerFenced)
  | .ok () =>
    match tc.transactions.find? req.transactionId with
    | none => (tc, world, .invalidTransactionState)
    | some txn =>
      let code := endTxnStateError txn req.commit
      if code ≠ .none then (tc, world, code)
      else if txn.producerId ≠ req.producerId ∨
          txn.producerEpoch ≠ req.producerEpoch then
        (tc, world, .invalidProducerIdMapping)
      else
        let prepared := tc.prepareOnce req.transactionId txn req.commit
        let finished := finish services prepared.1 world req.transactionId
          prepared.2 now
        (finished.1, finished.2.1, if finished.2.2 then .none
          else .transactionCoordinatorNotAvailable)

/-- What a sweep does with the transaction of one ID. -/
def expire (tc : TransactionCoordinator) (world : σ) (id : String) (now : Int) :
    TransactionCoordinator × σ :=
  match tc.transactions.find? id with
  | none => (tc, world)
  | some txn =>
    if !txn.isExpired now then (tc, world)
    else
      match txn.state with
      | .ongoing =>
        let prepared := tc.prepare id txn false
        let finished := finish services prepared.1 world id prepared.2 now
        (finished.1, finished.2.1)
      | .prepareCommit | .prepareAbort =>
        let finished := finish services tc world id txn now
        (finished.1, finished.2.1)
      | _ => (tc, world)

/-- A sweep visits the transactions in some order; each visit reads the
clock. -/
def checkExpiredTransactions (services : Services σ)
    (tc : TransactionCoordinator) (world : σ) :
    List (String × Int) → TransactionCoordinator × σ
  | [] => (tc, world)
  | visit :: rest =>
    let expired := expire services tc world visit.1 visit.2
    checkExpiredTransactions services expired.1 expired.2 rest

end Calls

end TransactionCoordinator

/-- The partitions by topic and number. -/
abbrev Topics := PartitionMap Partition

/-- Why a request does not reach a partition. -/
inductive TopicError where
  | alreadyExists (name : String) (numPartitions wanted : Nat)
  | createFailed
  | topicNotFound (name : String)
  | partitionNotFound (name : String) (partitionId : Int)
deriving DecidableEq

namespace Topics

variable (topics : Topics)

def topicExists (name : String) : Bool :=
  (topics.find? name).isSome

/-- Partitions numbered from zero, all without records. -/
def newPartitions : Nat → OrderedMap Int Partition
  | 0 => ∅
  | count + 1 => (newPartitions count).insert count Partition.empty

/-- Creating a topic that exists with as many partitions changes nothing. -/
def createTopic (name : String) (numPartitions : Nat) (fails : Bool) :
    Except TopicError Topics :=
  match topics.find? name with
  | some existing =>
    if existing.entries.length ≠ numPartitions then
      .error (.alreadyExists name existing.entries.length numPartitions)
    else .ok topics
  | none =>
    if fails then .error .createFailed
    else .ok (topics.insert name (newPartitions numPartitions))

def getPartition (name : String) (partitionId : Int) : Except TopicError Partition :=
  match topics.find? name with
  | none => .error (.topicNotFound name)
  | some partitions =>
    match partitions.find? partitionId with
    | none => .error (.partitionNotFound name partitionId)
    | some partition => .ok partition

end Topics

/-- Why a produce request fails: in the topics or in its partition. -/
inductive ProduceError where
  | topic (error : TopicError)
  | request (failure : RequestFailure)
deriving DecidableEq

/-- A produce request for a partition by name, and the faults it meets. -/
structure ProduceCall where
  topic : String
  partitionId : Nat
  request : ProduceRequest
  createFails : Bool
  refused : Bool
deriving DecidableEq

namespace Topics

def handleProduce (topics : Topics) (call : ProduceCall) :
    Topics × Except ProduceError ProduceResponse :=
  let created := if topics.topicExists call.topic then .ok topics
    else topics.createTopic call.topic 1 call.createFails
  match created with
  | .error error => (topics, .error (.topic error))
  | .ok topics =>
    match topics.getPartition call.topic call.partitionId with
    | .error error => (topics, .error (.topic error))
    | .ok partition =>
      let produced := partition.handleProduce call.request call.refused
      (topics.set call.topic call.partitionId produced.1,
        produced.2.mapError .request)

end Topics

/-- The faults a marker meets, and the time it is written at. -/
structure MarkerCall where
  now : Int
  refused : Bool
  flushFails : Bool
deriving DecidableEq

/-- What the coordinator's services act on: the topics, what the coming marker
writes meet, and whether the coming offset commits work. -/
structure Broker where
  topics : Topics
  markerCalls : List MarkerCall
  offsetCommits : List Bool
deriving DecidableEq

namespace Broker

variable (broker : Broker)

def writeMarker (target : PartitionMetadata) (marker : TransactionMarker) :
    Broker × Bool :=
  if target.partition < 0 then (broker, false)
  else
    match broker.topics.getPartition target.topic target.partition with
    | .error _ => (broker, false)
    | .ok partition =>
      let call := broker.markerCalls.headD ⟨0, false, false⟩
      let written := partition.writeMarker marker call.now call.refused
        call.flushFails
      ({ broker with
          topics :=
            broker.topics.set target.topic target.partition written.1
          markerCalls := broker.markerCalls.tail }, written.2)

def commitOffsets (_groupId : String) (_offsets : PartitionMap OffsetMetadata) :
    Broker × Bool :=
  ({ broker with offsetCommits := broker.offsetCommits.tail },
    broker.offsetCommits.headD true)

def services : Services Broker := ⟨some writeMarker, some commitOffsets⟩

end Broker

namespace Topics

variable {partition : Partition} {partitionId : Int} {topics : Topics}
  {name : String}

theorem getPartition_eq_ok : topics.getPartition name partitionId = .ok partition ↔
      topics.lookup name partitionId = some partition := by
  unfold getPartition PartitionMap.lookup
  cases topics.find? name with
  | none => simp
  | some partitions =>
    simp only [Option.bind_some]
    cases partitions.find? partitionId <;> simp

theorem find?_newPartitions {count : Nat}
    (hfind : (newPartitions count).find? partitionId = some partition) :
    partition = Partition.empty := by
  induction count with
  | zero => cases hfind
  | succ count ih =>
    rw [newPartitions, find?_insert] at hfind
    split at hfind
    · exact (Option.some.inj hfind).symm
    · exact ih hfind

/-- Creating a topic adds partitions without records only. -/
theorem lookup_createTopic {created : Topics} {count : Nat} {fails : Bool}
    (hcreated : topics.createTopic name count fails = .ok created)
    {topic : String}
    (hlookup : created.lookup topic partitionId = some partition) :
    topics.lookup topic partitionId = some partition ∨
      partition = Partition.empty := by
  unfold createTopic at hcreated
  cases hfind : topics.find? name with
  | some existing =>
    rw [hfind] at hcreated
    dsimp only at hcreated
    split at hcreated
    · cases hcreated
    · cases hcreated
      exact Or.inl hlookup
  | none =>
    rw [hfind] at hcreated
    dsimp only at hcreated
    split at hcreated
    · cases hcreated
    · cases hcreated
      simp only [PartitionMap.lookup, find?_insert] at hlookup
      split at hlookup
      · exact Or.inr (find?_newPartitions hlookup)
      · exact Or.inl hlookup

end Topics

namespace Partition

variable (partition : Partition)

theorem openTxns_appendBatch (batch : MessageBatch) (refused : Bool) :
    (partition.appendBatch batch refused).1.openTxns = partition.openTxns := by
  unfold appendBatch
  split
  · rfl
  · dsimp only
    split <;> rfl

/-- A produced batch opens at most the transaction of its producer, and only if
it is acknowledged. -/
theorem openTxns_handleProduce {partition : Partition}
    {request : ProduceRequest} {refused : Bool} {key : ProducerKey}
    {start : Int} (hopen : (partition.handleProduce request
      refused).1.openTxns.find? key = some start) :
    partition.openTxns.find? key = some start ∨
      key = request.producer ∧ request.producerId ≠ 0 ∧
        ∃ response, (partition.handleProduce request refused).2 = .ok response := by
  have happended := partition.openTxns_appendBatch request.batch refused
  unfold handleProduce at hopen ⊢
  cases happend : partition.appendBatch request.batch refused with
  | mk after result =>
    rw [happend] at hopen happended
    cases result with
    | error failure =>
      rw [← happended]
      exact Or.inl hopen
    | ok baseOffset =>
      dsimp only at hopen happended ⊢
      rw [← happended]
      unfold beginTransaction at hopen
      split at hopen
      · exact Or.inl hopen
      next hproducer =>
        split at hopen
        · exact Or.inl hopen
        · rw [find?_insert] at hopen
          split at hopen
          · rename_i hkey
            refine Or.inr ⟨hkey.symm, ?_, _, rfl⟩
            intro hzero
            exact hproducer (by rw [ProduceRequest.producer, hzero]; rfl)
          · exact Or.inl hopen

/-- A marker that was written has removed the entry of its transaction, and no
other; one that was not has removed none. -/
theorem openTxns_writeMarker (marker : TransactionMarker) (now : Int)
    (refused flushFails : Bool) :
    (partition.writeMarker marker now refused flushFails).1.openTxns =
      if (partition.writeMarker marker now refused flushFails).2
      then partition.openTxns.erase marker.producer
      else partition.openTxns := by
  have happended := partition.openTxns_appendBatch (marker.batch now) refused
  unfold writeMarker
  cases happend : partition.appendBatch (marker.batch now) refused with
  | mk after result =>
    rw [happend] at happended
    cases result with
    | error failure => simpa using happended
    | ok markerOffset =>
      dsimp only at happended ⊢
      split
      · simpa using happended
      · rw [resolveTransaction_eq]
        split <;> simp [pruneAborted, happended]

end Partition

/-- Open transactions after a produce request were open before, or the request
opened its own. -/
theorem Topics.openTxns_handleProduce {topics : Topics} {call : ProduceCall}
    {topic : String} {partitionId : Int} {partition : Partition}
    {key : ProducerKey} {start : Int}
    (hlookup : (topics.handleProduce call).1.lookup topic partitionId =
      some partition) (hopen : partition.openTxns.find? key = some start) :
    (∃ old, topics.lookup topic partitionId = some old ∧
      old.openTxns.find? key = some start) ∨
    (topic = call.topic ∧ partitionId = call.partitionId ∧
      key = call.request.producer ∧ call.request.producerId ≠ 0 ∧
      (topics.handleProduce call).2.isOk = true) := by
  unfold handleProduce at hlookup ⊢
  cases hcreated : (if topics.topicExists call.topic then .ok topics
      else topics.createTopic call.topic 1 call.createFails) with
  | error error =>
    rw [hcreated] at hlookup
    exact Or.inl ⟨partition, hlookup, hopen⟩
  | ok created =>
    have hnew : ∀ topic partitionId partition,
        created.lookup topic partitionId = some partition →
        partition.openTxns.find? key = some start →
          topics.lookup topic partitionId = some partition := by
      intro topic partitionId partition hfound hfoundOpen
      split at hcreated
      · cases hcreated
        exact hfound
      · rcases lookup_createTopic hcreated hfound with hold | rfl
        · exact hold
        · cases hfoundOpen
    rw [hcreated] at hlookup
    dsimp only at hlookup ⊢
    cases hget : created.getPartition call.topic call.partitionId with
    | error error =>
      rw [hget] at hlookup
      exact Or.inl ⟨partition, hnew _ _ _ hlookup hopen, hopen⟩
    | ok target =>
      rw [hget] at hlookup
      rw [getPartition_eq_ok] at hget
      dsimp only at hlookup ⊢
      rw [PartitionMap.lookup_set] at hlookup
      split at hlookup
      next hsame =>
        obtain ⟨rfl, rfl⟩ := hsame
        cases hlookup
        rcases Partition.openTxns_handleProduce hopen with
          hold | ⟨hkey, hproducer, response, hresponse⟩
        · exact Or.inl ⟨target, hnew _ _ _ hget hold, hold⟩
        · exact Or.inr ⟨rfl, rfl, hkey, hproducer, by rw [hresponse]; rfl⟩
      · exact Or.inl ⟨partition, hnew _ _ _ hlookup hopen, hopen⟩

end Streambus
