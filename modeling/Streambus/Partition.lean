/-
A partition: its log, a list of messages at consecutive offsets, the first
offsets of its open transactions, and the offset ranges of aborted ones.
Producing a batch opens a transaction, writing a marker ends it, and a
read-committed fetch stops at the first offset of an open transaction and hides
the aborted ranges.  A request holds the log's lock or the lock of the
transaction state for one step at a time, so that the steps of different
requests interleave freely.
-/
import Streambus.LogDurability
import Streambus.TextFormat

namespace Streambus

/-- Every message appended so far, at its offset; reads start no earlier than
the start offset. -/
structure PartitionLog where
  startOffset : Int
  records : List Message
deriving DecidableEq

namespace PartitionLog

def empty : PartitionLog := ⟨0, []⟩

variable (log : PartitionLog)

def highWaterMark : Int := log.records.length

/-- The messages of a batch as they are appended. -/
def stamped (batch : MessageBatch) : List Message :=
  batch.stampFrom log.highWaterMark batch.messages

/-- Append a batch and return its offsets. -/
def append (batch : MessageBatch) : PartitionLog × List Int :=
  ({ log with records := log.records ++ log.stamped batch },
    (log.stamped batch).map Message.offset)

def read (offset maxBytes : Int) : Except StorageError (List Message) :=
  if offset < log.startOffset then .error .offsetOutOfRange
  else .ok (takeBudget (some maxBytes) (log.records.drop offset.toNat))

theorem highWaterMark_append (batch : MessageBatch) :
    (log.append batch).1.highWaterMark =
      log.highWaterMark + batch.messages.length := by
  simp [highWaterMark, append, stamped, MessageBatch.stampFrom_length]

end PartitionLog

namespace LogRun

variable {run : LogRun}

/-- The list a log in use stands for. -/
def view (run : LogRun) : PartitionLog := ⟨run.log.logStartOffset, run.acked⟩

/-- What an operation does to the list. -/
def nextList (config : LogConfig) (list : PartitionLog) : LogOp → PartitionLog
  | .append batch _ =>
    if (start config).log.Accepts batch then (list.append batch).1 else list
  | _ => list

/-- The log is served or opened again, in good order and on a device that does
not fail, and no table is dropped too early. -/
def LastsSafely (run : LogRun) (op : LogOp) : Prop :=
  (op.Serves ∨ op matches .reopen) ∧ run.Orderly op ∧ run.Keeps op ∧ run.Spares op
deriving Decidable

/-- The log is readable and stands for a list that starts at zero. -/
structure Stands (config : LogConfig) (run : LogRun) (list : PartitionLog) :
    Prop extends run.Readable where
  config_eq : run.log.config = config
  view_eq : run.view = list
  start_eq : run.log.logStartOffset = 0

variable {config : LogConfig} {list : PartitionLog} {op : LogOp}

/-- An accepted batch is appended to the list, and no other operation on an
open log changes it. -/
theorem Stands.view_step (hstands : run.Stands config list)
    (hserves : op.Serves) (horderly : run.Orderly op) :
    (run.step op).view = nextList config list op := by
  obtain ⟨⟨hsound, -, -⟩, rfl, rfl, -⟩ := hstands
  have hnext : run.log.nextOffset = run.view.highWaterMark := by
    rw [hsound.log.next_eq, records_length]
    rfl
  have hkeeps := @step_keepsBounds run op
  cases op with
  | append batch faults =>
    obtain rfl : faults = [] := hserves
    by_cases haccepts : run.log.Accepts batch
    · obtain ⟨hacked, hcontinues, -⟩ :=
        hsound.append haccepts (horderly haccepts).1
      rw [view, hcontinues.start_eq, hacked, hnext]
      exact (if_pos haccepts).symm
    · rw [step_refused hsound.log.opened haccepts]
      exact (if_neg haccepts).symm
  | delete beforeOffset | close | reopen => exact hserves.elim
  | _ =>
    obtain ⟨-, -, -, hstart, hacked⟩ := hkeeps trivial
    rw [view, hstart, hacked]
    rfl

theorem Stands.step (hstands : run.Stands config list) (hsafe : run.LastsSafely op) :
    (run.step op).Stands config (nextList config list op) := by
  obtain ⟨hlasts, horderly, hkeeps, hspares⟩ := hsafe
  have hconfig := (run.step_shape op).1.trans hstands.config_eq
  have hlegible := hstands.legible.step hkeeps
  rcases hlasts with hserves | hreopens
  · have hopen : op.StaysOpen := by
      cases op with
      | delete beforeOffset | close | reopen => exact hserves
      | _ => trivial
    obtain ⟨hcontinues, hcovers⟩ := hstands.sound.step hopen horderly
    exact ⟨⟨hcontinues.sound, hlegible, hcovers rfl hspares hstands.covers⟩,
      hconfig, hstands.view_step hserves horderly,
      hcontinues.start_eq.trans hstands.start_eq⟩
  · cases op with
    | reopen =>
      obtain ⟨hsound, hacked, hzero, hcovered⟩ :=
        hstands.sound.reopen horderly
      refine ⟨⟨hsound, hlegible, ?_⟩, hconfig, ?_, hzero⟩
      · exact fun offset hlower hupper =>
          hcovered offset hlower (hacked ▸ hupper)
      · rw [← hstands.view_eq, view, hacked, hzero, ← hstands.start_eq]
        rfl
    | _ => cases hreopens

/-- A log that lasts, over restarts too, is the list of the batches it
accepted, and answers every read as the list does. -/
theorem reads_list (config : LogConfig) (ops : List LogOp)
    (hallowed : AllAllowed step LastsSafely (start config) ops) :
    let run := runSteps step (start config) ops
    let list := runSteps (nextList config) .empty ops
    run.view = list ∧ run.log.highWaterMark = list.highWaterMark ∧
      ∀ offset maxBytes, (run.log.read run.disk offset maxBytes).2 =
        list.read offset maxBytes := by
  have hstands : (runSteps step (start config) ops).Stands config
      (runSteps (nextList config) .empty ops) :=
    hallowed.simulates (Stands config) (fun _ _ _ hstands hsafe => hstands.step hsafe)
      ⟨(start_serving config).toReadable, rfl, rfl, rfl⟩
  refine ⟨hstands.view_eq, ?_, ?_⟩
  · rw [← hstands.view_eq]
    exact hstands.readsInPlace.hwm_eq
  · rw [← hstands.view_eq]
    exact hstands.read_eq

/-- A log that is served, opened again and written on. -/
def restartedOps : List LogOp :=
  servedOps ++ [.reopen, .append smallBatch [], .read 1 1]

theorem reads_list_restarted :
    AllAllowed step LastsSafely (start (smallConfig .always 1)) restartedOps ∧
    (runSteps step (start (smallConfig .always 1)) restartedOps).view =
      runSteps (nextList (smallConfig .always 1)) .empty restartedOps :=
  ⟨by decide +kernel, (reads_list _ _ (by decide +kernel)).1⟩

end LogRun

inductive IsolationLevel where
  | readUncommitted
  | readCommitted
deriving Repr, DecidableEq

abbrev Headers := OrderedMap Bytes Bytes

def controlHeaderKey : Bytes := textBytes "streambus.control"

def controlTypeTxnMarker : Bytes := textBytes "txn-marker"

def txnCommitHeaderKey : Bytes := textBytes "streambus.txn.commit"

def txnProducerIdHeaderKey : Bytes := textBytes "streambus.txn.producer_id"

def txnProducerEpochHeaderKey : Bytes :=
  textBytes "streambus.txn.producer_epoch"

/-- The headers mark an internal record, which no consumer receives. -/
def isControlRecord (headers : Headers) : Bool :=
  headers.find? controlHeaderKey = some controlTypeTxnMarker

/-- A producer id and epoch. -/
structure ProducerKey where
  producerId : Int
  producerEpoch : Int
deriving Repr, DecidableEq

/-- Keys are ordered by producer, then epoch. -/
instance : LinearOrder ProducerKey :=
  LinearOrder.lift' (fun key => toLex (key.producerId, key.producerEpoch))
    fun left right heq => by
      cases left
      cases right
      simpa using heq

/-- The producer and the outcome a marker's headers name. -/
def parseTransactionMarker (headers : Headers) : Option (ProducerKey × Bool) :=
  if isControlRecord headers then
    let text (name : Bytes) : Bytes := (headers.find? name).getD []
    match parseInt 64 (text txnProducerIdHeaderKey) with
    | none => none
    | some producerId =>
      match parseInt 16 (text txnProducerEpochHeaderKey) with
      | none => none
      | some producerEpoch =>
        match parseBool (text txnCommitHeaderKey) with
        | none => none
        | some commit => some (⟨producerId, producerEpoch⟩, commit)
  else none

variable (key : ProducerKey)

def transactionMarkerHeaders (commit : Bool) : Headers :=
  ((((∅ : Headers).insert controlHeaderKey controlTypeTxnMarker).insert
    txnCommitHeaderKey (formatBool commit)).insert
      txnProducerIdHeaderKey (formatInt key.producerId)).insert
        txnProducerEpochHeaderKey (formatInt key.producerEpoch)

theorem markerHeaderKeys_nodup :
    [controlHeaderKey, txnCommitHeaderKey, txnProducerIdHeaderKey,
      txnProducerEpochHeaderKey].Nodup := by
  decide

theorem transactionMarkerHeaders_find? (commit : Bool) :
    (transactionMarkerHeaders key commit).find? controlHeaderKey =
        some controlTypeTxnMarker ∧
      (transactionMarkerHeaders key commit).find? txnCommitHeaderKey =
        some (formatBool commit) ∧
      (transactionMarkerHeaders key commit).find? txnProducerIdHeaderKey =
        some (formatInt key.producerId) ∧
      (transactionMarkerHeaders key commit).find? txnProducerEpochHeaderKey =
        some (formatInt key.producerEpoch) := by
  have hnodup := markerHeaderKeys_nodup
  simp only [List.nodup_cons, List.mem_cons, List.not_mem_nil, or_false,
    not_or, List.nodup_nil, and_true, not_false_eq_true] at hnodup
  obtain ⟨⟨hcommit, hid, hepoch⟩, ⟨hid', hepoch'⟩, hepoch''⟩ := hnodup
  simp [transactionMarkerHeaders, OrderedMap.find?_insert, Ne.symm hcommit,
    Ne.symm hid, Ne.symm hepoch, Ne.symm hid', Ne.symm hepoch',
    Ne.symm hepoch'']

@[simp] theorem isControlRecord_marker (commit : Bool) :
    isControlRecord (transactionMarkerHeaders key commit) = true := by
  simp [isControlRecord, (transactionMarkerHeaders_find? key commit).1]

/-- The key is one the wire types can hold. -/
structure ProducerKey.Fits (key : ProducerKey) : Prop where
  id_lower : -2 ^ 63 ≤ key.producerId
  id_upper : key.producerId < 2 ^ 63
  epoch_lower : -2 ^ 15 ≤ key.producerEpoch
  epoch_upper : key.producerEpoch < 2 ^ 15

theorem parseTransactionMarker_headers {key : ProducerKey} (hfits : key.Fits)
    (commit : Bool) :
    parseTransactionMarker (transactionMarkerHeaders key commit) =
      some (key, commit) := by
  obtain ⟨-, hcommit, hid, hepoch⟩ := transactionMarkerHeaders_find? key commit
  have hparseId : parseInt 64 (formatInt key.producerId) =
      some key.producerId := parseInt_formatInt hfits.id_lower hfits.id_upper
  have hparseEpoch : parseInt 16 (formatInt key.producerEpoch) =
      some key.producerEpoch :=
    parseInt_formatInt hfits.epoch_lower hfits.epoch_upper
  simp [parseTransactionMarker, hcommit, hid, hepoch, hparseId, hparseEpoch,
    parseBool_formatBool]

/-- The records of an aborted transaction: those of its producer from `start`
to before `stop`. -/
structure AbortedRange where
  key : ProducerKey
  start : Int
  stop : Int
deriving Repr, DecidableEq

structure Partition where
  log : PartitionLog
  openTxns : OrderedMap ProducerKey Int
  abortedTxns : List AbortedRange
deriving DecidableEq

/-- The record of a producer at an offset is in one of the ranges. -/
def isAbortedInRanges (ranges : List AbortedRange) (key : ProducerKey)
    (offset : Int) : Bool :=
  if key.producerId = 0 then false
  else ranges.any fun range =>
    range.key = key ∧ range.start ≤ offset ∧ offset < range.stop

namespace Partition

def empty : Partition := ⟨PartitionLog.empty, ∅, []⟩

variable (partition : Partition)

/-- Track a transaction from its first batch on.  Producer 0 stands for a
batch outside any transaction. -/
def beginTransaction (key : ProducerKey) (firstOffset : Int) : Partition :=
  if key.producerId = 0 then partition
  else
    match partition.openTxns.find? key with
    | some _ => partition
    | none =>
      { partition with
        openTxns := partition.openTxns.insert key firstOffset }

def endTransaction (key : ProducerKey) : Partition :=
  { partition with openTxns := partition.openTxns.erase key }

/-- Drop the ranges that end before the start of the log. -/
def pruneAborted : Partition :=
  { partition with
    abortedTxns := partition.abortedTxns.filter fun range =>
      partition.log.startOffset < range.stop }

/-- End a transaction and remember its range if it was tracked. -/
def abortTransaction (key : ProducerKey) (markerOffset : Int) : Partition :=
  let abortedTxns :=
    match partition.openTxns.find? key with
    | some start => partition.abortedTxns ++ [⟨key, start, markerOffset⟩]
    | none => partition.abortedTxns
  pruneAborted
    { partition with
      openTxns := partition.openTxns.erase key, abortedTxns := abortedTxns }

/-- The first offset of an open transaction, or the high water mark. -/
def stableOffset : Int :=
  partition.openTxns.entries.foldl
    (fun stable entry => if entry.2 < stable then entry.2 else stable)
    partition.log.highWaterMark

def lastStableOffset : Partition × Int :=
  (partition.pruneAborted, partition.stableOffset)

/-- The ranges a fetch hides, after pruning. -/
def abortedRanges : Partition × List AbortedRange :=
  (partition.pruneAborted, partition.pruneAborted.abortedTxns)

end Partition

/-- A message of a request or a response. -/
structure ProtocolMessage where
  offset : Int
  key : Bytes
  value : Bytes
  headers : Headers
  timestamp : Int
deriving DecidableEq

def Message.producer (message : Message) : ProducerKey :=
  ⟨message.producerId, message.producerEpoch⟩

def Message.toProtocol (message : Message) : ProtocolMessage :=
  ⟨message.offset, message.key, message.value, message.headers,
    Message.unixNano message.timestamp⟩

def ProtocolMessage.toStorage (message : ProtocolMessage) : Message :=
  ⟨0, message.key, message.value, message.headers, some message.timestamp, 0, 0⟩

structure ProduceRequest where
  messages : List ProtocolMessage
  producerId : Int64
  producerEpoch : Int16
deriving DecidableEq

def ProduceRequest.producer (request : ProduceRequest) : ProducerKey :=
  ⟨request.producerId.toInt, request.producerEpoch.toInt⟩

def ProduceRequest.batch (request : ProduceRequest) : MessageBatch :=
  ⟨request.messages.map ProtocolMessage.toStorage, request.producerId.toInt,
    request.producerEpoch.toInt⟩

/-- The outcome of a transaction, written to each of its partitions. -/
structure TransactionMarker where
  producerId : Int64
  producerEpoch : Int16
  commit : Bool
  timestamp : Int
deriving DecidableEq

variable (marker : TransactionMarker)

def TransactionMarker.producer : ProducerKey :=
  ⟨marker.producerId.toInt, marker.producerEpoch.toInt⟩

/-- The record of a marker; without a timestamp it is written at `now`. -/
def TransactionMarker.batch (now : Int) :
    MessageBatch :=
  let timestamp := if marker.timestamp = 0 then now else marker.timestamp
  ⟨[⟨0, [], [], transactionMarkerHeaders marker.producer marker.commit,
      some timestamp, 0, 0⟩],
    marker.producerId.toInt, marker.producerEpoch.toInt⟩

structure FetchRequest where
  offset : Int
  maxBytes : Int
  isolation : IsolationLevel
deriving DecidableEq

/-- What a fetch may return of the messages it read, and the offset to go on
from: no control record, nothing from `readLimit` on, and no record of an
aborted transaction. -/
def visibleMessages (readLimit : Int) (aborted : List AbortedRange) :
    List Message → Int → List ProtocolMessage × Int
  | [], nextOffset => ([], nextOffset)
  | message :: rest, nextOffset =>
    if readLimit ≤ message.offset then ([], nextOffset)
    else
      let (messages, nextOffset) :=
        visibleMessages readLimit aborted rest (message.offset + 1)
      if isControlRecord message.headers then (messages, nextOffset)
      else if isAbortedInRanges aborted message.producer message.offset then
        (messages, nextOffset)
      else (message.toProtocol :: messages, nextOffset)

structure ProduceResponse where
  baseOffset : Int
  numMessages : Nat
  highWaterMark : Int
deriving DecidableEq

structure FetchResponse where
  highWaterMark : Int
  lastStableOffset : Int
  messages : List ProtocolMessage
  nextOffset : Int
deriving DecidableEq

/-- Why a request on a partition has no response.  A batch without messages
takes the broker down: its first offset is used unchecked. -/
inductive RequestFailure where
  | storage (error : StorageError)
  | crash
deriving DecidableEq

namespace Partition

variable (partition : Partition)

/-- Append a batch, unless the log refuses it before it writes anything, as a
closed one does.  A write to the log's files does not fail here: it would leave
the records before it in the log. -/
def appendBatch (batch : MessageBatch) (refused : Bool) :
    Partition × Except RequestFailure Int :=
  if refused then (partition, .error (.storage .logClosed))
  else
    let (log, offsets) := partition.log.append batch
    match offsets with
    | [] => ({ partition with log := log }, .error .crash)
    | baseOffset :: _ => ({ partition with log := log }, .ok baseOffset)

def handleProduce (request : ProduceRequest) (refused : Bool) :
    Partition × Except RequestFailure ProduceResponse :=
  match partition.appendBatch request.batch refused with
  | (partition, .error failure) => (partition, .error failure)
  | (partition, .ok baseOffset) =>
    (partition.beginTransaction request.producer baseOffset,
      .ok ⟨baseOffset, request.messages.length, partition.log.highWaterMark⟩)

/-- What a durable marker does to its transaction. -/
def resolveTransaction (marker : TransactionMarker) (markerOffset : Int) :
    Partition :=
  if marker.commit then partition.endTransaction marker.producer
  else partition.abortTransaction marker.producer markerOffset

/-- Append a marker, flush it and resolve its transaction; the result says
whether that succeeded. -/
def writeMarker (marker : TransactionMarker) (now : Int)
    (refused flushFails : Bool) : Partition × Bool :=
  match partition.appendBatch (marker.batch now) refused with
  | (partition, .error _) => (partition, false)
  | (partition, .ok markerOffset) =>
    if flushFails then (partition, false)
    else (partition.resolveTransaction marker markerOffset, true)

def handleFetch (request : FetchRequest) :
    Partition × Except RequestFailure FetchResponse :=
  match partition.log.read request.offset request.maxBytes with
  | .error error => (partition, .error (.storage error))
  | .ok messages =>
    let highWaterMark := partition.log.highWaterMark
    let (partition, lastStableOffset) := partition.lastStableOffset
    let (partition, readLimit, aborted) :=
      match request.isolation with
      | .readUncommitted => (partition, highWaterMark, [])
      | .readCommitted =>
        let (partition, aborted) := partition.abortedRanges
        (partition, lastStableOffset, aborted)
    let (messages, nextOffset) :=
      visibleMessages readLimit aborted messages request.offset
    (partition, .ok ⟨highWaterMark, lastStableOffset, messages, nextOffset⟩)

end Partition

namespace Partition

variable (partition : Partition)

@[simp] theorem log_beginTransaction (key : ProducerKey) (firstOffset : Int) :
    (partition.beginTransaction key firstOffset).log = partition.log := by
  unfold beginTransaction
  split
  · rfl
  · split <;> rfl

variable (marker : TransactionMarker) {key : ProducerKey}

@[simp] theorem log_resolveTransaction (markerOffset : Int) :
    (partition.resolveTransaction marker markerOffset).log = partition.log := by
  unfold resolveTransaction
  split <;> rfl

theorem log_handleFetch (request : FetchRequest) :
    (partition.handleFetch request).1.log = partition.log := by
  unfold handleFetch
  split
  · rfl
  · cases request.isolation with
    | readUncommitted | readCommitted => rfl

theorem log_handleProduce (request : ProduceRequest) :
    (partition.handleProduce request false).1.log =
      (partition.log.append request.batch).1 := by
  simp only [handleProduce, appendBatch, Bool.false_eq_true, ↓reduceIte]
  cases (partition.log.append request.batch).2 with
  | nil => rfl
  | cons baseOffset rest => exact log_beginTransaction _ _ _

/-- The ranges after a marker at an offset. -/
def rangesAfter (marker : TransactionMarker) (markerOffset : Int) :
    List AbortedRange :=
  match partition.openTxns.find? marker.producer with
  | some start =>
    if marker.commit then partition.abortedTxns
    else partition.abortedTxns ++ [⟨marker.producer, start, markerOffset⟩]
  | none => partition.abortedTxns

theorem resolveTransaction_eq (markerOffset : Int) :
    partition.resolveTransaction marker markerOffset =
      if marker.commit then
        { partition with
          openTxns := partition.openTxns.erase marker.producer
          abortedTxns := partition.rangesAfter marker markerOffset }
      else
        pruneAborted
          { partition with
            openTxns := partition.openTxns.erase marker.producer
            abortedTxns := partition.rangesAfter marker markerOffset } := by
  unfold resolveTransaction rangesAfter
  cases hcommit : marker.commit with
  | true =>
    simp only [↓reduceIte]
    split <;> rfl
  | false =>
    rfl

/-- The last stable offset is not behind the start of an open transaction. -/
theorem stableOffset_le_of_find? {start : Int}
    (hopen : partition.openTxns.find? key = some start) :
    partition.stableOffset ≤ start := by
  have hmem := (partition.openTxns.mem_entries_iff key start).mpr hopen
  have hle : ∀ (entries : List (ProducerKey × Int)) (bound : Int),
      entries.foldl (fun stable entry =>
        if entry.2 < stable then entry.2 else stable) bound ≤ bound ∧
      ∀ entry ∈ entries, entries.foldl (fun stable entry =>
        if entry.2 < stable then entry.2 else stable) bound ≤ entry.2 := by
    intro entries
    induction entries with
    | nil => simp
    | cons entry rest ih =>
      intro bound
      obtain ⟨hbound, hrest⟩ :=
        ih (if entry.2 < bound then entry.2 else bound)
      have hhead : (if entry.2 < bound then entry.2 else bound) ≤ bound ∧
          (if entry.2 < bound then entry.2 else bound) ≤ entry.2 := by
        split <;> omega
      refine ⟨hbound.trans hhead.1, fun other hother => ?_⟩
      rcases List.mem_cons.mp hother with rfl | hlater
      · exact hbound.trans hhead.2
      · exact hrest other hlater
  exact (hle _ _).2 _ hmem

/-- A tracked transaction stays tracked from where it was. -/
theorem find?_beginTransaction_of_some {start : Int}
    (hopen : partition.openTxns.find? key = some start) (other : ProducerKey)
    (firstOffset : Int) :
    (partition.beginTransaction other firstOffset).openTxns.find? key =
      some start := by
  unfold beginTransaction
  split
  · exact hopen
  · split
    · exact hopen
    next hnone =>
      rw [OrderedMap.find?_insert_of_ne, hopen]
      rintro rfl
      rw [hnone] at hopen
      cases hopen

@[simp] theorem abortedTxns_beginTransaction (key : ProducerKey) (firstOffset : Int) :
    (partition.beginTransaction key firstOffset).abortedTxns =
      partition.abortedTxns := by
  unfold beginTransaction
  split
  · rfl
  · split <;> rfl

variable {batch : MessageBatch}

/-- A nonempty batch that the log takes is appended at the high water mark. -/
theorem appendBatch_ok (hbatch : batch.messages ≠ []) :
    partition.appendBatch batch false =
      ({ partition with log := (partition.log.append batch).1 },
        .ok partition.log.highWaterMark) := by
  cases hmessages : batch.messages with
  | nil => exact absurd hmessages hbatch
  | cons message rest =>
    simp [appendBatch, PartitionLog.append, PartitionLog.stamped, hmessages,
      MessageBatch.stampFrom, MessageBatch.stamp]

/-- A batch that is not appended leaves the partition as it was. -/
theorem appendBatch_none {refused : Bool}
    (hnone : refused = true ∨ batch.messages = []) :
    ∃ failure, partition.appendBatch batch refused = (partition, .error failure) := by
  cases refused with
  | true => exact ⟨_, rfl⟩
  | false =>
    have hempty := hnone.resolve_left Bool.false_ne_true
    exact ⟨.crash, by
      simp [appendBatch, PartitionLog.append, PartitionLog.stamped, hempty,
        MessageBatch.stampFrom]⟩

end Partition

theorem TransactionMarker.fits : marker.producer.Fits :=
  ⟨marker.producerId.le_toInt, marker.producerId.toInt_lt,
    marker.producerEpoch.le_toInt, marker.producerEpoch.toInt_lt⟩

inductive PartitionRequest where
  | produce (request : ProduceRequest)
  | marker (marker : TransactionMarker) (now : Int)
  | fetch (request : FetchRequest)

/-- How far a request has come, with the values it has read so far. -/
inductive Progress where
  | produceReceived (request : ProduceRequest)
  | produceAppended (request : ProduceRequest) (baseOffset : Int)
  | markerReceived (marker : TransactionMarker) (now : Int)
  | markerAppended (marker : TransactionMarker) (markerOffset : Int)
  | markerFlushed (marker : TransactionMarker) (markerOffset : Int)
  | fetchReceived (request : FetchRequest)
  | fetchRead (request : FetchRequest) (messages : List Message)
  | fetchMarked (request : FetchRequest) (messages : List Message)
      (highWaterMark : Int)
  | fetchStable (request : FetchRequest) (messages : List Message)
      (highWaterMark lastStableOffset : Int)
  | fetchRanged (request : FetchRequest) (messages : List Message)
      (highWaterMark lastStableOffset readLimit : Int)
      (aborted : List AbortedRange)
  | fetchAnswered (request : FetchRequest) (response : FetchResponse)
  | finished

def PartitionRequest.received : PartitionRequest → Progress
  | .produce request => .produceReceived request
  | .marker outcome now => .markerReceived outcome now
  | .fetch request => .fetchReceived request

/-- The next step of a request; `fails` says whether the log refuses its batch
or fails to flush. -/
def Progress.advance (partition : Partition) (fails : Bool) :
    Progress → Partition × Progress
  | .produceReceived request =>
    match partition.appendBatch request.batch fails with
    | (partition, .error _) => (partition, .finished)
    | (partition, .ok baseOffset) =>
      (partition, .produceAppended request baseOffset)
  | .produceAppended request baseOffset =>
    (partition.beginTransaction request.producer baseOffset, .finished)
  | .markerReceived marker now =>
    match partition.appendBatch (marker.batch now) fails with
    | (partition, .error _) => (partition, .finished)
    | (partition, .ok markerOffset) =>
      (partition, .markerAppended marker markerOffset)
  | .markerAppended marker markerOffset =>
    (partition,
      if fails then .finished else .markerFlushed marker markerOffset)
  | .markerFlushed marker markerOffset =>
    (partition.resolveTransaction marker markerOffset, .finished)
  | .fetchReceived request =>
    match partition.log.read request.offset request.maxBytes with
    | .error _ => (partition, .finished)
    | .ok messages => (partition, .fetchRead request messages)
  | .fetchRead request messages =>
    (partition, .fetchMarked request messages partition.log.highWaterMark)
  | .fetchMarked request messages highWaterMark =>
    let (partition, lastStableOffset) := partition.lastStableOffset
    (partition, .fetchStable request messages highWaterMark lastStableOffset)
  | .fetchStable request messages highWaterMark lastStableOffset =>
    match request.isolation with
    | .readUncommitted =>
      (partition, .fetchRanged request messages highWaterMark
        lastStableOffset highWaterMark [])
    | .readCommitted =>
      let (partition, aborted) := partition.abortedRanges
      (partition, .fetchRanged request messages highWaterMark
        lastStableOffset lastStableOffset aborted)
  | .fetchRanged request messages highWaterMark lastStableOffset readLimit aborted =>
      let (visible, nextOffset) :=
        visibleMessages readLimit aborted messages request.offset
      (partition, .fetchAnswered request
        ⟨highWaterMark, lastStableOffset, visible, nextOffset⟩)
  | .fetchAnswered request response =>
    (partition, .fetchAnswered request response)
  | .finished => (partition, .finished)

/-- A marker record of the log. -/
structure WrittenMarker where
  key : ProducerKey
  commit : Bool
  offset : Int
deriving DecidableEq

/-- The marker a step appends: the one that is on its way from then on. -/
def Progress.written : Progress → Progress → List WrittenMarker
  | .markerReceived .., .markerAppended marker markerOffset =>
    [⟨marker.producer, marker.commit, markerOffset⟩]
  | _, _ => []

/-- A partition with the requests it has received, and the markers that were
appended to its log so far. -/
structure PartitionRun where
  partition : Partition
  requests : List Progress
  markers : List WrittenMarker

inductive RequestStep where
  | receive (request : PartitionRequest)
  | advance (index : Nat) (fails : Bool)

namespace PartitionRun

def start : PartitionRun := ⟨Partition.empty, [], []⟩

/-- Some request takes its next step. -/
def step (run : PartitionRun) : RequestStep → PartitionRun
  | .receive request =>
    { run with requests := run.requests ++ [request.received] }
  | .advance index fails =>
    match run.requests[index]? with
    | none => run
    | some progress =>
      let (partition, next) := progress.advance run.partition fails
      ⟨partition, run.requests.set index next, run.markers ++ progress.written next⟩

end PartitionRun

/-- The steps of a request taken alone. -/
def Progress.alone (partition : Partition) (progress : Progress) :
    List Bool → Partition × Progress
  | [] => (partition, progress)
  | fails :: rest =>
    let (partition, next) := progress.advance partition fails
    next.alone partition rest

/-- A produce that no other request interrupts is handled as a whole. -/
theorem Progress.alone_produce (partition : Partition)
    (request : ProduceRequest) (refused : Bool) :
    ((Progress.produceReceived request).alone partition [refused, false]).1 =
      (partition.handleProduce request refused).1 := by
  simp only [alone, advance, Partition.handleProduce]
  rcases partition.appendBatch request.batch refused with
    ⟨next, failure | baseOffset⟩ <;> rfl

theorem Progress.alone_marker (partition : Partition)
    (marker : TransactionMarker) (now : Int) (refused flushFails : Bool) :
    ((Progress.markerReceived marker now).alone partition
        [refused, flushFails, false]).1 =
      (partition.writeMarker marker now refused flushFails).1 := by
  simp only [alone, advance, Partition.writeMarker]
  rcases partition.appendBatch (marker.batch now) refused with
    ⟨next, failure | markerOffset⟩
  · rfl
  · cases flushFails <;> rfl

theorem Progress.alone_fetch (partition : Partition) (request : FetchRequest) :
    (Progress.fetchReceived request).alone partition
        [false, false, false, false, false] =
      ((partition.handleFetch request).1,
        match (partition.handleFetch request).2 with
        | .error _ => .finished
        | .ok response => .fetchAnswered request response) := by
  cases hread : partition.log.read request.offset request.maxBytes with
  | error error => simp only [alone, advance, Partition.handleFetch, hread]
  | ok messages =>
    cases hisolation : request.isolation <;>
      simp only [alone, advance, Partition.handleFetch, hread, hisolation]

end Streambus
