/-
A recovered partition agrees with the live one.  Recovery reads the log in
windows of bounded size and applies every record: a marker ends the transaction
it names, and any other record of a producer opens one.  The two come apart
where a client's message carries the headers of a marker, and where a marker
reached the log but could not be flushed.
-/
import Streambus.Partition

namespace Streambus

open List OrderedMap

/-- The state that is rebuilt. -/
structure Replay where
  openTxns : OrderedMap ProducerKey Int
  abortedTxns : List AbortedRange
deriving DecidableEq

namespace Replay

def empty : Replay := ⟨∅, []⟩

variable (replay : Replay)

/-- Apply a control record; one that is not a readable marker has no effect. -/
def replayMarker (message : Message) : Replay :=
  match parseTransactionMarker message.headers with
  | none => replay
  | some (key, commit) =>
    let openTxns := replay.openTxns.erase key
    match replay.openTxns.find? key with
    | none => { replay with openTxns := openTxns }
    | some start =>
      if commit then { replay with openTxns := openTxns }
      else
        ⟨openTxns, replay.abortedTxns ++ [⟨key, start, message.offset⟩]⟩

def replayRecord (message : Message) : Replay :=
  if isControlRecord message.headers then replay.replayMarker message
  else if message.producerId = 0 then replay
  else
    match replay.openTxns.find? message.producer with
    | some _ => replay
    | none =>
      { replay with
        openTxns := replay.openTxns.insert message.producer message.offset }

/-- Apply the messages of a window and move past them. -/
def replayWindow (offset : Int) (messages : List Message) : Replay × Int :=
  messages.foldl
    (fun state message => (state.1.replayRecord message, message.offset + 1))
    (replay, offset)

end Replay

def rebuildReplayWindowBytes : Int := 1024 * 1024

/-- Replay a log from an offset on, one window after the other. -/
def rebuildLoop (log : PartitionLog) (stop : Int) :
    Nat → Int → Replay → Except StorageError Replay
  | 0, _, replay => .ok replay
  | fuel + 1, offset, replay =>
    if stop ≤ offset then .ok replay
    else
      match log.read offset rebuildReplayWindowBytes with
      | .error error => .error error
      | .ok [] => .ok replay
      | .ok messages =>
        let (replay, offset) := replay.replayWindow offset messages
        rebuildLoop log stop fuel offset replay

variable (log : PartitionLog)

/-- The state of a log's transactions; every window moves on by an offset at
least. -/
def rebuildTransactionState : Except StorageError Replay :=
  let stop := log.highWaterMark
  if stop ≤ log.startOffset then .ok Replay.empty
  else
    rebuildLoop log stop (stop - log.startOffset).toNat log.startOffset Replay.empty

/-- A partition over a recovered log.  A log that cannot be replayed gives a
partition without transactions. -/
def newRecoveredPartition : Partition :=
  let replay := (rebuildTransactionState log).toOption.getD Replay.empty
  ⟨log, replay.openTxns, replay.abortedTxns⟩

namespace Replay

/-- Over consecutive messages a window ends behind its last one. -/
theorem replayWindow_eq (replay : Replay) {offset : Int} {messages : List Message}
    (hoffsets : ∀ (index : Nat) (message : Message),
      messages[index]? = some message → message.offset = offset + index) :
    replay.replayWindow offset messages =
      (messages.foldl replayRecord replay, offset + messages.length) := by
  induction messages generalizing replay offset with
  | nil => simp [replayWindow]
  | cons message rest ih =>
    have hfirst : message.offset = offset := by
      simpa using hoffsets 0 message rfl
    have hrest := @ih (replay.replayRecord message) (message.offset + 1)
      fun index next hnext => by
        have hnext := hoffsets (index + 1) next (by simpa using hnext)
        omega
    rw [replayWindow] at hrest
    rw [replayWindow, foldl_cons, hrest, foldl_cons, hfirst, length_cons]
    push_cast
    rw [add_assoc, add_comm (1 : Int)]

end Replay

theorem rebuildLoop_eq {log : PartitionLog} (hinOrder : InOrder log.records)
    (fuel : Nat) {offset : Int} (hlower : 0 ≤ offset)
    (hstart : log.startOffset ≤ offset)
    (hfuel : (log.highWaterMark - offset).toNat ≤ fuel) (replay : Replay) :
    rebuildLoop log log.highWaterMark fuel offset replay =
      .ok ((log.records.drop offset.toNat).foldl Replay.replayRecord replay) := by
  -- once the offset has reached the end there is nothing left to apply
  have hdone : log.highWaterMark ≤ offset → log.records.drop offset.toNat = [] := by
    intro hend
    rw [PartitionLog.highWaterMark] at hend
    exact drop_eq_nil_of_le (by omega)
  induction fuel generalizing offset replay with
  | zero => rw [rebuildLoop, hdone (by omega), foldl_nil]
  | succ fuel ih =>
    by_cases hend : log.highWaterMark ≤ offset
    · rw [rebuildLoop, if_pos hend, hdone hend, foldl_nil]
    · obtain ⟨message, rest, hrecords⟩ :
          ∃ message rest, log.records.drop offset.toNat = message :: rest := by
        rw [PartitionLog.highWaterMark] at hend
        exact exists_cons_of_ne_nil (by rw [Ne, drop_eq_nil_iff]; omega)
      have hread : log.read offset rebuildReplayWindowBytes =
          .ok (takeBudget (some rebuildReplayWindowBytes)
            (log.records.drop offset.toNat)) := by
        rw [PartitionLog.read, if_neg (by omega)]
      obtain ⟨window, hpage⟩ : ∃ window, takeBudget (some rebuildReplayWindowBytes)
            (log.records.drop offset.toNat) = message :: window := by
        rw [hrecords]
        exact ⟨_, rfl⟩
      obtain ⟨back, hback⟩ := (takeBudget_isPage rebuildReplayWindowBytes
        (log.records.drop offset.toNat)).consecutive
      rw [hpage] at hread hback
      have hoffsets : ∀ (index : Nat) (next : Message),
          (message :: window)[index]? = some next → next.offset = offset + index := by
        intro index next hnext
        have hdrop : (log.records.drop offset.toNat)[index]? = some next := by
          rw [← hback, getElem?_append_left
            (List.getElem?_eq_some_iff.mp hnext).1, hnext]
        rw [getElem?_drop] at hdrop
        rw [hinOrder _ _ hdrop]
        omega
      have hnext : log.records.drop
          (offset + (message :: window).length).toNat = back := by
        rw [show (offset + (message :: window).length).toNat =
            offset.toNat + (message :: window).length by omega,
          ← drop_drop, ← hback, drop_left]
      rw [rebuildLoop, if_neg hend, hread]
      simp only
      rw [replay.replayWindow_eq hoffsets]
      have hlength : 0 < (message :: window).length := by simp
      rw [ih (by omega) (by omega) (by omega) _ fun h => ?_, hnext, ← hback,
        foldl_append]
      rw [PartitionLog.highWaterMark] at h
      exact drop_eq_nil_of_le (by omega)

/-- Reading in windows applies every retained record once, in order. -/
theorem rebuildTransactionState_eq {log : PartitionLog}
    (hinOrder : InOrder log.records) (hstart : 0 ≤ log.startOffset) :
    rebuildTransactionState log =
      .ok ((log.records.drop log.startOffset.toNat).foldl Replay.replayRecord
        Replay.empty) := by
  unfold rebuildTransactionState
  dsimp only
  split
  next hempty =>
    rw [PartitionLog.highWaterMark] at hempty
    rw [drop_eq_nil_of_le (by omega), foldl_nil]
  · exact rebuildLoop_eq hinOrder _ hstart le_rfl le_rfl Replay.empty

inductive PartitionOp where
  | produce (request : ProduceRequest) (refused : Bool)
  | marker (marker : TransactionMarker) (now : Int) (refused flushFails : Bool)

namespace Partition

/-- One request on a partition. -/
def step (partition : Partition) : PartitionOp → Partition
  | .produce request refused =>
    (partition.handleProduce request refused).1
  | .marker marker now refused flushFails =>
    (partition.writeMarker marker now refused flushFails).1

/-- The message is no marker of an open transaction, and none of the
transaction its own batch belongs to. -/
def Unforged (partition : Partition) (request : ProduceRequest)
    (message : ProtocolMessage) : Prop :=
  ∀ parsed ∈ parseTransactionMarker message.headers,
    partition.openTxns.find? parsed.1 = none ∧
      (request.producer.producerId ≠ 0 → parsed.1 ≠ request.producer)
deriving Decidable

/-- The batch forges no marker that would matter, and one that opens a
transaction does not start with a control record; a marker of an open
transaction that is appended is flushed. -/
def ReplaySafe (partition : Partition) : PartitionOp → Prop
  | .produce request refused => refused = false →
      (∀ message ∈ request.messages, partition.Unforged request message) ∧
        (request.producer.producerId ≠ 0 →
          partition.openTxns.find? request.producer = none →
            ∀ message ∈ request.messages.head?,
              isControlRecord message.headers = false)
  | .marker marker _ refused flushFails => refused = false →
      flushFails = true → partition.openTxns.find? marker.producer = none

instance (partition : Partition) (op : PartitionOp) :
    Decidable (partition.ReplaySafe op) := by
  cases op <;> unfold ReplaySafe <;> infer_instance

/-- Both partitions answer every question about transactions in the same
way. -/
structure AgreesWith (recovered live : Partition) : Prop where
  stable_eq : recovered.stableOffset = live.stableOffset
  aborted_eq : ∀ key offset, isAbortedInRanges recovered.abortedTxns key offset =
    isAbortedInRanges live.abortedTxns key offset
  fetch_eq : ∀ request, (recovered.handleFetch request).2 =
    (live.handleFetch request).2

variable {partition : Partition}

/-- The transaction state of a live partition. -/
def replayState (partition : Partition) : Replay :=
  ⟨partition.openTxns, partition.abortedTxns⟩

/-- A live partition whose state its log determines. -/
structure Replayed (partition : Partition) : Prop where
  start_eq : partition.log.startOffset = 0
  inOrder : InOrder partition.log.records
  open_bounds : ∀ key start, partition.openTxns.find? key = some start →
    0 ≤ start ∧ start < partition.log.highWaterMark
  aborted_bounds : ∀ range ∈ partition.abortedTxns, 0 < range.stop
  replay_eq : partition.log.records.foldl Replay.replayRecord Replay.empty =
    partition.replayState

theorem empty_replayed : Partition.empty.Replayed :=
  ⟨rfl, by simp [InOrder, Partition.empty, PartitionLog.empty],
    by simp [Partition.empty], by simp [Partition.empty], rfl⟩

/-- Recovery gives back such a partition. -/
theorem Replayed.newRecoveredPartition_eq (hreplayed : partition.Replayed) :
    newRecoveredPartition partition.log = partition := by
  have hstate := rebuildTransactionState_eq hreplayed.inOrder hreplayed.start_eq.ge
  rw [hreplayed.start_eq, Int.toNat_zero, drop_zero, hreplayed.replay_eq] at hstate
  rw [newRecoveredPartition, hstate]
  rfl

end Partition

namespace Replay

variable {replay : Replay} {batch : MessageBatch}

theorem replayMarker_unopened {message : Message}
    (hnone : ∀ parsed ∈ parseTransactionMarker message.headers,
      replay.openTxns.find? parsed.1 = none) :
    replay.replayMarker message = replay := by
  unfold replayMarker
  split
  · rfl
  next key commit hparsed =>
    have hkey := hnone (key, commit) hparsed
    simp only [hkey, erase_of_find?_eq_none hkey]

/-- A batch of a tracked transaction, or of none, changes nothing if it forges
no marker of an open transaction. -/
theorem foldl_replayRecord_tracked (offset : Int) {messages : List Message}
    (htracked : batch.producerId = 0 ∨
      (replay.openTxns.find? ⟨batch.producerId, batch.producerEpoch⟩).isSome)
    (hunforged : ∀ message ∈ messages,
      ∀ parsed ∈ parseTransactionMarker message.headers,
        replay.openTxns.find? parsed.1 = none) :
    (batch.stampFrom offset messages).foldl replayRecord replay = replay := by
  induction messages generalizing offset with
  | nil => rfl
  | cons message rest ih =>
    have hmessage : replay.replayRecord (batch.stamp offset message) =
        replay := by
      unfold replayRecord
      split
      · exact replayMarker_unopened (hunforged message mem_cons_self)
      · split
        · rfl
        next hproducer =>
          obtain ⟨start, hstart⟩ := Option.isSome_iff_exists.mp
            (htracked.resolve_left hproducer)
          simp [Message.producer, MessageBatch.stamp, hstart]
    rw [MessageBatch.stampFrom, foldl_cons, hmessage]
    exact ih (offset + 1) fun next hnext =>
      hunforged next (mem_cons_of_mem message hnext)

end Replay

namespace Partition

variable {partition : Partition}

/-- Appending a batch to the log, with its effect on the rebuilt state. -/
theorem Replayed.append (hreplayed : partition.Replayed) {batch : MessageBatch}
    {openTxns : OrderedMap ProducerKey Int} {abortedTxns : List AbortedRange}
    (hbatch : batch.messages ≠ [])
    (hreplay : (partition.log.stamped batch).foldl Replay.replayRecord
      partition.replayState = ⟨openTxns, abortedTxns⟩)
    (hopen : ∀ key start, openTxns.find? key = some start →
      partition.openTxns.find? key = some start ∨ start = partition.log.highWaterMark)
    (haborted : ∀ range ∈ abortedTxns, 0 < range.stop) :
    Replayed ⟨(partition.log.append batch).1, openTxns, abortedTxns⟩ := by
  have hlength : 0 < batch.messages.length := length_pos_iff.mpr hbatch
  have hhwm := partition.log.highWaterMark_append batch
  have hnonneg : 0 ≤ partition.log.highWaterMark := Int.natCast_nonneg _
  refine ⟨hreplayed.start_eq, ?_, ?_, haborted, ?_⟩
  · exact hreplayed.inOrder.stampFrom batch batch.messages
  · intro key start hfind
    rw [hhwm]
    rcases hopen key start hfind with hold | hnew
    · have hbounds := hreplayed.open_bounds key start hold
      omega
    · omega
  · change (partition.log.records ++ partition.log.stamped batch).foldl _ _ = _
    rw [foldl_append, hreplayed.replay_eq, hreplay]
    rfl

variable {refused : Bool}

/-- Producing a batch keeps the log in step with the live state. -/
theorem Replayed.handleProduce (hreplayed : partition.Replayed)
    {request : ProduceRequest}
    (hsafe : partition.ReplaySafe (.produce request refused)) :
    (partition.handleProduce request refused).1.Replayed := by
  by_cases hnone : refused = true ∨ request.batch.messages = []
  · obtain ⟨failure, hfailed⟩ := partition.appendBatch_none hnone
    simpa only [Partition.handleProduce, hfailed] using hreplayed
  obtain ⟨hfails, hbatch⟩ := not_or.mp hnone
  obtain rfl : refused = false := by simpa using hfails
  obtain ⟨hunforged, hfirst⟩ := hsafe rfl
  have hparsed : ∀ message ∈ request.batch.messages,
      ∀ parsed ∈ parseTransactionMarker message.headers,
        partition.openTxns.find? parsed.1 = none ∧
          (request.producer.producerId ≠ 0 → parsed.1 ≠ request.producer) := by
    intro message hmessage
    obtain ⟨sent, hsent, rfl⟩ := mem_map.mp hmessage
    exact hunforged sent hsent
  simp only [Partition.handleProduce, partition.appendBatch_ok hbatch]
  -- a batch of an open transaction, or of none, leaves the state alone
  have hsame (htracked : request.producer.producerId = 0 ∨
      (partition.openTxns.find? request.producer).isSome) :
      Replayed { partition with log := (partition.log.append request.batch).1 } :=
    hreplayed.append hbatch
      (Replay.foldl_replayRecord_tracked _ htracked fun message hmessage
        parsed hmem => (hparsed message hmessage parsed hmem).1)
      (fun key start hfind => Or.inl hfind) hreplayed.aborted_bounds
  unfold beginTransaction
  split
  next hproducer => exact hsame (Or.inl hproducer)
  rename_i hproducer
  split
  next start hfind => exact hsame (Or.inr (by simp [hfind]))
  rename_i hfind
  -- the first message opens the transaction, and the rest extends it
  obtain ⟨message, rest, hmessages⟩ := exists_cons_of_ne_nil hbatch
  refine hreplayed.append hbatch ?_ ?_ hreplayed.aborted_bounds
  · have hcontrol : isControlRecord message.headers = false := by
      cases hsent : request.messages with
      | nil => simp [ProduceRequest.batch, hsent] at hbatch
      | cons sent others =>
        have hhead : message = sent.toStorage := by
          simpa [ProduceRequest.batch, hsent] using
            (congrArg List.head? hmessages).symm
        rw [hhead]
        exact hfirst hproducer hfind sent (by simp [hsent])
    have hopened : Replay.replayRecord partition.replayState
        (request.batch.stamp partition.log.highWaterMark message) =
          ⟨partition.openTxns.insert request.producer
            partition.log.highWaterMark, partition.abortedTxns⟩ := by
      have hproducer' : request.batch.producerId ≠ 0 := hproducer
      have hfind' : partition.openTxns.find?
          ⟨request.batch.producerId, request.batch.producerEpoch⟩ = none := hfind
      simp only [Replay.replayRecord, MessageBatch.stamp, Message.producer,
        hcontrol, hproducer', hfind', replayState, Bool.false_eq_true,
        ↓reduceIte]
      rfl
    rw [PartitionLog.stamped, hmessages, MessageBatch.stampFrom, foldl_cons, hopened]
    refine Replay.foldl_replayRecord_tracked _ (Or.inr ?_) ?_
    · exact Option.isSome_iff_exists.mpr ⟨_, find?_insert_self _ request.producer _⟩
    · intro next hnext parsed hmem
      obtain ⟨hclosed, hother⟩ := hparsed next
        (hmessages ▸ mem_cons_of_mem message hnext) parsed hmem
      rw [find?_insert_of_ne _ (Ne.symm (hother hproducer)), hclosed]
  · intro key start hstart
    rw [find?_insert] at hstart
    split at hstart
    · exact Or.inr (Option.some.inj hstart).symm
    · exact Or.inl hstart

/-- Nothing is pruned while the log starts at zero. -/
theorem Replayed.pruneAborted_eq (hreplayed : partition.Replayed) :
    partition.pruneAborted = partition := by
  have hkept : partition.abortedTxns.filter (fun range =>
      partition.log.startOffset < range.stop) = partition.abortedTxns := by
    rw [filter_eq_self]
    intro range hrange
    simpa [hreplayed.start_eq] using hreplayed.aborted_bounds range hrange
  rw [pruneAborted, hkept]

theorem foldl_replayRecord_marker (partition : Partition)
    (marker : TransactionMarker) (now : Int) :
    (partition.log.stamped (marker.batch now)).foldl Replay.replayRecord
        partition.replayState =
      ⟨partition.openTxns.erase marker.producer,
        partition.rangesAfter marker partition.log.highWaterMark⟩ := by
  have hparse := parseTransactionMarker_headers marker.fits marker.commit
  simp only [PartitionLog.stamped, TransactionMarker.batch,
    MessageBatch.stampFrom, MessageBatch.stamp, foldl_cons,
    foldl_nil, Replay.replayRecord, isControlRecord_marker, ↓reduceIte,
    Replay.replayMarker, hparse, replayState, rangesAfter]
  cases partition.openTxns.find? marker.producer with
  | none => rfl
  | some start => cases marker.commit <;> rfl

/-- The state after a marker that resolves its transaction is the one its
record replays to. -/
theorem Replayed.marked (hreplayed : partition.Replayed)
    (marker : TransactionMarker) (now : Int) :
    Replayed ⟨(partition.log.append (marker.batch now)).1,
        partition.openTxns.erase marker.producer,
        partition.rangesAfter marker partition.log.highWaterMark⟩ := by
  refine hreplayed.append (cons_ne_nil _ _)
    (partition.foldl_replayRecord_marker marker now) ?_ ?_
  · intro key start hfind
    rw [find?_erase] at hfind
    split at hfind
    · cases hfind
    · exact Or.inl hfind
  · intro range hrange
    unfold rangesAfter at hrange
    split at hrange
    next start hstart =>
      have hbounds := hreplayed.open_bounds _ start hstart
      split at hrange
      · exact hreplayed.aborted_bounds range hrange
      · rcases mem_append.mp hrange with hold | hnew
        · exact hreplayed.aborted_bounds range hold
        · rw [mem_singleton.mp hnew]
          exact lt_of_le_of_lt hbounds.1 hbounds.2
    · exact hreplayed.aborted_bounds range hrange

/-- Writing a marker keeps the log in step with the live state. -/
theorem Replayed.writeMarker (hreplayed : partition.Replayed)
    {marker : TransactionMarker} {now : Int} {flushFails : Bool}
    (hsafe : partition.ReplaySafe (.marker marker now refused flushFails)) :
    (partition.writeMarker marker now refused flushFails).1.Replayed := by
  have hmarked := hreplayed.marked marker now
  cases refused with
  | true => exact hreplayed
  | false =>
    have hbatch : (marker.batch now).messages ≠ [] := cons_ne_nil _ _
    simp only [Partition.writeMarker, partition.appendBatch_ok hbatch]
    cases flushFails with
    | true =>
      -- the marker had nothing to end
      have hclosed := hsafe rfl rfl
      simpa only [rangesAfter, hclosed, ↓reduceIte,
        erase_of_find?_eq_none hclosed] using hmarked
    | false =>
      simp only [Bool.false_eq_true, ↓reduceIte, resolveTransaction_eq]
      split
      · exact hmarked
      · exact hmarked.pruneAborted_eq.symm ▸ hmarked

theorem Replayed.step (hreplayed : partition.Replayed) {op : PartitionOp}
    (hsafe : partition.ReplaySafe op) : (partition.step op).Replayed := by
  cases op with
  | produce request refused => exact hreplayed.handleProduce hsafe
  | marker marker now refused flushFails =>
    exact hreplayed.writeMarker hsafe

/-- In every run in which no client forges a marker and every marker of an
open transaction is flushed, a restart changes no answer about
transactions. -/
theorem recovered_agrees (ops : List PartitionOp)
    (hallowed : AllAllowed step ReplaySafe empty ops) :
    (newRecoveredPartition (runSteps step empty ops).log).AgreesWith
      (runSteps step empty ops) := by
  have hreplayed := hallowed.invariant Replayed
    (fun _ _ hreplayed hsafe => hreplayed.step hsafe) empty_replayed
  rw [hreplayed.newRecoveredPartition_eq]
  exact ⟨rfl, fun _ _ => rfl, fun _ => rfl⟩

/-- A batch of one message. -/
def oneMessage (headers : Headers) (producerId : Int64) : ProduceRequest :=
  ⟨[⟨0, [107], [118], headers, 5⟩], producerId, 0⟩

/-- Two transactions of one producer, the first committed by a retried marker
and the second aborted, around a batch outside any transaction that carries
a marker's headers. -/
def settledOps : List PartitionOp :=
  [.produce (oneMessage ∅ 1001) false, .marker ⟨1001, 0, true, 7⟩ 0 true false,
    .marker ⟨1001, 0, true, 7⟩ 0 false false,
    .marker ⟨1001, 0, true, 8⟩ 0 false true,
    .produce (oneMessage (transactionMarkerHeaders ⟨1001, 0⟩ false) 0) false,
    .produce (oneMessage ∅ 1001) false,
    .marker ⟨1001, 0, false, 9⟩ 0 false false]

theorem settled_recovered_agrees : AllAllowed step ReplaySafe empty settledOps ∧
      (newRecoveredPartition (runSteps step empty settledOps).log).AgreesWith
        (runSteps step empty settledOps) :=
  ⟨by decide +kernel, recovered_agrees _ (by decide +kernel)⟩

/-- While a transaction is open, a message outside any transaction carries the
headers of its commit marker. -/
def forgedPartition : Partition :=
  runSteps step empty [.produce (oneMessage ∅ 1001) false,
      .produce (oneMessage (transactionMarkerHeaders ⟨1001, 0⟩ true) 0) false]

/-- The live partition keeps its barrier at offset 0; the recovered one has
lost it and returns the uncommitted record. -/
theorem forged_commit_disagrees : forgedPartition.stableOffset = 0 ∧
      (newRecoveredPartition forgedPartition.log).stableOffset = 2 ∧
      (forgedPartition.handleFetch ⟨0, 100, .readCommitted⟩).2.toOption.map
        FetchResponse.messages = some [] ∧
      ((newRecoveredPartition forgedPartition.log).handleFetch
        ⟨0, 100, .readCommitted⟩).2.toOption.map FetchResponse.messages =
          some [⟨0, [107], [118], ∅, 5⟩] := by
  decide +kernel

end Partition

end Streambus
