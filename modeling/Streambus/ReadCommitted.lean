/-
Read-committed fetches under interleaved requests.  Every record of a
transaction is held back while its produce has yet to begin the transaction,
by the start of the open transaction, by the range of an aborted one, or not
at all because its transaction committed.  A fetch can slip past only where a
request acts on state that another is about to change; in every run whose
steps avoid these races a read-committed fetch returns committed records.
-/
import Streambus.Partition

namespace Streambus

open List MessageBatch

/-- The first marker of the producer after the offset is a commit. -/
def Committed (markers : List WrittenMarker) (key : ProducerKey)
    (offset : Int) : Prop :=
  ∃ marker ∈ markers, marker.key = key ∧ marker.commit = true ∧
    offset < marker.offset ∧ ∀ other ∈ markers, other.key = key →
      offset < other.offset → marker.offset ≤ other.offset

/-- The record is of a produce that has yet to begin its transaction. -/
def Progress.Holds (record : Message) : Progress → Prop
  | .produceAppended request baseOffset =>
    record.producer = request.producer ∧ baseOffset ≤ record.offset ∧
      record.offset < baseOffset + request.messages.length
  | _ => False

instance (record : Message) (progress : Progress) :
    Decidable (progress.Holds record) := by
  cases progress <;> unfold Progress.Holds <;> infer_instance

/-- A record of a transaction that is not a control record. -/
def Message.InTransaction (message : Message) : Prop :=
  message.producerId ≠ 0 ∧ isControlRecord message.headers = false
deriving Decidable

namespace PartitionRun

variable (run : PartitionRun)

def Pending (record : Message) : Prop :=
  ∃ progress ∈ run.requests, progress.Holds record
deriving Decidable

/-- A transaction begins no later than it is tracked; a marker ends a tracked
transaction only if every record of its producer after the marker has yet to
begin, and a commit only if no abort lies between; the last stable offset is
read only when no record below it that was read has yet to begin. -/
def Undisturbed : Progress → Prop
  | .produceAppended request baseOffset =>
    ∀ start ∈ run.partition.openTxns.find? request.producer, start ≤ baseOffset
  | .markerFlushed marker markerOffset =>
    ∀ start ∈ run.partition.openTxns.find? marker.producer,
      (∀ record ∈ run.partition.log.records, record.InTransaction →
        record.producer = marker.producer → markerOffset < record.offset →
          run.Pending record) ∧
      (marker.commit = true → ∀ other ∈ run.markers,
        other.key = marker.producer → start ≤ other.offset →
          other.offset < markerOffset → other.commit = true)
  | .fetchMarked request messages _ => request.isolation = .readCommitted →
      ∀ message ∈ messages, message.InTransaction →
        message.offset < run.partition.stableOffset → ¬ run.Pending message
  | _ => True

instance (run : PartitionRun) (progress : Progress) :
    Decidable (run.Undisturbed progress) := by
  cases progress <;> unfold Undisturbed <;> infer_instance

/-- The request that takes a step is undisturbed by the others. -/
def RaceFree : RequestStep → Prop
  | .receive _ => True
  | .advance index _ => ∀ progress ∈ run.requests[index]?, run.Undisturbed progress

instance (run : PartitionRun) (op : RequestStep) :
    Decidable (run.RaceFree op) := by
  cases op <;> unfold RaceFree <;> infer_instance

/-- The marker is in the log. -/
def Logged (marker : WrittenMarker) : Prop :=
  ∃ record ∈ run.partition.log.records, record.offset = marker.offset ∧
    parseTransactionMarker record.headers = some (marker.key, marker.commit)

/-- Every message a read-committed fetch has returned is a record of the log,
and outside any transaction or committed by a marker of the log. -/
structure ReadsCommitted (run : PartitionRun) : Prop where
  logged : ∀ marker ∈ run.markers, run.Logged marker
  committed : ∀ request response, .fetchAnswered request response ∈ run.requests →
      request.isolation = .readCommitted → ∀ message ∈ response.messages,
          ∃ record ∈ run.partition.log.records, message = record.toProtocol ∧
              (record.producerId ≠ 0 →
                Committed run.markers record.producer record.offset)

/-- Nothing has to hold the record back any more. -/
def Settled (record : Message) : Prop :=
  isAbortedInRanges run.partition.abortedTxns record.producer record.offset = true ∨
    Committed run.markers record.producer record.offset

/-- Something holds the record back, or nothing has to. -/
def Accounted (record : Message) : Prop :=
  run.Pending record ∨
    (∃ start, run.partition.openTxns.find? record.producer = some start ∧
      start ≤ record.offset) ∨
    run.Settled record

end PartitionRun

/-- What a request knows is true of the run. -/
def Progress.Knows (run : PartitionRun) : Progress → Prop
  | .markerAppended marker markerOffset =>
    ⟨marker.producer, marker.commit, markerOffset⟩ ∈ run.markers
  | .markerFlushed marker markerOffset =>
    ⟨marker.producer, marker.commit, markerOffset⟩ ∈ run.markers
  | .fetchRead _ messages => messages ⊆ run.partition.log.records
  | .fetchMarked _ messages _ => messages ⊆ run.partition.log.records
  | .fetchStable request messages _ lastStableOffset =>
    messages ⊆ run.partition.log.records ∧
      (request.isolation = .readCommitted → ∀ message ∈ messages,
        message.InTransaction → message.offset < lastStableOffset →
          run.Settled message)
  | .fetchRanged request messages _ _ readLimit aborted =>
    messages ⊆ run.partition.log.records ∧
      (request.isolation = .readCommitted → ∀ message ∈ messages,
        message.InTransaction → message.offset < readLimit →
          isAbortedInRanges aborted message.producer message.offset = true ∨
            Committed run.markers message.producer message.offset)
  | .fetchAnswered request response => request.isolation = .readCommitted →
      ∀ message ∈ response.messages,
        ∃ record ∈ run.partition.log.records, message = record.toProtocol ∧
          (record.producerId ≠ 0 →
            Committed run.markers record.producer record.offset)
  | _ => True

variable {messages : List Message}

/-- What a fetch returns was read, lies below the limit, is no control record
and is in no aborted range. -/
theorem mem_visibleMessages {readLimit nextOffset : Int}
    {aborted : List AbortedRange} {message : ProtocolMessage}
    (hmem : message ∈ (visibleMessages readLimit aborted messages nextOffset).1) :
    ∃ record ∈ messages, message = record.toProtocol ∧
      record.offset < readLimit ∧ isControlRecord record.headers = false ∧
      isAbortedInRanges aborted record.producer record.offset = false := by
  induction messages generalizing nextOffset with
  | nil => simp [visibleMessages] at hmem
  | cons record rest ih =>
    have hlater : message ∈ (visibleMessages readLimit aborted rest
        (record.offset + 1)).1 →
        ∃ later ∈ record :: rest, message = later.toProtocol ∧
          later.offset < readLimit ∧ isControlRecord later.headers = false ∧
          isAbortedInRanges aborted later.producer later.offset = false := by
      intro hrest
      obtain ⟨later, hlater, hprops⟩ := ih hrest
      exact ⟨later, mem_cons_of_mem record hlater, hprops⟩
    simp only [visibleMessages] at hmem
    split at hmem
    · simp at hmem
    rename_i hlimit
    split at hmem
    · exact hlater hmem
    rename_i hcontrol
    split at hmem
    · exact hlater hmem
    rename_i haborted
    rcases mem_cons.mp hmem with heq | hrest
    · exact ⟨record, mem_cons_self, heq, not_le.mp hlimit,
        by simpa using hcontrol, by simpa using haborted⟩
    · exact hlater hrest

variable {offset : Int}

/-- Pruning hides no record at a retained offset. -/
theorem isAbortedInRanges_prune {partition : Partition}
    (hstart : partition.log.startOffset = 0) {key : ProducerKey}
    (hoffset : 0 ≤ offset)
    (haborted : isAbortedInRanges partition.abortedTxns key offset = true) :
    isAbortedInRanges partition.pruneAborted.abortedTxns key offset = true := by
  unfold isAbortedInRanges at haborted ⊢
  split at haborted
  · cases haborted
  next hproducer =>
    rw [if_neg hproducer]
    obtain ⟨range, hrange, hinside⟩ := any_eq_true.mp haborted
    refine any_eq_true.mpr ⟨range, mem_filter.mpr ⟨hrange, ?_⟩, hinside⟩
    obtain ⟨-, -, hstop⟩ := of_decide_eq_true hinside
    exact decide_eq_true (by omega)

theorem InOrder.mem_bounds (hinOrder : InOrder messages) {message : Message}
    (hmem : message ∈ messages) :
    0 ≤ message.offset ∧ message.offset < messages.length := by
  obtain ⟨index, hindex⟩ := mem_iff_getElem?.mp hmem
  have hlt := (List.getElem?_eq_some_iff.mp hindex).1
  have hoffset := hinOrder index message hindex
  omega

theorem InOrder.eq_of_offset_eq (hinOrder : InOrder messages)
    {left right : Message} (hleft : left ∈ messages) (hright : right ∈ messages)
    (heq : left.offset = right.offset) : left = right := by
  obtain ⟨first, hfirst⟩ := mem_iff_getElem?.mp hleft
  obtain ⟨second, hsecond⟩ := mem_iff_getElem?.mp hright
  rw [hinOrder first left hfirst, hinOrder second right hsecond] at heq
  obtain rfl : first = second := by omega
  exact Option.some.inj (hfirst.symm.trans hsecond)

namespace PartitionRun

variable {run next : PartitionRun}

/-- `next` has the records, markers and aborted ranges of `run`, and only
markers behind its records beside. -/
structure Extends (run next : PartitionRun) : Prop where
  start_eq : next.partition.log.startOffset = run.partition.log.startOffset
  records : run.partition.log.records <+: next.partition.log.records
  markers : ∃ more, next.markers = run.markers ++ more ∧
    ∀ marker ∈ more, run.partition.log.highWaterMark ≤ marker.offset ∧
      next.Logged marker
  aborted : ∀ key offset, 0 ≤ offset →
    isAbortedInRanges run.partition.abortedTxns key offset = true →
      isAbortedInRanges next.partition.abortedTxns key offset = true

/-- The log is in order and every record of a transaction is accounted for;
what every request knows is true. -/
structure Tracked (run : PartitionRun) : Prop where
  start_eq : run.partition.log.startOffset = 0
  inOrder : InOrder run.partition.log.records
  logged : ∀ marker ∈ run.markers, run.Logged marker
  accounted : ∀ record ∈ run.partition.log.records, record.InTransaction →
    run.Accounted record
  knows : ∀ progress ∈ run.requests, progress.Knows run

theorem start_tracked : start.Tracked := by
  constructor <;>
    simp [start, Partition.empty, PartitionLog.empty, InOrder]

theorem Extends.committed (hextends : run.Extends next) (htracked : run.Tracked)
    {key : ProducerKey} {offset : Int}
    (hcommitted : Committed run.markers key offset) :
    Committed next.markers key offset := by
  obtain ⟨marker, hmem, hkey, hcommit, hafter, hfirst⟩ := hcommitted
  obtain ⟨more, hmore, hbehind⟩ := hextends.markers
  rw [hmore]
  refine ⟨marker, mem_append_left more hmem, hkey, hcommit, hafter, ?_⟩
  intro other hother hotherKey hotherAfter
  rcases mem_append.mp hother with hold | hnew
  · exact hfirst other hold hotherKey hotherAfter
  · obtain ⟨record, hrecord, hoffset, -⟩ := htracked.logged marker hmem
    have hlt : record.offset < run.partition.log.highWaterMark :=
      (htracked.inOrder.mem_bounds hrecord).2
    have hle := (hbehind other hnew).1
    omega

variable {record : Message}

theorem Extends.settled (hextends : run.Extends next) (htracked : run.Tracked)
    (hrecord : record ∈ run.partition.log.records)
    (hsettled : run.Settled record) : next.Settled record :=
  hsettled.imp (hextends.aborted _ _ (htracked.inOrder.mem_bounds hrecord).1)
    (hextends.committed htracked)

variable {progress : Progress} {index : Nat}

/-- What a request knows stays true. -/
theorem Extends.knows (hextends : run.Extends next) (htracked : run.Tracked)
    (hknows : progress.Knows run) :
    progress.Knows next := by
  obtain ⟨more, hmore, -⟩ := hextends.markers
  have hrecords := hextends.records.subset
  have hmarkers : ∀ marker ∈ run.markers, marker ∈ next.markers := by
    intro marker hmem
    rw [hmore]
    exact mem_append_left more hmem
  cases progress with
  | markerAppended marker markerOffset | markerFlushed marker markerOffset =>
    exact hmarkers _ hknows
  | fetchRead request messages => exact List.Subset.trans hknows hrecords
  | fetchMarked request messages highWaterMark =>
    exact List.Subset.trans hknows hrecords
  | fetchStable request messages highWaterMark lastStableOffset =>
    refine ⟨List.Subset.trans hknows.1 hrecords, ?_⟩
    intro hisolation message hmessage htransaction hbelow
    exact hextends.settled htracked (hknows.1 hmessage)
      (hknows.2 hisolation message hmessage htransaction hbelow)
  | fetchRanged request messages highWaterMark lastStableOffset readLimit aborted =>
      refine ⟨List.Subset.trans hknows.1 hrecords, ?_⟩
      intro hisolation message hmessage htransaction hbelow
      exact (hknows.2 hisolation message hmessage htransaction hbelow).imp_right
        (hextends.committed htracked)
  | fetchAnswered request response =>
    intro hisolation message hmessage
    obtain ⟨record, hrecord, heq, hcommitted⟩ :=
      hknows hisolation message hmessage
    exact ⟨record, hrecords hrecord, heq, fun hproducer =>
      hextends.committed htracked (hcommitted hproducer)⟩
  | _ => trivial

/-- A request that takes a step keeps the run tracked if it extends it,
accounts for the records, and knows what is true afterwards. -/
theorem Tracked.advance (htracked : run.Tracked) (hextends : run.Extends next)
    (hrequests : next.requests = run.requests.set index progress)
    (hinOrder : InOrder next.partition.log.records)
    (haccounted : ∀ record ∈ next.partition.log.records,
      record.InTransaction → next.Accounted record)
    (hknows : progress.Knows next) : next.Tracked := by
  refine ⟨hextends.start_eq.trans htracked.start_eq, hinOrder, ?_, haccounted, ?_⟩
  · obtain ⟨more, hmore, hbehind⟩ := hextends.markers
    rw [hmore]
    intro marker hmem
    rcases mem_append.mp hmem with hold | hnew
    · obtain ⟨record, hrecord, hmarker⟩ := htracked.logged marker hold
      exact ⟨record, hextends.records.subset hrecord, hmarker⟩
    · exact (hbehind marker hnew).2
  · intro other hother
    rw [hrequests] at hother
    rcases mem_or_eq_of_mem_set hother with hold | rfl
    · exact hextends.knows htracked (htracked.knows other hold)
    · exact hknows

/-- A record stays pending while its own request does not move. -/
theorem Pending.set (hpending : run.Pending record)
    (hprogress : run.requests[index]? = some progress)
    (hother : ¬ progress.Holds record) (after : Progress) :
    ∃ other ∈ run.requests.set index after, other.Holds record := by
  obtain ⟨other, hmem, hholds⟩ := hpending
  obtain ⟨position, hposition⟩ := mem_iff_getElem?.mp hmem
  have hne : index ≠ position := by
    rintro rfl
    rw [hprogress] at hposition
    exact hother (Option.some.inj hposition ▸ hholds)
  refine ⟨other, mem_of_getElem? (i := position) ?_, hholds⟩
  rw [getElem?_set_ne hne, hposition]

/-- A step that leaves the log and the open transactions alone and hides no
less than before. -/
theorem Tracked.quiet (htracked : run.Tracked)
    (hprogress : run.requests[index]? = some progress)
    (hholds : ∀ record, ¬ progress.Holds record) (partition : Partition)
    (hlog : partition.log = run.partition.log)
    (hopen : partition.openTxns = run.partition.openTxns)
    (haborted : ∀ key offset, 0 ≤ offset →
      isAbortedInRanges run.partition.abortedTxns key offset = true →
        isAbortedInRanges partition.abortedTxns key offset = true)
    {after : Progress}
    (hknows : after.Knows ⟨partition, run.requests.set index after, run.markers⟩) :
    Tracked ⟨partition, run.requests.set index after, run.markers⟩ := by
  have hextends : run.Extends
      ⟨partition, run.requests.set index after, run.markers⟩ :=
    ⟨by rw [hlog], by rw [hlog], ⟨[], by simp, by simp⟩, haborted⟩
  refine htracked.advance hextends rfl ?_ ?_ hknows
  · simpa only [hlog] using htracked.inOrder
  · intro record hrecord htransaction
    replace hrecord : record ∈ run.partition.log.records := hlog ▸ hrecord
    rcases htracked.accounted record hrecord htransaction with
      hpending | ⟨start, hstart, hle⟩ | hsettled
    · exact Or.inl (hpending.set hprogress (hholds record) after)
    · exact Or.inr (Or.inl ⟨start, by rw [hopen, hstart], hle⟩)
    · exact Or.inr (Or.inr (hextends.settled htracked hrecord hsettled))

end PartitionRun

/-- The records of a batch have its producer and follow each other. -/
theorem MessageBatch.mem_stampFrom {batch : MessageBatch} {record : Message}
    (hmem : record ∈ batch.stampFrom offset messages) :
    record.producer = ⟨batch.producerId, batch.producerEpoch⟩ ∧
      offset ≤ record.offset ∧ record.offset < offset + messages.length ∧
      ∃ message ∈ messages, record.headers = message.headers := by
  induction messages generalizing offset with
  | nil => simp [stampFrom] at hmem
  | cons message rest ih =>
    rcases mem_cons.mp hmem with rfl | hrest
    · refine ⟨rfl, le_rfl, ?_, message, mem_cons_self, rfl⟩
      simp only [stamp, length_cons]
      omega
    · obtain ⟨hproducer, hlower, hupper, later, hlater, hheaders⟩ := ih hrest
      simp only [length_cons]
      exact ⟨hproducer, by omega, by omega, later,
        mem_cons_of_mem message hlater, hheaders⟩

namespace PartitionRun

variable {run : PartitionRun} {index : Nat}

/-- Appending a batch whose records are pending or of no transaction, with
the markers among it. -/
theorem Tracked.append (htracked : run.Tracked) {progress after : Progress}
    (hprogress : run.requests[index]? = some progress)
    (hholds : ∀ record, ¬ progress.Holds record) (batch : MessageBatch)
    {more : List WrittenMarker}
    (hmore : ∀ marker ∈ more, run.partition.log.highWaterMark ≤ marker.offset ∧
        ∃ record ∈ run.partition.log.stamped batch, record.offset = marker.offset ∧
            parseTransactionMarker record.headers = some (marker.key, marker.commit))
    (hstamped : ∀ record ∈ run.partition.log.stamped batch,
      record.InTransaction → after.Holds record)
    (hknows : after.Knows
      ⟨{ run.partition with log := (run.partition.log.append batch).1 },
        run.requests.set index after, run.markers ++ more⟩) :
    Tracked ⟨{ run.partition with log := (run.partition.log.append batch).1 },
        run.requests.set index after, run.markers ++ more⟩ := by
  have hextends : run.Extends
      ⟨{ run.partition with log := (run.partition.log.append batch).1 },
        run.requests.set index after, run.markers ++ more⟩ := by
    refine ⟨rfl, prefix_append _ _, ⟨more, rfl, ?_⟩, fun _ _ _ => id⟩
    intro marker hmem
    obtain ⟨hbehind, record, hrecord, hmarker⟩ := hmore marker hmem
    exact ⟨hbehind, record, mem_append_right _ hrecord, hmarker⟩
  refine htracked.advance hextends rfl
    (htracked.inOrder.stampFrom batch batch.messages) ?_ hknows
  intro record hrecord htransaction
  rcases mem_append.mp hrecord with hold | hnew
  · rcases htracked.accounted record hold htransaction with
      hpending | hopen | hsettled
    · exact Or.inl (hpending.set hprogress (hholds record) after)
    · exact Or.inr (Or.inl hopen)
    · exact Or.inr (Or.inr (hextends.settled htracked hold hsettled))
  · have hindex : index < run.requests.length :=
      (List.getElem?_eq_some_iff.mp hprogress).1
    exact Or.inl ⟨after, mem_set hindex after, hstamped record hnew htransaction⟩

/-- Beginning a transaction that is not tracked from a later offset. -/
theorem Tracked.begin (htracked : run.Tracked) {request : ProduceRequest}
    {baseOffset : Int} (hprogress : run.requests[index]? =
      some (.produceAppended request baseOffset))
    (hsafe : run.Undisturbed (.produceAppended request baseOffset)) :
    Tracked ⟨run.partition.beginTransaction request.producer baseOffset,
        run.requests.set index .finished, run.markers⟩ := by
  have hextends : run.Extends
      ⟨run.partition.beginTransaction request.producer baseOffset,
        run.requests.set index .finished, run.markers⟩ :=
    ⟨by simp, by simp, ⟨[], by simp, by simp⟩, by simp⟩
  refine htracked.advance hextends rfl (by simpa using htracked.inOrder) ?_ trivial
  intro record hrecord htransaction
  simp only [Partition.log_beginTransaction] at hrecord
  by_cases hholds : (Progress.produceAppended request baseOffset).Holds record
  · obtain ⟨hproducer, hlower, -⟩ := hholds
    have hid : request.producer.producerId ≠ 0 := hproducer ▸ htransaction.1
    refine Or.inr (Or.inl
      ⟨(run.partition.openTxns.find? request.producer).getD baseOffset, ?_, ?_⟩)
    · rw [hproducer, Partition.beginTransaction, if_neg hid]
      split
      next start hopen => rw [hopen, Option.getD_some]
      next hnone => rw [OrderedMap.find?_insert_self, hnone, Option.getD_none]
    cases hopen : run.partition.openTxns.find? request.producer with
    | none => exact hlower
    | some start => exact (hsafe start hopen).trans hlower
  · rcases htracked.accounted record hrecord htransaction with
      hpending | ⟨start, hstart, hle⟩ | hsettled
    · exact Or.inl (hpending.set hprogress hholds .finished)
    · exact Or.inr (Or.inl ⟨start,
        run.partition.find?_beginTransaction_of_some hstart _ _, hle⟩)
    · exact Or.inr (Or.inr (hextends.settled htracked hrecord hsettled))

/-- If the markers between a record and a commit marker of its producer are
commits, then so is the first marker after the record. -/
theorem Tracked.committed (htracked : run.Tracked) {key : ProducerKey}
    {offset markerOffset : Int}
    (hmarker : ⟨key, true, markerOffset⟩ ∈ run.markers)
    (hafter : offset < markerOffset)
    (hbetween : ∀ other ∈ run.markers, other.key = key →
      offset < other.offset → other.offset < markerOffset → other.commit = true) :
    Committed run.markers key offset := by
  let later := run.markers.filter fun other =>
    other.key = key ∧ offset < other.offset
  have hlater : ∀ other, other ∈ later ↔ other ∈ run.markers ∧
      other.key = key ∧ offset < other.offset := by
    simp [later, mem_filter]
  obtain ⟨first, hfirst, hleast⟩ := later.toFinset.exists_min_image
    WrittenMarker.offset
    ⟨_, mem_toFinset.mpr ((hlater _).mpr ⟨hmarker, rfl, hafter⟩)⟩
  obtain ⟨hmem, hkey, hoffset⟩ :=
    (hlater first).mp (mem_toFinset.mp hfirst)
  have hle : first.offset ≤ markerOffset := hleast ⟨key, true, markerOffset⟩
    (mem_toFinset.mpr ((hlater _).mpr ⟨hmarker, rfl, hafter⟩))
  refine ⟨first, hmem, hkey, ?_, hoffset, fun other hother hotherKey hlt =>
    hleast other (mem_toFinset.mpr ((hlater other).mpr ⟨hother, hotherKey, hlt⟩))⟩
  rcases hle.lt_or_eq with hlt | heq
  · exact hbetween first hmem hkey hoffset hlt
  · -- two markers at one offset are one record
    obtain ⟨left, hleft, hleftOffset, hleftMarker⟩ := htracked.logged _ hmem
    obtain ⟨right, hright, hrightOffset, hrightMarker⟩ :=
      htracked.logged _ hmarker
    have hsame : left = right := htracked.inOrder.eq_of_offset_eq hleft hright
      (by rw [hleftOffset, hrightOffset, heq])
    rw [hsame, hrightMarker] at hleftMarker
    exact (congrArg Prod.snd (Option.some.inj hleftMarker)).symm

end PartitionRun

/-- A marker forgets no aborted range. -/
theorem isAbortedInRanges_resolve {partition : Partition}
    (hstart : partition.log.startOffset = 0) (marker : TransactionMarker)
    (markerOffset : Int) {key : ProducerKey} (hoffset : 0 ≤ offset)
    (haborted : isAbortedInRanges (partition.rangesAfter marker markerOffset)
      key offset = true) :
    isAbortedInRanges
      (partition.resolveTransaction marker markerOffset).abortedTxns key
        offset = true := by
  rw [Partition.resolveTransaction_eq]
  split
  · exact haborted
  · apply isAbortedInRanges_prune
    · exact hstart
    · exact hoffset
    · exact haborted

namespace PartitionRun

variable {run : PartitionRun} {index : Nat}

/-- Resolving a transaction whose records all precede the marker or have yet
to begin. -/
theorem Tracked.resolve (htracked : run.Tracked) {marker : TransactionMarker}
    {markerOffset : Int} (hprogress : run.requests[index]? =
      some (.markerFlushed marker markerOffset))
    (hsafe : run.Undisturbed (.markerFlushed marker markerOffset)) :
    Tracked ⟨run.partition.resolveTransaction marker markerOffset,
        run.requests.set index .finished, run.markers⟩ := by
  have hwritten : ⟨marker.producer, marker.commit, markerOffset⟩ ∈ run.markers :=
    htracked.knows _ (mem_of_getElem? hprogress)
  have hopenTxns : (run.partition.resolveTransaction marker markerOffset).openTxns =
        run.partition.openTxns.erase marker.producer := by
    rw [Partition.resolveTransaction_eq]
    split <;> rfl
  have hextends : run.Extends ⟨run.partition.resolveTransaction marker markerOffset,
        run.requests.set index .finished, run.markers⟩ := by
    refine ⟨by simp, by simp, ⟨[], by simp, by simp⟩, ?_⟩
    intro key offset hoffset haborted
    refine isAbortedInRanges_resolve htracked.start_eq marker markerOffset hoffset ?_
    unfold Partition.rangesAfter
    split
    · split
      · exact haborted
      · unfold isAbortedInRanges at haborted ⊢
        split at haborted
        · cases haborted
        next hproducer =>
          rw [if_neg hproducer, any_append, haborted, Bool.true_or]
    · exact haborted
  refine htracked.advance hextends rfl (by simpa using htracked.inOrder) ?_ trivial
  intro record hrecord htransaction
  simp only [Partition.log_resolveTransaction] at hrecord
  have hpending : run.Pending record →
      ∃ other ∈ run.requests.set index .finished, other.Holds record :=
    fun h => h.set hprogress (by simp [Progress.Holds]) .finished
  rcases htracked.accounted record hrecord htransaction with
    h | ⟨start, hstart, hle⟩ | hsettled
  · exact Or.inl (hpending h)
  · by_cases hproducer : record.producer = marker.producer
    · rw [hproducer] at hstart
      obtain ⟨hlater, hbetween⟩ := hsafe start hstart
      rcases lt_trichotomy record.offset markerOffset with hlt | heq | hgt
      · refine Or.inr (Or.inr ?_)
        cases hcommit : marker.commit with
        | true =>
          refine Or.inr (hproducer ▸ htracked.committed (hcommit ▸ hwritten) hlt ?_)
          intro other hother hkey hafter hbefore
          exact hbetween hcommit other hother hkey (by omega) hbefore
        | false =>
          refine Or.inl ?_
          rw [hproducer]
          refine isAbortedInRanges_resolve htracked.start_eq marker _
            (htracked.inOrder.mem_bounds hrecord).1
            ?_
          have hid : marker.producer.producerId ≠ 0 :=
            hproducer ▸ htransaction.1
          simp only [isAbortedInRanges, hid, ↓reduceIte, Partition.rangesAfter,
            hstart, hcommit, Bool.false_eq_true, any_append, any_cons, any_nil,
            Bool.or_false, true_and, decide_eq_true_eq, Bool.or_eq_true]
          exact Or.inr ⟨hle, hlt⟩
      · -- the record at the marker's offset is the marker
        obtain ⟨other, hother, hoffset, hmarker⟩ := htracked.logged _ hwritten
        obtain rfl := htracked.inOrder.eq_of_offset_eq hrecord hother
          (by rw [hoffset, heq])
        rw [parseTransactionMarker, htransaction.2] at hmarker
        cases hmarker
      · exact Or.inl (hpending (hlater record hrecord htransaction hproducer hgt))
    · refine Or.inr (Or.inl ⟨start, ?_, hle⟩)
      simp only [hopenTxns]
      rw [OrderedMap.find?_erase, if_neg (Ne.symm hproducer), hstart]
  · exact Or.inr (Or.inr (hextends.settled htracked hrecord hsettled))

/-- A request that is received knows nothing yet. -/
theorem Tracked.receive (htracked : run.Tracked) (request : PartitionRequest) :
    (run.step (.receive request)).Tracked := by
  refine ⟨htracked.start_eq, htracked.inOrder, htracked.logged, ?_, ?_⟩
  · intro record hrecord htransaction
    refine (htracked.accounted record hrecord htransaction).imp_left ?_
    rintro ⟨progress, hmem, hholds⟩
    exact ⟨progress, mem_append_left _ hmem, hholds⟩
  · intro progress hmem
    rcases mem_append.mp hmem with hold | hnew
    · have hextends : run.Extends (run.step (.receive request)) :=
        ⟨rfl, prefix_rfl, ⟨[], by simp [step], by simp⟩, fun _ _ _ => id⟩
      exact hextends.knows htracked (htracked.knows progress hold)
    · rw [mem_singleton.mp hnew]
      cases request <;> trivial

variable {progress : Progress} {lastStableOffset : Int}

section

variable (htracked : run.Tracked)
  (hprogress : run.requests[index]? = some progress)
  (hholds : ∀ record, ¬ progress.Holds record)

include htracked hprogress hholds

/-- A step that changes neither the partition nor what is pending. -/
theorem Tracked.idle (after : Progress) (hknows : after.Knows
      ⟨run.partition, run.requests.set index after, run.markers⟩) :
    Tracked ⟨run.partition, run.requests.set index after, run.markers⟩ :=
  htracked.quiet hprogress hholds run.partition rfl rfl (fun _ _ _ => id) hknows

theorem Tracked.prune (after : Progress) (hknows : after.Knows
      ⟨run.partition.pruneAborted, run.requests.set index after, run.markers⟩) :
    Tracked ⟨run.partition.pruneAborted, run.requests.set index after, run.markers⟩ :=
  htracked.quiet hprogress hholds run.partition.pruneAborted rfl rfl
    (fun _ _ => isAbortedInRanges_prune htracked.start_eq) hknows

end

theorem Tracked.produce (htracked : run.Tracked) {request : ProduceRequest}
    (hprogress : run.requests[index]? = some (.produceReceived request))
    (fails : Bool) : (run.step (.advance index fails)).Tracked := by
  have hholds : ∀ record,
      ¬ (Progress.produceReceived request).Holds record := fun _ => id
  by_cases hnone : fails = true ∨ request.batch.messages = []
  · obtain ⟨failure, hfailed⟩ := run.partition.appendBatch_none hnone
    simpa only [step, hprogress, Progress.advance, hfailed, Progress.written,
      append_nil] using htracked.idle hprogress hholds .finished trivial
  · obtain ⟨hfails, hbatch⟩ := not_or.mp hnone
    obtain rfl : fails = false := by simpa using hfails
    simp only [step, hprogress, Progress.advance,
      run.partition.appendBatch_ok hbatch, Progress.written]
    refine htracked.append hprogress hholds request.batch (by simp) ?_ trivial
    intro record hrecord htransaction
    obtain ⟨hproducer, hlower, hupper, -⟩ :=
      mem_stampFrom hrecord
    refine ⟨hproducer, hlower, ?_⟩
    simpa [ProduceRequest.batch] using hupper

theorem Tracked.marker (htracked : run.Tracked) {marker : TransactionMarker}
    {now : Int}
    (hprogress : run.requests[index]? = some (.markerReceived marker now))
    (fails : Bool) : (run.step (.advance index fails)).Tracked := by
  have hholds : ∀ record,
      ¬ (Progress.markerReceived marker now).Holds record := fun _ => id
  cases fails with
  | true =>
    simpa only [step, hprogress, Progress.advance, Partition.appendBatch,
      Progress.written, append_nil, ↓reduceIte] using
        htracked.idle hprogress hholds .finished trivial
  | false =>
    have hbatch : (marker.batch now).messages ≠ [] := cons_ne_nil _ _
    simp only [step, hprogress, Progress.advance,
      run.partition.appendBatch_ok hbatch, Progress.written]
    refine htracked.append hprogress hholds (marker.batch now) ?_ ?_
      (by simp [Progress.Knows])
    · simp only [mem_singleton, forall_eq]
      refine ⟨le_rfl, _, mem_singleton_self _, rfl, ?_⟩
      exact parseTransactionMarker_headers marker.fits marker.commit
    · intro record hrecord htransaction
      obtain ⟨-, -, -, message, hmessage, hheaders⟩ :=
        mem_stampFrom hrecord
      rw [mem_singleton.mp hmessage] at hheaders
      have hcontrol := htransaction.2
      rw [hheaders] at hcontrol
      simp at hcontrol

variable {request : FetchRequest} {messages : List Message}
  {highWaterMark : Int}

section

variable (htracked : run.Tracked)

include htracked

theorem Tracked.fetchRead
    (hprogress : run.requests[index]? = some (.fetchReceived request))
    (fails : Bool) : (run.step (.advance index fails)).Tracked := by
  have hholds : ∀ record,
      ¬ (Progress.fetchReceived request).Holds record := fun _ => id
  cases hread : run.partition.log.read request.offset request.maxBytes with
  | error error =>
    simpa only [PartitionRun.step, hprogress, Progress.advance, hread,
      Progress.written, append_nil] using
        htracked.idle hprogress hholds .finished trivial
  | ok messages =>
    have hmessages : messages ⊆ run.partition.log.records := by
      unfold PartitionLog.read at hread
      split at hread
      · cases hread
      · rw [← Except.ok.inj hread]
        exact List.Subset.trans (takeBudget_isPage _ _).consecutive.subset
          (drop_subset _ _)
    simpa only [PartitionRun.step, hprogress, Progress.advance, hread,
      Progress.written, append_nil] using
        htracked.idle hprogress hholds (.fetchRead request messages) hmessages

/-- What lies below the last stable offset and was not pending is settled. -/
theorem Tracked.fetchStable (hprogress : run.requests[index]? =
      some (.fetchMarked request messages highWaterMark))
    (hsafe : run.Undisturbed (.fetchMarked request messages highWaterMark))
    (fails : Bool) : (run.step (.advance index fails)).Tracked := by
  have hmessages : messages ⊆ run.partition.log.records :=
    htracked.knows _ (mem_of_getElem? hprogress)
  simp only [PartitionRun.step, hprogress, Progress.advance,
    Partition.lastStableOffset, Progress.written, append_nil]
  refine htracked.prune hprogress (fun _ => id) _ ⟨hmessages, ?_⟩
  intro hisolation message hmessage htransaction hbelow
  have hsettled : run.Settled message := by
    rcases htracked.accounted message (hmessages hmessage) htransaction with
      h | ⟨start, hstart, hle⟩ | hsettled
    · exact absurd h (hsafe hisolation message hmessage htransaction hbelow)
    · have hstable := run.partition.stableOffset_le_of_find? hstart
      omega
    · exact hsettled
  exact hsettled.imp_left (isAbortedInRanges_prune htracked.start_eq
    (htracked.inOrder.mem_bounds (hmessages hmessage)).1)

/-- The aborted ranges a fetch takes hide what an abort settled. -/
theorem Tracked.fetchRanged (hprogress : run.requests[index]? =
      some (.fetchStable request messages highWaterMark lastStableOffset))
    (fails : Bool) : (run.step (.advance index fails)).Tracked := by
  obtain ⟨hmessages, hsettled⟩ :=
    htracked.knows _ (mem_of_getElem? hprogress)
  cases hisolation : request.isolation with
  | readUncommitted =>
    simp only [PartitionRun.step, hprogress, Progress.advance, hisolation,
      Progress.written, append_nil]
    refine htracked.idle hprogress (fun _ => id) _ ⟨hmessages, ?_⟩
    intro hcommitted
    rw [hisolation] at hcommitted
    cases hcommitted
  | readCommitted =>
    simp only [PartitionRun.step, hprogress, Progress.advance, hisolation,
      Partition.abortedRanges, Progress.written, append_nil]
    refine htracked.prune hprogress (fun _ => id) _ ⟨hmessages, ?_⟩
    intro _ message hmessage htransaction hbelow
    exact (hsettled hisolation message hmessage htransaction hbelow).imp_left
      (isAbortedInRanges_prune htracked.start_eq
        (htracked.inOrder.mem_bounds (hmessages hmessage)).1)

/-- What a fetch answers is committed. -/
theorem Tracked.fetchAnswered {readLimit : Int} {aborted : List AbortedRange}
    (hprogress : run.requests[index]? =
      some (.fetchRanged request messages highWaterMark lastStableOffset
        readLimit aborted)) (fails : Bool) :
    (run.step (.advance index fails)).Tracked := by
  obtain ⟨hmessages, hsettled⟩ :=
    htracked.knows _ (mem_of_getElem? hprogress)
  simp only [PartitionRun.step, hprogress, Progress.advance, Progress.written,
    append_nil]
  refine htracked.idle hprogress (fun _ => id) _ ?_
  intro hisolation message hmessage
  obtain ⟨record, hrecord, heq, hlimit, hcontrol, hnotAborted⟩ :=
    mem_visibleMessages hmessage
  refine ⟨record, hmessages hrecord, heq, fun hproducer => ?_⟩
  refine (hsettled hisolation record hrecord ⟨hproducer, hcontrol⟩
    hlimit).resolve_left ?_
  rw [hnotAborted]
  exact Bool.false_ne_true

theorem Tracked.step {op : RequestStep} (hsafe : run.RaceFree op) :
    (run.step op).Tracked := by
  cases op with
  | receive request => exact htracked.receive request
  | advance index fails =>
    cases hprogress : run.requests[index]? with
    | none => simpa only [PartitionRun.step, hprogress] using htracked
    | some progress =>
      replace hsafe := hsafe progress hprogress
      have hknows := htracked.knows _ (mem_of_getElem? hprogress)
      cases progress with
      | produceReceived request => exact htracked.produce hprogress fails
      | produceAppended request baseOffset =>
        simpa only [PartitionRun.step, hprogress, Progress.advance,
          Progress.written, append_nil] using htracked.begin hprogress hsafe
      | markerReceived marker now => exact htracked.marker hprogress fails
      | markerAppended marker markerOffset =>
        simp only [PartitionRun.step, hprogress, Progress.advance,
          Progress.written, append_nil]
        refine htracked.idle hprogress (fun _ => id) _ ?_
        cases fails
        · exact hknows
        · trivial
      | markerFlushed marker markerOffset =>
        simpa only [PartitionRun.step, hprogress, Progress.advance,
          Progress.written, append_nil] using htracked.resolve hprogress hsafe
      | fetchReceived request => exact htracked.fetchRead hprogress fails
      | fetchRead request messages =>
        simpa only [PartitionRun.step, hprogress, Progress.advance,
          Progress.written, append_nil] using htracked.idle hprogress (fun _ => id)
              (.fetchMarked request messages _) hknows
      | fetchMarked request messages highWaterMark =>
        exact htracked.fetchStable hprogress hsafe fails
      | fetchStable request messages highWaterMark lastStableOffset =>
        exact htracked.fetchRanged hprogress fails
      | fetchRanged request messages highWaterMark lastStableOffset
          readLimit aborted => exact htracked.fetchAnswered hprogress fails
      | fetchAnswered request response =>
        simpa only [PartitionRun.step, hprogress, Progress.advance,
          Progress.written, append_nil] using htracked.idle hprogress (fun _ => id)
              (.fetchAnswered request response) hknows
      | finished =>
        simpa only [PartitionRun.step, hprogress, Progress.advance,
          Progress.written, append_nil] using
            htracked.idle hprogress (fun _ => id) .finished trivial

end

/-- In every interleaving whose steps are undisturbed, read-committed fetches
return committed records. -/
theorem readsCommitted_of_raceFree (ops : List RequestStep)
    (hallowed : AllAllowed step RaceFree start ops) :
    (runSteps step start ops).ReadsCommitted := by
  have htracked := hallowed.invariant Tracked
    (fun _ _ htracked hsafe => htracked.step hsafe) start_tracked
  exact ⟨htracked.logged, fun _ _ hanswered => htracked.knows _ hanswered⟩

/-- A batch of one message of a producer. -/
def oneRecord (producerId : Int64) : ProduceRequest :=
  ⟨[⟨0, [107], [118], ∅, 5⟩], producerId, 0⟩

/-- A committed and an aborted transaction, produced and resolved with their
steps interleaved, and a fetch that reads while the second one is open and
answers when it has been aborted. -/
def interleavedOps : List RequestStep :=
  [.receive (.produce (oneRecord 1001)), .receive (.produce (oneRecord 1002)),
    .advance 0 false, .advance 1 false, .advance 1 false, .advance 0 false,
    .receive (.marker ⟨1001, 0, true, 7⟩ 0),
    .receive (.fetch ⟨0, 100, .readCommitted⟩),
    .advance 2 false, .advance 3 false, .advance 2 false, .advance 3 false,
    .advance 2 false, .receive (.marker ⟨1002, 0, false, 8⟩ 0),
    .advance 4 false, .advance 4 false, .advance 4 false, .advance 3 false,
    .advance 3 false, .advance 3 false]

theorem interleaved_readsCommitted : AllAllowed step RaceFree start interleavedOps ∧
      (runSteps step start interleavedOps).ReadsCommitted :=
  ⟨by decide +kernel, readsCommitted_of_raceFree _ (by decide +kernel)⟩

/-- The messages a request has answered with. -/
def answers (run : PartitionRun) : List (List ProtocolMessage) :=
  run.requests.filterMap fun
    | .fetchAnswered _ response => some response.messages
    | _ => none

/-- A fetch runs between the append of a batch and the beginning of its
transaction. -/
def racedRun : PartitionRun :=
  runSteps step start [.receive (.produce (oneRecord 1001)), .advance 0 false,
      .receive (.fetch ⟨0, 100, .readCommitted⟩), .advance 1 false,
      .advance 1 false, .advance 1 false, .advance 1 false, .advance 1 false]

/-- The fetch has returned a record of a transaction that no marker ends. -/
theorem fetch_before_begin : racedRun.answers = [[⟨0, [107], [118], ∅, 5⟩]] ∧
      racedRun.partition.log.records.map Message.producer = [⟨1001, 0⟩] ∧
      racedRun.markers = [] := by
  decide +kernel

end PartitionRun

end Streambus
