/-
A partition on its log.  Requests come in as they were decoded, batches are
appended to the log on disk and fetches read it.  As long as no rotation drops
a record that is still in the write buffer, the partition behaves as one on a
list of messages: whatever a frame can hold fits the record format.
-/
import Streambus.Partition
import Streambus.RequestCodec
import Streambus.ResponseCodec

namespace Streambus

open Footprint Layout List MessageBatch

/-- No value is larger than the bytes it is laid out in. -/
def Layout.Bounds {α : Type} (layout : Layout α) (size : α → Nat) : Prop :=
  ∀ value footprint, layout value footprint → size value ≤ footprint.bytes.length

section

variable {α : Type} {layout : Layout α} {size : α → Nat}

theorem Layout.bounds_fixed (α : Type) [FixedWidth α] :
    (Layout.fixed α).Bounds fun _ => FixedWidth.width α := by
  rintro value _ rfl
  rw [bytes_solid, encodeFixed_length]

theorem Layout.bounds_blob : Layout.blob.Bounds fun bytes =>
    4 + bytes.length := by
  rintro bytes _ ⟨count, _, _, rfl, ⟨_, rfl⟩, rfl⟩
  rw [bytes_seq, length_append, bytes_solid]
  exact le_refl _

theorem Layout.Bounds.replicate (hbounds : layout.Bounds size) (count : Nat) :
    (layout.replicate count).Bounds fun values =>
      (values.map size).sum := by
  induction count with
  | zero =>
    rintro _ _ ⟨rfl, rfl⟩
    exact le_refl 0
  | succ count ih =>
    rintro _ _ ⟨value, first, _, hvalue, ⟨values, second, _, hvalues,
      ⟨rfl, rfl⟩, rfl⟩, rfl⟩
    have hfirst := hbounds value first hvalue
    have hsecond := ih values second hvalues
    dsimp only at hsecond
    simp only [map_cons, sum_cons, bytes_seq, seq_empty, length_append]
    omega

theorem Layout.Bounds.counted (hbounds : layout.Bounds size) :
    (Layout.counted layout).Bounds fun values =>
      4 + (values.map size).sum := by
  rintro values _ ⟨count, first, second, hcount, hvalues, rfl⟩
  have hfirst : 4 ≤ first.bytes.length :=
    bounds_fixed UInt32 count first hcount
  have hsecond := hbounds.replicate count.toNat values second hvalues
  dsimp only at hsecond ⊢
  rw [bytes_seq, length_append]
  omega

end

namespace Protocol

theorem bounds_header : headerLayout.Bounds headerEntrySize := by
  rintro _ _ ⟨key, first, _, hkey, ⟨value, second, _, hvalue, ⟨rfl, rfl⟩, rfl⟩, rfl⟩
  have hfirst := bounds_blob key first hkey
  have hsecond := bounds_blob value second hvalue
  dsimp only at hfirst hsecond
  simp only [headerEntrySize, bytes_seq, seq_empty, length_append]
  omega

/-- A header that comes again replaces the one before, so that a message may
be smaller than its bytes. -/
theorem bounds_message : messageLayout.Bounds Message.size := by
  rintro _ _ ⟨offset, first, _, hoffset, ⟨timestamp, second, _, htimestamp,
    ⟨key, third, _, hkey, ⟨value, fourth, _, hvalue, ⟨headers, fifth, _,
      hheaders, ⟨rfl, rfl⟩, rfl⟩, rfl⟩, rfl⟩, rfl⟩, rfl⟩
  have hfirst : 8 ≤ first.bytes.length :=
    bounds_fixed Int64 offset first hoffset
  have hsecond : 8 ≤ second.bytes.length :=
    bounds_fixed Int64 timestamp second htimestamp
  have hthird := bounds_blob key third hkey
  have hfourth := bounds_blob value fourth hvalue
  have hfifth := bounds_header.counted headers fifth hheaders
  have hmap := OrderedMap.sum_map_ofEntries_le headerEntrySize headers
  dsimp only at hthird hfourth hfifth
  simp only [Message.size, bytes_seq, seq_empty, length_append]
  omega

theorem bounds_batch : batchLayout.Bounds fun batch =>
    4 + batch.1.length + 4 + 4 + (batch.2.2.map Message.size).sum := by
  rintro _ _ ⟨topic, first, _, htopic, ⟨partitionId, second, _, hpartitionId,
    ⟨messages, third, _, hmessages, ⟨rfl, rfl⟩, rfl⟩, rfl⟩, rfl⟩
  have hfirst := bounds_blob topic first htopic
  have hsecond : 4 ≤ second.bytes.length :=
    bounds_fixed UInt32 partitionId second hpartitionId
  have hthird := bounds_message.counted messages third hmessages
  dsimp only at hfirst hthird
  simp only [bytes_seq, seq_empty, length_append]
  omega

/-- Some stream has a frame from which the request is decoded. -/
def ProduceRequest.Accepted (request : ProduceRequest) : Prop :=
  ∃ (crc : Bytes → UInt32) (stream rest : Bytes) (header : RequestHeader),
    decodeRequest crc stream = .returned (.ok (⟨header, .produce request⟩, rest))

/-- A reader of one kind of payload returns that kind. -/
theorem exists_build_of_decodeSelfDescribing {α β : Type} [SelfDescribing α]
    {build : α → β} {malformed : WireError → CodecError} {buf : Slice}
    {payload : β}
    (hdecode : decodeSelfDescribing (readAs build) malformed buf =
      .returned (.ok payload)) : ∃ content, payload = build content := by
  obtain ⟨⟨read, after⟩, hrun⟩ :=
    (total_readAs build).returns (newReader buf)
  obtain ⟨content, _, _, hpure⟩ := Program.bind_eq_returned.mp hrun
  cases hpure
  rw [decodeSelfDescribing_of_run hrun, Outcome.returned.injEq] at hdecode
  split at hdecode
  · cases hdecode
  · exact ⟨content, (Except.ok.inj hdecode).symm⟩

variable {request : ProduceRequest}

/-- Only a produce payload is decoded to a produce request. -/
theorem decodeBatch_of_decodeRequestPayload {buf : Slice} {code : UInt8}
    (hdecode : decodeRequestPayload buf code = .returned (.ok (.produce request))) :
    ∃ after, decodeBatch ⟨buf, 0⟩ = .returned
      ((request.topic, request.partitionId, request.messages), after) := by
  unfold decodeRequestPayload at hdecode
  cases htype : RequestType.ofCode code with
  | none =>
    rw [htype] at hdecode
    cases hdecode
  | some type =>
    rw [htype] at hdecode
    have hscan : ∀ {α : Type} {scan : Scan α} {build : α → RequestPayload},
        scanAs scan build buf = .returned (.ok (.produce request)) →
        ∃ value after, scan ⟨buf, 0⟩ = .returned (value, after) ∧
          build value = .produce request := by
      intro α scan build hrun
      obtain ⟨⟨value, after⟩, hvalue, hbuild⟩ :=
        Outcome.bind_eq_returned.mp hrun
      exact ⟨value, after, hvalue, Except.ok.inj (Outcome.returned.inj hbuild)⟩
    cases type with
    | produce =>
      obtain ⟨_, _, hvalue, hbuild⟩ := hscan hdecode
      cases hbuild
      obtain ⟨⟨topic, partitionId, messages⟩, middle, hbatch, hrest⟩ :=
        Program.bind_eq_returned.mp hvalue
      obtain ⟨⟨producerId, producerEpoch⟩, _, _, hpure⟩ :=
        Program.bind_eq_returned.mp hrest
      cases hpure
      exact ⟨middle, hbatch⟩
    | fetch | getOffset | createTopic | deleteTopic =>
      obtain ⟨_, _, _, hbuild⟩ := hscan hdecode
      cases hbuild
    | listTopics | healthCheck => cases hdecode
    | _ =>
      obtain ⟨_, hbuild⟩ := exists_build_of_decodeSelfDescribing hdecode
      cases hbuild

/-- The messages of an accepted request fit a frame. -/
theorem ProduceRequest.Accepted.size_le (haccepted : request.Accepted) :
    (request.messages.map Message.size).sum ≤ maxMessageSize := by
  obtain ⟨crc, stream, rest, header, hdecode⟩ := haccepted
  cases hread : readFrame crc stream with
  | error error =>
    simp only [decodeRequest, hread] at hdecode
    cases hdecode
  | ok result =>
    obtain ⟨body, _, hsize, rfl⟩ := eq_frame_of_readFrame hread
    by_cases hshort : body.length < 12
    · rw [decodeRequest_short crc hshort] at hdecode
      cases hdecode
    · obtain ⟨found, payload, rfl⟩ := exists_header (Nat.not_lt.mp hshort)
      rw [decodeRequest_frame crc found hsize] at hdecode
      obtain ⟨decoded, hpayload, hresult⟩ :=
        Outcome.bind_eq_returned.mp hdecode
      cases decoded with
      | error error => cases hresult
      | ok value =>
        cases hresult
        obtain ⟨after, hbatch⟩ :=
          decodeBatch_of_decodeRequestPayload hpayload
        obtain ⟨footprint, hlayout, hlies, _⟩ :=
          (scans_batch _ (Nat.zero_le _) _ _).mp hbatch
        have hbound := bounds_batch _ _ hlayout
        have hwithin := hlies.starts.length_le
        have hwidth : FixedWidth.width UInt32 = 4 := rfl
        simp only [Cursor.unread, Slice.whole, drop_zero,
          length_append, encodeFixed_length] at hwithin
        rw [length_append] at hsize
        dsimp only at hbound
        omega

end Protocol

def Protocol.Message.widen (message : Protocol.Message) : ProtocolMessage :=
  ⟨message.offset.toInt, message.key, message.value, message.headers,
    message.timestamp.toInt⟩

def ProtocolMessage.narrow (message : ProtocolMessage) : Protocol.Message :=
  ⟨Int64.ofInt message.offset, message.key, message.value, message.headers,
    Int64.ofInt message.timestamp⟩

def Protocol.ProduceRequest.widen (request : Protocol.ProduceRequest) :
    Streambus.ProduceRequest :=
  ⟨request.messages.map Protocol.Message.widen, request.producerId,
    request.producerEpoch⟩

/-- Every other level than read-committed reads uncommitted records. -/
def isolationOf (level : Int8) : IsolationLevel :=
  if level = 1 then .readCommitted else .readUncommitted

def Protocol.FetchRequest.widen (request : Protocol.FetchRequest) :
    Streambus.FetchRequest :=
  ⟨request.offset.toInt, request.maxBytes.toNat, isolationOf request.isolationLevel⟩

/-- The response to a fetch request. -/
def FetchResponse.narrow (page : FetchResponse)
    (request : Protocol.FetchRequest) : Protocol.FetchResponse :=
  ⟨request.topic, request.partitionId, Int64.ofInt page.highWaterMark,
    page.messages.map ProtocolMessage.narrow,
    Int64.ofInt page.lastStableOffset, Int64.ofInt page.nextOffset⟩

structure ServedPartition where
  log : Log
  disk : Disk
  openTxns : OrderedMap ProducerKey Int
  abortedTxns : List AbortedRange

namespace ServedPartition

/-- A partition on an empty directory. -/
def start (config : LogConfig) : ServedPartition :=
  ⟨(LogRun.start config).log, (LogRun.start config).disk, ∅, []⟩

variable (server : ServedPartition)

def beginTransaction (key : ProducerKey) (firstOffset : Int) :
    ServedPartition :=
  if key.producerId = 0 then server
  else
    match server.openTxns.find? key with
    | some _ => server
    | none =>
      { server with openTxns := server.openTxns.insert key firstOffset }

def pruneAborted : ServedPartition :=
  { server with
    abortedTxns := server.abortedTxns.filter fun range =>
      server.log.logStartOffset < range.stop }

def stableOffset : Int :=
  server.openTxns.entries.foldl
    (fun stable entry => if entry.2 < stable then entry.2 else stable)
    server.log.highWaterMark

def handleProduce (request : ProduceRequest) :
    ServedPartition × Except RequestFailure ProduceResponse :=
  match server.log.append server.disk request.batch [] with
  | (log, disk, .error error) =>
    ({ server with log := log, disk := disk }, .error (.storage error))
  | (log, disk, .ok []) =>
    ({ server with log := log, disk := disk }, .error .crash)
  | (log, disk, .ok (baseOffset :: _)) =>
    let server := { server with log := log, disk := disk }
    (server.beginTransaction request.producer baseOffset,
      .ok ⟨baseOffset, request.messages.length, server.log.highWaterMark⟩)

def handleFetch (request : FetchRequest) :
    ServedPartition × Except RequestFailure FetchResponse :=
  match server.log.read server.disk request.offset request.maxBytes with
  | (log, .error error) =>
    ({ server with log := log }, .error (.storage error))
  | (log, .ok messages) =>
    let server := { server with log := log }
    let highWaterMark := server.log.highWaterMark
    let lastStableOffset := server.stableOffset
    let server := server.pruneAborted
    let (server, readLimit, aborted) :=
      match request.isolation with
      | .readUncommitted => (server, highWaterMark, [])
      | .readCommitted =>
        (server.pruneAborted, lastStableOffset, server.pruneAborted.abortedTxns)
    let (messages, nextOffset) :=
      visibleMessages readLimit aborted messages request.offset
    (server, .ok ⟨highWaterMark, lastStableOffset, messages, nextOffset⟩)

end ServedPartition

theorem putHeaders_length (entries : List (Bytes × Bytes)) :
    (putHeaders entries).length = (entries.map Protocol.headerEntrySize).sum := by
  induction entries with
  | nil => rfl
  | cons entry rest ih =>
    simp only [putHeaders, flatMap_cons, length_append, putField_length,
      map_cons, sum_cons, Protocol.headerEntrySize] at ih ⊢
    omega

/-- The bytes of a message on the wire. -/
def Message.wireSize (message : Message) : Nat :=
  8 + 4 + message.key.length + 4 + message.value.length + 8 + 4 +
    (message.headers.entries.map Protocol.headerEntrySize).sum

theorem serializeMessageV3_length (message : Message) :
    (serializeMessageV3 message).length = message.wireSize + 7 := by
  simp only [serializeMessageV3, recordStart, writeRecordBody,
    length_append, putField_length, putHeaders_length, putRecordLen,
    putInt_length, beBytes_length, length_singleton, Message.wireSize]
  omega

theorem Protocol.Message.wireSize_stamp (message : Protocol.Message)
    (batch : MessageBatch) (offset : Int) :
    (batch.stamp offset message.widen.toStorage).wireSize = message.size :=
  rfl

/-- Whatever fits a frame fits the record format. -/
theorem Protocol.Message.storable_stamp {message : Protocol.Message}
    (hsize : message.size ≤ Protocol.maxMessageSize) {batch : MessageBatch}
    (hid : -2 ^ 63 ≤ batch.producerId ∧ batch.producerId < 2 ^ 63)
    (hepoch : -2 ^ 15 ≤ batch.producerEpoch ∧ batch.producerEpoch < 2 ^ 15)
    (offset : Int) :
    (batch.stamp offset message.widen.toStorage).Storable := by
  have hlength := serializeMessageV3_length
    (batch.stamp offset message.widen.toStorage)
  rw [message.wireSize_stamp] at hlength
  have hfield : maxRecordFieldLen = Protocol.maxMessageSize := rfl
  have hentry : ∀ entry ∈ message.headers.entries, Protocol.headerEntrySize entry ≤
        (message.headers.entries.map Protocol.headerEntrySize).sum :=
    fun entry hentry => le_sum_of_mem (mem_map_of_mem hentry)
  have hcount : message.headers.entries.length ≤
      (message.headers.entries.map Protocol.headerEntrySize).sum :=
    Protocol.length_le_sum_map fun entry _ => by
      unfold Protocol.headerEntrySize
      omega
  unfold Protocol.Message.size at hsize
  refine ⟨⟨?_, ?_, ?_, ?_, ?_, hid, hepoch⟩, ?_⟩
  · change message.key.length ≤ _
    omega
  · change message.value.length ≤ _
    omega
  · change message.headers.entries.length ≤ _
    omega
  · intro entry hmem
    have hle := hentry entry hmem
    have hparts : Protocol.headerEntrySize entry =
        4 + entry.1.length + 4 + entry.2.length := rfl
    constructor
    · omega
    · omega
  · change Option.any _ (some message.timestamp.toInt) = true
    have hlow := message.timestamp.le_toInt
    have hhigh := message.timestamp.toInt_lt
    simp only [Option.any_some, decide_eq_true_eq]
    omega
  · rw [hlength]
    unfold Protocol.Message.size Protocol.maxMessageSize at *
    omega

/-- A batch as the record format keeps it: version 2 has no producer epoch. -/
def MessageBatch.kept (batch : MessageBatch) (version : MessageFormatVersion) :
    MessageBatch :=
  if version = .v2 then { batch with producerEpoch := 0 } else batch

theorem MessageBatch.kept_messages (batch : MessageBatch)
    (version : MessageFormatVersion) :
    (batch.kept version).messages = batch.messages := by
  unfold kept
  split <;> rfl

theorem MessageBatch.kept_producerId (batch : MessageBatch)
    (version : MessageFormatVersion) :
    (batch.kept version).producerId = batch.producerId := by
  unfold kept
  split <;> rfl

variable (request : ProduceRequest)

/-- A request of which the log keeps the whole identity. -/
def ProduceRequest.kept (version : MessageFormatVersion) : ProduceRequest :=
  if version = .v2 then { request with producerEpoch := 0 } else request

theorem ProduceRequest.batch_kept (version : MessageFormatVersion) :
    (request.kept version).batch = request.batch.kept version := by
  unfold ProduceRequest.kept MessageBatch.kept
  split <;> rfl

theorem ProduceRequest.kept_messages (version : MessageFormatVersion) :
    (request.kept version).messages = request.messages := by
  unfold kept
  split <;> rfl

theorem MessageBatch.serializeMessage_kept (batch : MessageBatch)
    (version : MessageFormatVersion) (offset : Int) (message : Message) :
    serializeMessage version ((batch.kept version).stamp offset message) =
      serializeMessage version (batch.stamp offset message) := by
  cases version with
  | unset | v2 | v3 => rfl

namespace Log

theorem writeMessages_kept (batch : MessageBatch) (log : Log) (disk : Disk)
    (offset : Int) (messages : List Message) (faults : List AppendFaults) :
    log.writeMessages (batch.kept log.config.messageFormatVersion) disk offset
        messages faults =
      log.writeMessages batch disk offset messages faults := by
  induction messages generalizing log disk offset faults with
  | nil => rfl
  | cons message rest ih =>
    simp only [writeMessages, serializeMessage_kept]
    split
    · rfl
    next wal after _ _ => rw [← ih]

/-- What the format does not keep makes no difference to the log. -/
theorem append_kept (log : Log) (disk : Disk) (batch : MessageBatch)
    (faults : List AppendFaults) :
    log.append disk (batch.kept log.config.messageFormatVersion) faults =
      log.append disk batch faults := by
  simp only [append, kept_producerId, kept_messages, writeMessages_kept]

end Log

/-- The messages of an accepted request come back from storage as they are
kept. -/
theorem Protocol.ProduceRequest.Accepted.keepsBatch
    {request : Protocol.ProduceRequest} (haccepted : request.Accepted)
    {run : LogRun} (haccepts : run.log.Accepts request.widen.batch) :
    run.KeepsBatch (request.widen.batch.kept
      run.log.config.messageFormatVersion) := by
  intro message hmem
  obtain ⟨position, original, horiginal, rfl⟩ :=
    exists_of_mem_stampFrom hmem
  rw [kept_messages] at horiginal
  obtain ⟨_, hwidened, rfl⟩ := mem_map.mp horiginal
  obtain ⟨wire, hwire, rfl⟩ := mem_map.mp hwidened
  have hsize : wire.size ≤ Protocol.maxMessageSize :=
    (le_sum_of_mem (mem_map_of_mem hwire)).trans haccepted.size_le
  have hid := request.producerId.le_toInt
  have hidlt := request.producerId.toInt_lt
  have hepoch := request.producerEpoch.le_toInt
  have hepochlt := request.producerEpoch.toInt_lt
  refine ⟨Protocol.Message.storable_stamp hsize ?_ ?_ position, ?_⟩
  · rw [kept_producerId]
    exact ⟨hid, hidlt⟩
  · unfold MessageBatch.kept
    split
    · change -2 ^ 15 ≤ (0 : Int) ∧ (0 : Int) < 2 ^ 15
      decide
    · exact ⟨hepoch, hepochlt⟩
  · intro hversion
    refine ⟨?_, ?_⟩
    · change (MessageBatch.kept _ _).producerId = 0
      rw [kept_producerId]
      exact haccepts hversion
    · change (MessageBatch.kept _ _).producerEpoch = 0
      rw [MessageBatch.kept, if_pos hversion]

namespace ServedPartition

/-- The partition on a list of messages in place of the log. -/
def onList (server : ServedPartition) (records : List Message) : Partition :=
  ⟨⟨server.log.logStartOffset, records⟩, server.openTxns, server.abortedTxns⟩

/-- The log has been open since its directory was empty and reads as the
list. -/
def Shows (server : ServedPartition) (records : List Message) : Prop :=
  (LogRun.mk server.log server.disk records).Serving

variable {server : ServedPartition} {records : List Message}

theorem start_shows (config : LogConfig) : (start config).Shows [] :=
  LogRun.start_serving config

theorem Shows.highWaterMark (hshows : server.Shows records) :
    server.log.highWaterMark = records.length :=
  hshows.readsInPlace.hwm_eq

theorem Shows.read (hshows : server.Shows records) (offset maxBytes : Int) :
    ∃ log, server.log.read server.disk offset maxBytes = (log,
        (server.onList records).log.read offset maxBytes) ∧
      ({ server with log := log } : ServedPartition).Shows records ∧
      log.logStartOffset = server.log.logStartOffset ∧
      log.highWaterMark = server.log.highWaterMark := by
  have hread := hshows.toReadable.read_eq offset maxBytes
  have hstep : (LogRun.step ⟨server.log, server.disk, records⟩
      (.read offset maxBytes)).Serving := hshows.step trivial trivial
  obtain ⟨wal, hmoved, _⟩ := server.log.read_moved server.disk offset maxBytes
  refine ⟨(server.log.read server.disk offset maxBytes).1, ?_, hstep, ?_, ?_⟩
  · exact Prod.ext rfl hread
  · rw [hmoved]
  · rw [hmoved]

/-- A fetch from the log is a fetch from the list. -/
theorem Shows.handleFetch (hshows : server.Shows records) (request : FetchRequest) :
    (server.handleFetch request).1.Shows records ∧
      ((server.handleFetch request).1.onList records,
        (server.handleFetch request).2) =
          (server.onList records).handleFetch request := by
  obtain ⟨log, hread, hafter, hstart, hmark⟩ :=
    hshows.read request.offset request.maxBytes
  have hstable : ({ server with log := log } : ServedPartition).stableOffset =
      (server.onList records).stableOffset := by
    unfold stableOffset Partition.stableOffset
    rw [hmark, hshows.highWaterMark]
    rfl
  unfold ServedPartition.handleFetch Partition.handleFetch
  rw [hread]
  cases (server.onList records).log.read request.offset request.maxBytes with
  | error error =>
    refine ⟨hafter, ?_⟩
    simp only [onList, hstart]
  | ok messages =>
    cases request.isolation with
    | readUncommitted | readCommitted =>
      refine ⟨hafter, ?_⟩
      simp only [onList, pruneAborted, hstart, hmark, hstable, hshows.highWaterMark]
      rfl

/-- The offsets of a batch do not run out, and the table that is dropped after
it was written has no record left in the write buffer. -/
structure Sustains (server : ServedPartition) (request : ProduceRequest) : Prop where
  below : server.log.nextOffset + request.messages.length < 2 ^ 63
  spares : (LogRun.mk server.log server.disk []).SparesBuffered request.batch []

variable {request : Protocol.ProduceRequest}

/-- A batch that the log keeps is appended to the list. -/
theorem Shows.append (hshows : server.Shows records) (haccepted : request.Accepted)
    (haccepts : server.log.Accepts request.widen.batch)
    (hsustains : server.Sustains request.widen) :
    ∃ log disk, server.log.append server.disk request.widen.batch [] = (log, disk,
        .ok (((server.onList records).log.append (request.widen.batch.kept
          server.log.config.messageFormatVersion)).2)) ∧
      ({ server with log := log, disk := disk } : ServedPartition).Shows
        ((server.onList records).log.append (request.widen.batch.kept
          server.log.config.messageFormatVersion)).1.records ∧
      log.logStartOffset = server.log.logStartOffset := by
  have hkept : (LogRun.mk server.log server.disk records).KeepsBatch
      (request.widen.batch.kept server.log.config.messageFormatVersion) :=
    haccepted.keepsBatch haccepts
  have hkeptAccepts : server.log.Accepts (request.widen.batch.kept
      server.log.config.messageFormatVersion) := by
    intro hversion
    rw [kept_producerId]
    exact haccepts hversion
  have hbelow : server.log.nextOffset + (request.widen.batch.kept
      server.log.config.messageFormatVersion).messages.length < 2 ^ 63 := by
    rw [kept_messages]
    simpa [ProduceRequest.batch] using hsustains.below
  have hspares : LogRun.SparesBuffered ⟨server.log, server.disk, records⟩
      (request.widen.batch.kept server.log.config.messageFormatVersion) [] := by
    simpa only [LogRun.SparesBuffered, kept_messages,
      Log.writeMessages_kept] using hsustains.spares
  have hnext : server.log.nextOffset = records.length := by
    have hsound := hshows.sound.log.next_eq
    rwa [LogRun.records_length] at hsound
  obtain ⟨_, next, after, _, happend, hgrows, _⟩ :=
    hshows.sound.log.append hkeptAccepts ⟨Or.inl (Or.inl hshows.appendMode),
      hkept.short, hbelow⟩
  have hstep : (LogRun.step ⟨server.log, server.disk, records⟩
      (.append (request.widen.batch.kept
        server.log.config.messageFormatVersion) [])).Serving :=
    hshows.step rfl fun _ => ⟨hkept, hbelow, hspares⟩
  simp only [LogRun.step, happend, zipWith_stamp, hnext] at hstep
  refine ⟨next, after, ?_, hstep, hgrows.start_eq⟩
  rw [← Log.append_kept, happend, hnext]
  rfl

theorem beginTransaction_log (server : ServedPartition) (key : ProducerKey)
    (firstOffset : Int) :
    (server.beginTransaction key firstOffset).log = server.log ∧
      (server.beginTransaction key firstOffset).disk = server.disk := by
  unfold beginTransaction
  split
  · exact ⟨rfl, rfl⟩
  · split
    · exact ⟨rfl, rfl⟩
    · exact ⟨rfl, rfl⟩

theorem onList_beginTransaction (server : ServedPartition)
    (records : List Message) (key : ProducerKey) (firstOffset : Int) :
    (server.beginTransaction key firstOffset).onList records =
      (server.onList records).beginTransaction key firstOffset := by
  unfold beginTransaction Partition.beginTransaction
  split
  · rfl
  · change _ = match server.openTxns.find? key with
      | some _ | none => _
    split <;> rfl

/-- An epoch that the log does not keep belongs to no transaction. -/
theorem beginTransaction_kept (partition : Partition)
    {request : ProduceRequest} {version : MessageFormatVersion}
    (hversion : version = .v2 → request.batch.producerId = 0)
    (firstOffset : Int) :
    partition.beginTransaction (request.kept version).producer firstOffset =
      partition.beginTransaction request.producer firstOffset := by
  unfold ProduceRequest.kept
  split
  next hv2 =>
    have hzero : request.producerId.toInt = 0 := hversion hv2
    simp only [Partition.beginTransaction, ProduceRequest.producer, hzero, ↓reduceIte]
  · rfl

/-- A batch that the log keeps is produced on the list. -/
theorem Shows.handleProduce (hshows : server.Shows records)
    (haccepted : request.Accepted)
    (haccepts : server.log.Accepts request.widen.batch)
    (hsustains : server.Sustains request.widen) :
    ∃ after : List Message, (server.handleProduce request.widen).1.Shows after ∧
      ((server.handleProduce request.widen).1.onList after,
        (server.handleProduce request.widen).2) =
          (server.onList records).handleProduce (request.widen.kept
            server.log.config.messageFormatVersion) false := by
  obtain ⟨log, disk, happend, hafter, hstart⟩ :=
    hshows.append haccepted haccepts hsustains
  have hmark := hafter.highWaterMark
  have hgrown : ((server.onList records).log.append (request.widen.batch.kept
      server.log.config.messageFormatVersion)).1.startOffset =
        log.logStartOffset := hstart.symm
  unfold ServedPartition.handleProduce Partition.handleProduce
  simp only [Partition.appendBatch, Bool.false_eq_true, ↓reduceIte,
    ProduceRequest.batch_kept, happend]
  generalize (server.onList records).log.append (request.widen.batch.kept
    server.log.config.messageFormatVersion) = grown at hafter hmark hgrown ⊢
  obtain ⟨grown, offsets⟩ := grown
  have honList : ({ server with log := log, disk := disk } :
      ServedPartition).onList grown.records =
        { server.onList records with log := grown } := by
    simp only [onList, ← hgrown]
  refine ⟨grown.records, ?_⟩
  cases offsets with
  | nil => exact ⟨hafter, by rw [← honList]⟩
  | cons baseOffset rest =>
    obtain ⟨hlog, hdisk⟩ := beginTransaction_log
      { server with log := log, disk := disk } request.widen.producer
      baseOffset
    refine ⟨?_, ?_⟩
    · unfold Shows
      rw [hlog, hdisk]
      exact hafter
    · dsimp only
      rw [onList_beginTransaction, honList, beginTransaction_kept _
        haccepts, ProduceRequest.kept_messages, hmark]
      rfl

end ServedPartition

end Streambus
