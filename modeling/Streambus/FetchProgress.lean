/-
Whether what was produced can be fetched.  A fetch reads records until their
keys and values reach the requested size, and takes one record even if it is
larger; the response also counts headers and fixed fields, and must not exceed
the size of a frame.  A consumer gets on exactly while its pages fit.
-/
import Streambus.ResponseRoundTrip
import Streambus.ServedPartition

namespace Streambus

open List ServedPartition

/-- The bytes of the response header, the fixed fields and the checksum. -/
def fetchOverhead : Nat := 47

namespace Protocol

variable {header : ResponseHeader} (crc : Bytes → UInt32)

theorem encodeResponse_fetch_eq (order : HeaderOrder)
    (hstatus : header.status = statusOk) (page : FetchResponse) :
    ∃ body, encodeResponse crc order ⟨header, .fetch page⟩ =
      .returned (if maxMessageSize < page.payloadSize then
          .error (.payloadOutOfRange page.payloadSize)
        else if maxMessageSize < responseHeaderSize + page.payloadSize then
          .error (.messageTooLarge (responseHeaderSize + page.payloadSize))
        else .ok (frame crc body)) := by
  have hcalculate : calculateResponsePayloadSize ⟨header, .fetch page⟩ =
      .returned (checkedPayloadSize page.payloadSize) := by
    simp only [calculateResponsePayloadSize, hstatus, ne_eq,
      not_true_eq_false, ↓reduceIte]
    rfl
  have hwriter : encodeResponsePayload order ⟨header, .fetch page⟩ =
      succeed (page.encode order) := by
    simp only [encodeResponsePayload, hstatus, ne_eq, not_true_eq_false, ↓reduceIte]
    rfl
  simp only [encodeResponse, hcalculate, hwriter]
  by_cases hrange : maxMessageSize < page.payloadSize
  · refine ⟨[], ?_⟩
    simp only [checkedPayloadSize, hrange, ↓reduceIte]
    rfl
  · obtain ⟨written, hlength, hfills, _⟩ :=
      carries_fetchResponse order page (Nat.not_lt.mp hrange)
    have htotal : responseHeaderSize + page.payloadSize =
        4 + (header.bytes ++ written).length + 4 := by
      rw [length_append, ResponseHeader.bytes_length, responseHeaderSize]
      omega
    refine ⟨header.bytes ++ written, ?_⟩
    simp only [checkedPayloadSize, hrange, ↓reduceIte]
    exact encodeFrame_eq crc ((writes_responseHeader header).fills.bind hfills) htotal

/-- A fetch response is encoded exactly if it fits a frame. -/
theorem encodeResponse_fetch_iff (order : HeaderOrder)
    (hstatus : header.status = statusOk) (page : FetchResponse) :
    (∃ bytes, encodeResponse crc order ⟨header, .fetch page⟩ =
        .returned (.ok bytes)) ↔
      fetchOverhead + (page.messages.map Message.size).sum ≤
        maxMessageSize := by
  have hsize : responseHeaderSize + page.payloadSize =
      fetchOverhead + (page.messages.map Message.size).sum := by
    rw [responseHeaderSize, FetchResponse.payloadSize, fetchOverhead]
    omega
  obtain ⟨body, hencode⟩ := encodeResponse_fetch_eq crc order hstatus page
  rw [hencode]
  constructor
  · rintro ⟨bytes, hok⟩
    split at hok
    · cases hok
    · split at hok
      · cases hok
      · omega
  · intro hfits
    rw [if_neg (by omega), if_neg (by omega)]
    exact ⟨_, rfl⟩

end Protocol

section

variable {readLimit nextOffset : Int} {hidden : List AbortedRange}
  {page : List Message} {message : Message}

theorem visibleMessages_cons_next (hbelow : message.offset < readLimit) :
    (visibleMessages readLimit hidden (message :: page) nextOffset).2 =
      (visibleMessages readLimit hidden page (message.offset + 1)).2 := by
  simp only [visibleMessages, not_le.mpr hbelow, ↓reduceIte]
  split
  · rfl
  · split <;> rfl

theorem visibleMessages_of_limit_le (hlimit : readLimit ≤ message.offset) :
    visibleMessages readLimit hidden (message :: page) nextOffset =
      ([], nextOffset) := by
  simp only [visibleMessages, hlimit, ↓reduceIte]

/-- A fetch goes on where it began or behind a record that it read. -/
theorem visibleMessages_next_cases :
    (visibleMessages readLimit hidden page nextOffset).2 = nextOffset ∨
      ∃ message ∈ page, (visibleMessages readLimit hidden page
        nextOffset).2 = message.offset + 1 := by
  induction page generalizing nextOffset with
  | nil => exact Or.inl rfl
  | cons message rest ih =>
    by_cases hlimit : readLimit ≤ message.offset
    · rw [visibleMessages_of_limit_le hlimit]
      exact Or.inl rfl
    · rw [visibleMessages_cons_next (not_le.mp hlimit)]
      right
      rcases ih with hhere | ⟨later, hlater, hnext⟩
      · exact ⟨message, mem_cons_self, hhere⟩
      · exact ⟨later, mem_cons_of_mem message hlater, hnext⟩

end

inductive ServedRequest where
  | produce (request : Protocol.ProduceRequest)
  | fetch (request : Protocol.FetchRequest)

namespace ServedPartition

variable (server : ServedPartition)

def step : ServedRequest → ServedPartition
  | .produce request => (server.handleProduce request.widen).1
  | .fetch request => (server.handleFetch request.widen).1

/-- A produce request was decoded and is acknowledged, and the log keeps its
batch. -/
def Served : ServedRequest → Prop
  | .produce request => request.Accepted ∧
      (∃ response, (server.handleProduce request.widen).2 = .ok response) ∧
      server.Sustains request.widen
  | .fetch _ => True

/-- The records that the log returns for a fetch. -/
def page (request : FetchRequest) : List Message :=
  (server.log.read server.disk request.offset request.maxBytes).2.toOption.getD []

/-- Where a fetch of an isolation level stops. -/
def readLimit : IsolationLevel → Int
  | .readUncommitted => server.log.highWaterMark
  | .readCommitted => server.stableOffset

/-- The aborted ranges that a fetch of an isolation level hides. -/
def hiddenRanges : IsolationLevel → List AbortedRange
  | .readUncommitted => []
  | .readCommitted => server.pruneAborted.abortedTxns

/-- The messages of a page that a fetch shows, and where it goes on. -/
def visibleOf (request : FetchRequest) (page : List Message) :
    List ProtocolMessage × Int :=
  visibleMessages (server.readLimit request.isolation)
    (server.hiddenRanges request.isolation) page request.offset

def visiblePage (request : FetchRequest) : List ProtocolMessage × Int :=
  server.visibleOf request (server.page request)

/-- The records with those of an acknowledged batch. -/
def record (records : List Message) : ServedRequest → List Message
  | .produce request => ((server.onList records).log.append
      (request.widen.kept server.log.config.messageFormatVersion).batch).1.records
  | .fetch _ => records

/-- What was acknowledged in a run of requests. -/
def acknowledged (server : ServedPartition) (records : List Message) :
    List ServedRequest → List Message
  | [] => records
  | request :: requests =>
    (server.step request).acknowledged (server.record records request) requests

/-- Of the acknowledged records, those that a fetch takes and shows fit a
response. -/
def PageFits (records : List Message) (request : Protocol.FetchRequest) :
    Prop :=
  let page := takeBudget (some request.widen.maxBytes)
    (records.drop request.widen.offset.toNat)
  fetchOverhead + ((server.visibleOf request.widen page).1.map fun message =>
    message.narrow.size).sum ≤ Protocol.maxMessageSize

/-- The fetch asks for some bytes from an offset that the log has. -/
structure InRange (server : ServedPartition)
    (request : Protocol.FetchRequest) : Prop where
  lower : server.log.logStartOffset ≤ request.offset.toInt
  upper : request.offset.toInt < server.log.highWaterMark
  bytes : 0 < request.maxBytes.toNat

/-- The response to a fetch. -/
def fetchReply (requestId : UInt64) (request : Protocol.FetchRequest)
    (page : FetchResponse) : Protocol.Response :=
  ⟨⟨requestId, Protocol.statusOk, 0⟩, .fetch (page.narrow request)⟩

/-- The response to the fetch can be sent. -/
def Sends (crc : Bytes → UInt32) (order : Protocol.HeaderOrder)
    (requestId : UInt64) (request : Protocol.FetchRequest) : Prop :=
  ∃ page bytes, (server.handleFetch request.widen).2 = .ok page ∧
    Protocol.encodeResponse crc order (fetchReply requestId request page) =
      .returned (.ok bytes)

/-- The response to the fetch carries a record or moves on. -/
def Advances (request : Protocol.FetchRequest) :
    Prop :=
  ∃ page, (server.handleFetch request.widen).2 = .ok page ∧
    ((page.narrow request).messages ≠ [] ∨
      request.offset < (page.narrow request).nextOffset)

/-- Where a consumer goes on after a response.  An older server sends no next
offset. -/
def nextPosition (position : Int64) (page : Protocol.FetchResponse) : Int64 :=
  if 0 ≤ page.nextOffset then page.nextOffset
  else
    match page.messages.getLast? with
    | some message => message.offset + 1
    | none => position

/-- One fetch of a consumer: the broker encodes its response, and the consumer
decodes it and moves on. -/
def poll (crc : Bytes → UInt32) (order : Protocol.HeaderOrder)
    (requestId : UInt64) (server : ServedPartition)
    (request : Protocol.FetchRequest) : ServedPartition × Option Int64 :=
  match server.handleFetch request.widen with
  | (server, .error _) => (server, none)
  | (server, .ok page) =>
    (server,
      match Protocol.encodeResponse crc order (fetchReply requestId request page) with
      | .returned (.ok bytes) =>
        match Protocol.receiveResponse crc bytes Protocol.RequestType.fetch.code with
        | .returned (.ok (⟨_, .fetch page⟩, _)) =>
          some (nextPosition request.offset page)
        | _ => none
      | _ => none)

/-- A number of fetches, each from where the last one left off. -/
def polls (crc : Bytes → UInt32) (order : Protocol.HeaderOrder)
    (requestId : UInt64) : Nat → ServedPartition → Protocol.FetchRequest →
      Option (ServedPartition × Protocol.FetchRequest)
  | 0, server, request => some (server, request)
  | count + 1, server, request =>
    match poll crc order requestId server request with
    | (server, some position) =>
      polls crc order requestId count server { request with offset := position }
    | (_, none) => none

end ServedPartition

section

variable {records page : List Message} {offset : Nat}

/-- The records of a page carry consecutive offsets. -/
theorem InOrder.offset_of_prefix (hinOrder : InOrder records)
    (hpage : page <+: records.drop offset) {index : Nat} {message : Message}
    (hmessage : page[index]? = some message) :
    message.offset = offset + index ∧ offset + index < records.length := by
  obtain ⟨rest, hrest⟩ := hpage
  have hindex : index < page.length :=
    (List.getElem?_eq_some_iff.mp hmessage).1
  have hrecord : records[offset + index]? = some message := by
    rw [← getElem?_drop, ← hrest, getElem?_append_left hindex, hmessage]
  have hbelow := (List.getElem?_eq_some_iff.mp hrecord).1
  have hoffset := hinOrder _ _ hrecord
  exact ⟨hoffset, hbelow⟩

/-- A read with some budget returns a record if there is one. -/
theorem takeBudget_ne_nil {messages : List Message} (hmessages : messages ≠ [])
    {maxBytes : Int} (hbytes : 0 < maxBytes) :
    takeBudget (some maxBytes) messages ≠ [] := by
  cases messages with
  | nil => exact absurd rfl hmessages
  | cons message rest =>
    simp [takeBudget, not_le.mpr hbytes]

end

namespace ServedPartition

variable {server : ServedPartition} {records : List Message}

/-- The log reads as a list of messages from offset zero on. -/
structure Holds (server : ServedPartition) (records : List Message) : Prop where
  shows : server.Shows records
  start_eq : server.log.logStartOffset = 0
  below : (records.length : Int) < 2 ^ 63

variable (config : LogConfig)

theorem start_holds : (start config).Holds [] :=
  ⟨start_shows config, rfl, by decide⟩

section

variable (hholds : server.Holds records)

include hholds

theorem Holds.inOrder : InOrder records :=
  hholds.shows.readsInPlace.inOrder

theorem Holds.page_eq (request : FetchRequest) (hoffset : 0 ≤ request.offset) :
    server.page request = takeBudget (some request.maxBytes)
      (records.drop request.offset.toNat) := by
  obtain ⟨log, hread, _⟩ := hholds.shows.read request.offset request.maxBytes
  have hstart : (server.onList records).log.startOffset = 0 :=
    hholds.start_eq
  simp only [page, hread, PartitionLog.read, hstart, not_lt.mpr hoffset, ↓reduceIte]
  rfl

theorem Holds.fetch (request : FetchRequest) :
    (server.handleFetch request).1.Holds records := by
  obtain ⟨hshows, honList⟩ := hholds.shows.handleFetch request
  have hlog := congrArg (fun result => result.1.log.startOffset) honList
  rw [Partition.log_handleFetch] at hlog
  exact ⟨hshows, hlog.trans hholds.start_eq, hholds.below⟩

theorem Holds.accepts {request : ProduceRequest} {response : ProduceResponse}
    (hok : (server.handleProduce request).2 = .ok response) :
    server.log.Accepts request.batch := by
  have hopened : server.log.closed = false := hholds.shows.sound.log.opened
  by_contra hrefused
  obtain ⟨hversion, hproducer⟩ := Classical.not_imp.mp hrefused
  have happend : server.log.append server.disk request.batch [] =
      (server.log, server.disk, .error .transactionalRecordNeedsV3) := by
    simp [Log.append, hopened, hversion, hproducer]
  simp only [handleProduce, happend] at hok
  cases hok

theorem Holds.produce {request : Protocol.ProduceRequest}
    (hserved : server.Served (.produce request)) :
    (server.handleProduce request.widen).1.Holds
      (server.record records (.produce request)) := by
  obtain ⟨haccepted, ⟨response, hok⟩, hsustains⟩ := hserved
  have haccepts := hholds.accepts hok
  obtain ⟨after, hshows, honList⟩ :=
    hholds.shows.handleProduce haccepted haccepts hsustains
  have hlog := congrArg (fun result => result.1.log) honList
  rw [Partition.log_handleProduce] at hlog
  obtain rfl : after = server.record records (.produce request) :=
    congrArg PartitionLog.records hlog
  have hnext : server.log.nextOffset = records.length := by
    have hsound := hholds.shows.sound.log.next_eq
    rwa [LogRun.records_length] at hsound
  have hlength : ((server.record records (.produce request)).length : Int) =
      records.length + request.widen.messages.length := by
    have hmark := PartitionLog.highWaterMark_append
      (server.onList records).log (request.widen.kept
        server.log.config.messageFormatVersion).batch
    rw [← hlog, ProduceRequest.batch_kept, MessageBatch.kept_messages] at hmark
    simpa [PartitionLog.highWaterMark, onList, ProduceRequest.batch] using hmark
  refine ⟨hshows, ?_, ?_⟩
  · exact (congrArg PartitionLog.startOffset hlog).trans hholds.start_eq
  · have hbelow := hsustains.below
    omega

end

/-- The log reads as what was acknowledged. -/
theorem Holds.runSteps {requests : List ServedRequest} (hholds : server.Holds records)
    (hserved : AllAllowed step Served server requests) :
    (Streambus.runSteps step server requests).Holds
      (server.acknowledged records requests) := by
  induction requests generalizing server records with
  | nil => exact hholds
  | cons request requests ih =>
    refine ih ?_ hserved.2
    cases request with
    | produce request => exact hholds.produce hserved.1
    | fetch request => exact hholds.fetch request.widen

theorem Holds.handleFetch_eq (hholds : server.Holds records)
    (request : FetchRequest) (hoffset : 0 ≤ request.offset) :
    (server.handleFetch request).2 = .ok ⟨server.log.highWaterMark,
      server.stableOffset, (server.visiblePage request).1,
      (server.visiblePage request).2⟩ := by
  obtain ⟨log, hread, _, hstart, hmark⟩ :=
    hholds.shows.read request.offset request.maxBytes
  have hlist : (server.onList records).log.read request.offset
      request.maxBytes = .ok (server.page request) := by
    have hzero : (server.onList records).log.startOffset = 0 :=
      hholds.start_eq
    rw [hholds.page_eq request hoffset, PartitionLog.read, hzero,
      if_neg (not_lt.mpr hoffset)]
    rfl
  have hstable : ({ server with log := log } : ServedPartition).stableOffset =
      server.stableOffset := by
    unfold stableOffset
    rw [hmark]
  rw [hlist] at hread
  unfold handleFetch visiblePage visibleOf
  rw [hread]
  cases request.isolation with
  | readUncommitted =>
    simp only [readLimit, hiddenRanges, hmark, hstable]
  | readCommitted =>
    have hpruned : ({ server with log := log } :
        ServedPartition).pruneAborted.pruneAborted.abortedTxns =
          server.pruneAborted.abortedTxns := by
      simp only [pruneAborted, hstart, filter_filter, Bool.and_self]
    simp only [readLimit, hiddenRanges, hmark, hstable, hpruned]

variable {request : Protocol.FetchRequest}

section

variable (hholds : server.Holds records)

include hholds

section

variable (hrange : server.InRange request)

include hrange

theorem Holds.offset_nonneg : 0 ≤ request.offset.toInt := by
  rw [← hholds.start_eq]
  exact hrange.lower

/-- The response can be sent exactly if its messages fit. -/
theorem Holds.sends_iff (crc : Bytes → UInt32) (order : Protocol.HeaderOrder)
    (requestId : UInt64) :
    server.Sends crc order requestId request ↔ server.PageFits records request := by
  have hfetch := hholds.handleFetch_eq request.widen (hholds.offset_nonneg hrange)
  have hstatus : (Protocol.ResponseHeader.mk requestId Protocol.statusOk
      0).status = Protocol.statusOk := rfl
  have hencode := fun page => Protocol.encodeResponse_fetch_iff crc order
    hstatus (FetchResponse.narrow page request)
  simp only [FetchResponse.narrow, map_map] at hencode
  unfold Sends PageFits
  rw [hfetch, ← hholds.page_eq request.widen (hholds.offset_nonneg hrange)]
  constructor
  · rintro ⟨page, bytes, hpage, hbytes⟩
    cases hpage
    exact (hencode _).mp ⟨bytes, hbytes⟩
  · intro hfits
    obtain ⟨bytes, hbytes⟩ := (hencode ⟨server.log.highWaterMark,
      server.stableOffset, (server.visiblePage request.widen).1,
      (server.visiblePage request.widen).2⟩).mpr hfits
    exact ⟨_, bytes, rfl, hbytes⟩

/-- The page of a fetch in range: consecutive records from its offset on. -/
theorem Holds.exists_page : ∃ head rest, server.page request.widen = head :: rest ∧
      head.offset = request.offset.toInt ∧
      ∀ message ∈ head :: rest, request.offset.toInt ≤ message.offset ∧
        message.offset < server.log.highWaterMark := by
  have hnonneg := hholds.offset_nonneg hrange
  have hmark := hholds.shows.highWaterMark
  have hupper := hrange.upper
  have hpage := hholds.page_eq request.widen hnonneg
  have hconsecutive := (takeBudget_isPage request.widen.maxBytes
    (records.drop request.offset.toInt.toNat)).consecutive
  have hsome : records.drop request.offset.toInt.toNat ≠ [] := by
    intro hnil
    have hlength := congrArg List.length hnil
    rw [length_drop, length_nil] at hlength
    omega
  have hbytes : 0 < request.widen.maxBytes :=
    Int.natCast_pos.mpr hrange.bytes
  have hnonempty := takeBudget_ne_nil hsome hbytes
  rw [hpage]
  obtain ⟨head, rest, hcons⟩ := exists_cons_of_ne_nil hnonempty
  rw [hcons] at hconsecutive
  refine ⟨head, rest, hcons, ?_, ?_⟩
  · have hfirst : (head :: rest)[0]? = some head := rfl
    have hfacts := hholds.inOrder.offset_of_prefix hconsecutive hfirst
    omega
  · intro message hmem
    obtain ⟨index, hindex⟩ := mem_iff_getElem?.mp hmem
    have hfacts := hholds.inOrder.offset_of_prefix hconsecutive hindex
    omega

/-- A fetch goes on within the log, and behind its offset exactly if it began
below its limit. -/
theorem Holds.next_of_range :
    (server.visiblePage request.widen).2 ≤ server.log.highWaterMark ∧
      request.offset.toInt ≤ (server.visiblePage request.widen).2 ∧
      (request.offset.toInt < (server.visiblePage request.widen).2 ↔
        request.offset.toInt <
          server.readLimit (isolationOf request.isolationLevel)) := by
  obtain ⟨head, rest, hpage, hhead, hbounds⟩ := hholds.exists_page hrange
  have hupper := hrange.upper
  have hvisible : server.visiblePage request.widen = visibleMessages
      (server.readLimit (isolationOf request.isolationLevel))
      (server.hiddenRanges (isolationOf request.isolationLevel))
      (head :: rest) request.offset.toInt := by
    unfold visiblePage
    rw [hpage]
    rfl
  rw [hvisible]
  by_cases hlimit : server.readLimit (isolationOf request.isolationLevel) ≤
      head.offset
  · rw [visibleMessages_of_limit_le hlimit]
    omega
  · have hbelow := not_le.mp hlimit
    rw [visibleMessages_cons_next hbelow]
    rcases visibleMessages_next_cases with hnext | ⟨later, hlater, hnext⟩
    · rw [hnext]
      omega
    · have hlaterBounds := hbounds later (mem_cons_of_mem head hlater)
      omega

theorem Holds.toInt_next : (Int64.ofInt (server.visiblePage request.widen).2).toInt =
      (server.visiblePage request.widen).2 := by
  obtain ⟨hupper, hlower, _⟩ := hholds.next_of_range hrange
  have hnonneg := hholds.offset_nonneg hrange
  have hmark := hholds.shows.highWaterMark
  have hbelow := hholds.below
  exact Int64.toInt_ofInt_of_le (by omega) (by omega)

/-- A response carries a record or moves on exactly if the fetch began below
its limit. -/
theorem Holds.advances_iff : server.Advances request ↔ request.offset.toInt <
      server.readLimit (isolationOf request.isolationLevel) := by
  have hfetch := hholds.handleFetch_eq request.widen (hholds.offset_nonneg hrange)
  obtain ⟨_, _, hnext⟩ := hholds.next_of_range hrange
  have hint := hholds.toInt_next hrange
  unfold Advances
  rw [hfetch, ← hnext]
  constructor
  · rintro ⟨page, hpage, hmoves⟩
    cases hpage
    rcases hmoves with hmessages | hoffset
    · rw [hnext]
      by_contra hlimit
      apply hmessages
      obtain ⟨head, rest, hpage, hhead, _⟩ := hholds.exists_page hrange
      have hnothing : (server.visiblePage request.widen).1 = [] := by
        unfold visiblePage visibleOf
        rw [hpage, visibleMessages_of_limit_le]
        rw [hhead]
        exact not_lt.mp hlimit
      simp only [FetchResponse.narrow, hnothing, map_nil]
    · rw [← hint]
      exact Int64.lt_iff_toInt_lt.mp hoffset
  · intro hmoves
    refine ⟨_, rfl, Or.inr ?_⟩
    rw [← hint] at hmoves
    exact Int64.lt_iff_toInt_lt.mpr hmoves

/-- A fetch whose page fits takes a consumer to the next offset. -/
theorem Holds.poll (hfits : server.PageFits records request)
    (crc : Bytes → UInt32) (order : Protocol.HeaderOrder) (requestId : UInt64) :
    ServedPartition.poll crc order requestId server request =
      ((server.handleFetch request.widen).1,
        some (Int64.ofInt (server.visiblePage request.widen).2)) := by
  have hfetch := hholds.handleFetch_eq request.widen (hholds.offset_nonneg hrange)
  obtain ⟨page, bytes, hpage, hbytes⟩ :=
    (hholds.sends_iff hrange crc order requestId).mpr hfits
  rw [hfetch] at hpage
  cases hpage
  have hanswers : (fetchReply requestId request ⟨server.log.highWaterMark,
      server.stableOffset, (server.visiblePage request.widen).1,
      (server.visiblePage request.widen).2⟩).Answers .fetch := rfl
  have hreceived := Protocol.received_of_encodeResponse hanswers hbytes []
  rw [append_nil] at hreceived
  have hnonneg : (0 : Int64) ≤ Int64.ofInt (server.visiblePage request.widen).2 := by
    obtain ⟨_, hlower, _⟩ := hholds.next_of_range hrange
    have hoffset := hholds.offset_nonneg hrange
    rw [Int64.le_iff_toInt_le, hholds.toInt_next hrange]
    exact hoffset.trans hlower
  unfold ServedPartition.poll
  rw [← Prod.mk.eta (p := server.handleFetch request.widen), hfetch]
  dsimp only
  rw [hbytes]
  dsimp only
  rw [hreceived]
  simp only [fetchReply, Protocol.ResponsePayload.carried,
    FetchResponse.narrow, nextPosition, hnonneg, ↓reduceIte]

end

end

/-- Every page on the way of a consumer fits. -/
def PagesFit (server : ServedPartition) (records : List Message) (crc : Bytes → UInt32)
    (order : Protocol.HeaderOrder) (requestId : UInt64)
    (request : Protocol.FetchRequest) : Prop :=
  ∀ count after last,
    polls crc order requestId count server request = some (after, last) →
      after.InRange last → after.PageFits records last

/-- A consumer of uncommitted records whose pages fit reaches the high water
mark. -/
theorem Holds.polls_reach (hholds : server.Holds records)
    (hrange : server.InRange request) {crc : Bytes → UInt32}
    {order : Protocol.HeaderOrder} {requestId : UInt64}
    (hisolation : isolationOf request.isolationLevel = .readUncommitted)
    (hfits : server.PagesFit records crc order requestId request) :
    ∃ count after last,
      polls crc order requestId count server request = some (after, last) ∧
        last.offset.toInt = server.log.highWaterMark := by
  -- The induction is on how far the consumer is from the high water mark.
  obtain ⟨distance, hdistance⟩ : ∃ distance : Nat, server.log.highWaterMark =
        request.offset.toInt + distance := by
    have hupper := hrange.upper
    exact ⟨(server.log.highWaterMark - request.offset.toInt).toNat, by omega⟩
  induction distance using Nat.strong_induction_on generalizing server request with
  | h distance ih =>
    have hpoll := hholds.poll hrange (hfits 0 server request rfl hrange) crc
      order requestId
    obtain ⟨hupper, _, hmoves⟩ := hholds.next_of_range hrange
    have hnext := hmoves.mpr (by rw [hisolation]; exact hrange.upper)
    have hint := hholds.toInt_next hrange
    have hafter := hholds.fetch request.widen
    have hmark : (server.handleFetch request.widen).1.log.highWaterMark =
        server.log.highWaterMark := by
      rw [hafter.shows.highWaterMark, hholds.shows.highWaterMark]
    let next := Int64.ofInt (server.visiblePage request.widen).2
    have hstep : ∀ count, polls crc order requestId (count + 1) server
        request = polls crc order requestId count (server.handleFetch request.widen).1
          { request with offset := next } := by
      intro count
      simp only [polls, hpoll, next]
    have hposition : next.toInt = (server.visiblePage request.widen).2 :=
      hint
    by_cases hend : (server.visiblePage request.widen).2 = server.log.highWaterMark
    · exact ⟨1, _, _, hstep 0, hposition.trans hend⟩
    · have hthere : (server.handleFetch request.widen).1.InRange
          { request with offset := next } := by
        have hoffset := hholds.offset_nonneg hrange
        refine ⟨?_, ?_, hrange.bytes⟩
        · rw [hafter.start_eq, hposition]
          omega
        · rw [hposition]
          omega
      obtain ⟨count, after, last, hpolls, hlast⟩ := ih
        (server.log.highWaterMark - next.toInt).toNat (by omega) hafter
        hthere hisolation
        (fun count after last hpolls =>
          hfits (count + 1) after last (by rw [hstep, hpolls]))
        (by rw [hmark]; dsimp only; omega)
      refine ⟨count + 1, after, last, ?_, ?_⟩
      · rw [hstep, hpolls]
      · rw [hlast, hmark]

end ServedPartition

/-- In every run of requests whose produced batches the log keeps, the
response to a fetch in range can be sent exactly if its messages fit, it
carries a record or moves on exactly if the fetch begins below its limit, and
a consumer of uncommitted records whose pages fit reaches the high water
mark. -/
theorem ServedPartition.fetchable_of_pagesFit (config : LogConfig)
    (requests : List ServedRequest)
    (hserved : AllAllowed step Served (start config) requests)
    (crc : Bytes → UInt32) (order : Protocol.HeaderOrder) (requestId : UInt64)
    (request : Protocol.FetchRequest)
    (hrange : (runSteps step (start config) requests).InRange request) :
    let server := runSteps step (start config) requests
    let records := (start config).acknowledged [] requests
    (server.Sends crc order requestId request ↔ server.PageFits records request) ∧
      (server.Advances request ↔ request.offset.toInt <
        server.readLimit (isolationOf request.isolationLevel)) ∧
      (isolationOf request.isolationLevel = .readUncommitted →
        server.PagesFit records crc order requestId request →
        ∃ count after last,
          polls crc order requestId count server request = some (after, last) ∧
          last.offset.toInt = server.log.highWaterMark) := by
  have hholds := (start_holds config).runSteps hserved
  exact ⟨hholds.sends_iff hrange crc order requestId,
    hholds.advances_iff hrange, hholds.polls_reach hrange⟩

/-- A request that a client can encode is accepted by the broker. -/
theorem Protocol.ProduceRequest.accepted_of_size {request : Protocol.ProduceRequest}
    (hcarried : (RequestPayload.produce request).carried = .produce request)
    (hsize : headerSize + request.payloadSize ≤ maxMessageSize) :
    request.Accepted := by
  let whole : Request := ⟨⟨0, RequestType.produce.code, 1, 0⟩, .produce request⟩
  have hrange : request.payloadSize ≤ maxMessageSize := by omega
  obtain ⟨written, hlength, hfills, _⟩ :=
    carries_produce .byName request hrange
  have htotal : headerSize + request.payloadSize =
      4 + (whole.header.bytes ++ written).length + 4 := by
    rw [length_append, RequestHeader.bytes_length, headerSize]
    omega
  have hencode : encodeRequest (fun _ => 0) .byName whole =
      .returned (.ok (frame (fun _ => 0) (whole.header.bytes ++ written))) := by
    have hcalculate : calculateRequestPayloadSize whole =
        .returned (.ok request.payloadSize) := by
      change Outcome.returned (checkedPayloadSize request.payloadSize) = _
      rw [checkedPayloadSize_eq_ok.mpr ⟨hrange, rfl⟩]
    unfold encodeRequest
    rw [hcalculate]
    have hframe := encodeFrame_eq (fun _ => 0)
      ((writes_requestHeader whole.header).fills.bind hfills) htotal
    rw [if_neg (not_lt.mpr hsize)] at hframe
    exact hframe
  have hmatches : whole.Matches := rfl
  have hdecode :=
    (arrives_of_encodeRequest hmatches hencode).decodeRequest []
  have hpayload : whole.payload.carried = .produce request := hcarried
  rw [hpayload] at hdecode
  exact ⟨_, _, _, _, hdecode⟩

/-- One record of a key and a value. -/
def smallProduce : Protocol.ProduceRequest :=
  ⟨[116], 0, [⟨0, [107], [118], ∅, 5⟩], 0, 0, 0, 0, 0⟩

def firstFetch : Protocol.FetchRequest := ⟨[116], 0, 0, 1, 0⟩

theorem ServedPartition.fetchable_smallProduce :
    AllAllowed step Served (start (LogRun.smallConfig .always 1))
        [.produce smallProduce] ∧
      (runSteps step (start (LogRun.smallConfig .always 1))
        [.produce smallProduce]).InRange firstFetch ∧
      (runSteps step (start (LogRun.smallConfig .always 1))
        [.produce smallProduce]).Sends (fun _ => 0) .byName 1 firstFetch ∧
      (runSteps step (start (LogRun.smallConfig .always 1))
        [.produce smallProduce]).Advances firstFetch := by
  have haccepted : smallProduce.Accepted :=
    Protocol.ProduceRequest.accepted_of_size rfl (by decide +kernel)
  have hserved : AllAllowed step Served
      (start (LogRun.smallConfig .always 1)) [.produce smallProduce] := by
    refine ⟨⟨haccepted, ⟨⟨0, 1, 1⟩, by decide +kernel⟩, ?_⟩, trivial⟩
    exact ⟨by decide +kernel, by decide +kernel⟩
  have hrange : (runSteps step (start (LogRun.smallConfig .always 1))
      [.produce smallProduce]).InRange firstFetch :=
    ⟨by decide +kernel, by decide +kernel, by decide +kernel⟩
  obtain ⟨hsends, hadvances, _⟩ := fetchable_of_pagesFit
    (LogRun.smallConfig .always 1) [.produce smallProduce] hserved
    (fun _ => 0) .byName 1 firstFetch hrange
  refine ⟨hserved, hrange, hsends.mpr ?_, hadvances.mpr (by decide +kernel)⟩
  unfold PageFits
  decide +kernel

/-- A value of this length makes a produce request of the greatest size. -/
def greatestLength : Nat := Protocol.maxMessageSize - 71

/-- One record of a value. -/
def valueProduce (value : Bytes) : Protocol.ProduceRequest :=
  ⟨[116], 0, [⟨0, [], value, ∅, 5⟩], 0, 0, 0, 0, 0⟩

section

variable {value : Bytes}

theorem valueProduce_accepted (hlength : value.length = greatestLength) :
    (valueProduce value).Accepted := by
  apply Protocol.ProduceRequest.accepted_of_size rfl
  have hsize : (valueProduce value).payloadSize = value.length + 51 := by
    change 4 + 1 + 4 + 4 + (8 + 4 + 0 + 4 + value.length + 8 + 4 + 0 + 0) +
      (8 + 2) = _
    omega
  rw [hsize, hlength]
  decide

/-- A log that has room for another table spares every record. -/
theorem ServedPartition.sustains_of_room {server : ServedPartition}
    {request : ProduceRequest}
    (hroom : server.log.immutables.length < server.log.config.numImmutable)
    (hbelow : server.log.nextOffset + request.messages.length < 2 ^ 63) :
    server.Sustains request := by
  refine ⟨hbelow, ?_⟩
  obtain ⟨wal, active, after, result, hwrite, _⟩ := Log.writeMessages_shape
    request.batch server.log server.disk server.log.nextOffset
    request.batch.messages []
  unfold LogRun.SparesBuffered
  rw [hwrite]
  intro _ table htable
  have hnothing : ({ server.log with wal := wal, active := active } :
      Log).evicted = [] := by
    rw [Log.evicted, if_neg]
    rintro ⟨_, hfull⟩
    dsimp only at hfull
    omega
  rw [hnothing] at htable
  cases htable

namespace ServedPartition

/-- A broker whose log has room for another table. -/
def roomy : ServedPartition := start (LogRun.smallConfig .always 1)

theorem roomy_sustains (value : Bytes) :
    roomy.Sustains (valueProduce value).widen := by
  apply sustains_of_room
  · decide
  · change (0 : Int) + 1 < 2 ^ 63
    decide

theorem roomy_handleProduce (hlength : value.length = greatestLength) :
    (roomy.handleProduce (valueProduce value).widen).2 = .ok ⟨0, 1, 1⟩ ∧
      (roomy.handleProduce (valueProduce value).widen).1.Holds
        [⟨0, [], value, ∅, some 5, 0, 0⟩] := by
  have haccepts : roomy.log.Accepts (valueProduce value).widen.batch := by
    intro hversion
    cases hversion
  have hempty : roomy.Shows [] := start_shows _
  obtain ⟨after, hshows, honList⟩ := hempty.handleProduce
    (valueProduce_accepted hlength) haccepts (roomy_sustains value)
  have hlist : (roomy.onList []).handleProduce ((valueProduce value).widen.kept
      roomy.log.config.messageFormatVersion) false =
        (⟨⟨0, [⟨0, [], value, ∅, some 5, 0, 0⟩]⟩, ∅, []⟩, .ok ⟨0, 1, 1⟩) := rfl
  rw [Prod.mk.injEq] at honList
  obtain ⟨hpartition, hresult⟩ := honList
  have hlog := congrArg Partition.log hpartition
  obtain ⟨hstart, hrecords⟩ := PartitionLog.mk.inj hlog
  subst hrecords
  exact ⟨hresult, hshows, hstart, by
    change ((1 : Nat) : Int) < 2 ^ 63
    decide⟩

theorem not_pageFits {server : ServedPartition}
    (hholds : server.Holds [⟨0, [], value, ∅, some 5, 0, 0⟩])
    (hlength : value.length = greatestLength) {request : Protocol.FetchRequest}
    (hisolation : isolationOf request.isolationLevel = .readUncommitted)
    (hrange : server.InRange request) :
    ¬ server.PageFits [⟨0, [], value, ∅, some 5, 0, 0⟩] request := by
  have hnonneg := hholds.offset_nonneg hrange
  have hmark : server.log.highWaterMark = 1 := hholds.shows.highWaterMark
  have hzero : request.offset.toInt = 0 := by
    have hupper := hrange.upper
    omega
  have hoffset : request.widen.offset.toNat = 0 := by
    change request.offset.toInt.toNat = 0
    omega
  have hbytes : ¬ request.widen.maxBytes ≤ 0 :=
    not_le.mpr (Int.natCast_pos.mpr hrange.bytes)
  have hvisible : server.visibleOf request.widen
      [⟨0, [], value, ∅, some 5, 0, 0⟩] = ([⟨0, [], value, ∅, 5⟩], 1) := by
    have hlevel : request.widen.isolation = .readUncommitted := hisolation
    unfold visibleOf
    rw [hlevel]
    change visibleMessages server.log.highWaterMark [] _ _ = _
    rw [hmark]
    rfl
  unfold PageFits
  simp only [hoffset, drop_zero, takeBudget, Option.any_some, hbytes,
    decide_false, Bool.false_eq_true, ↓reduceIte, hvisible]
  change ¬ 47 + (8 + 4 + 0 + 4 + value.length + 8 + 4 + 0 + 0) ≤ _
  rw [hlength, greatestLength]
  omega

/-- The record is acknowledged, and no response can carry it. -/
theorem not_sends (hlength : value.length = greatestLength) :
    AllAllowed step Served roomy [.produce (valueProduce value)] ∧
      (runSteps step roomy [.produce (valueProduce value)]).InRange firstFetch ∧
      ∀ request : Protocol.FetchRequest,
        isolationOf request.isolationLevel = .readUncommitted →
        (runSteps step roomy [.produce (valueProduce value)]).InRange request →
        ∀ crc order requestId, ¬ (runSteps step roomy
          [.produce (valueProduce value)]).Sends crc order requestId
            request := by
  obtain ⟨hresult, hholds⟩ := roomy_handleProduce hlength
  have hrun : runSteps step roomy [.produce (valueProduce value)] =
      (roomy.handleProduce (valueProduce value).widen).1 := rfl
  rw [hrun]
  refine ⟨⟨⟨valueProduce_accepted hlength, ⟨_, hresult⟩, roomy_sustains value⟩,
    trivial⟩, ⟨?_, ?_, by decide⟩, ?_⟩
  · rw [hholds.start_eq]
    decide
  · rw [hholds.shows.highWaterMark]
    change (0 : Int) < (1 : Nat)
    decide
  · intro request hisolation hrange crc order requestId hsends
    exact not_pageFits hholds hlength hisolation hrange
      ((hholds.sends_iff hrange crc order requestId).mp hsends)

end ServedPartition

end

/-- A value that no fetch returns. -/
def greatestValue : Bytes := List.replicate greatestLength 0

theorem greatestValue_length : greatestValue.length = greatestLength := by
  rw [greatestValue, length_replicate]

/-- A broker acknowledges a record that it can send in no response. -/
theorem ServedPartition.acknowledged_not_fetchable :
    AllAllowed step Served roomy [.produce (valueProduce greatestValue)] ∧
      (runSteps step roomy
        [.produce (valueProduce greatestValue)]).InRange firstFetch ∧
      ∀ request : Protocol.FetchRequest,
        isolationOf request.isolationLevel = .readUncommitted →
        (runSteps step roomy
          [.produce (valueProduce greatestValue)]).InRange request →
        ∀ crc order requestId, ¬ (runSteps step roomy
          [.produce (valueProduce greatestValue)]).Sends crc order requestId
            request :=
  not_sends greatestValue_length

end Streambus
