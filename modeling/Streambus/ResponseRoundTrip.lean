/-
Requests and responses survive the wire, without the fields that are not
written.  Handlers miss the timestamp of an offset request.  Clients miss the
topic and partition of a fetch, and the offset and timestamp that an offset
query was asked for.
-/
import Streambus.RequestCodec
import Streambus.ResponseCodec

namespace Streambus.Protocol

open List Program

def RequestPayload.type : RequestPayload → RequestType
  | .produce _ => .produce
  | .fetch _ => .fetch
  | .getOffset _ => .getOffset
  | .createTopic _ => .createTopic
  | .deleteTopic _ => .deleteTopic
  | .listTopics => .listTopics
  | .healthCheck => .healthCheck
  | .joinGroup _ => .joinGroup
  | .syncGroup _ => .syncGroup
  | .heartbeat _ => .heartbeat
  | .leaveGroup _ => .leaveGroup
  | .offsetCommit _ => .offsetCommit
  | .offsetFetch _ => .offsetFetch
  | .initProducerId _ => .initProducerId
  | .addPartitionsToTxn _ => .addPartitionsToTxn
  | .addOffsetsToTxn _ => .addOffsetsToTxn
  | .endTxn _ => .endTxn
  | .txnOffsetCommit _ => .txnOffsetCommit
  | .findCoordinator _ => .findCoordinator

/-- The payload is of the type that the header says. -/
def Request.Matches (request : Request) : Prop :=
  request.header.type = request.payload.type.code

/-- The fields of a payload that some handler acts on.  No handler looks at
the acknowledgements, timeout and leader epoch of a produce request. -/
def RequestPayload.acted : RequestPayload → RequestPayload
  | .produce request =>
    .produce { request with acks := 0, timeoutMs := 0, leaderEpoch := 0 }
  | payload => payload

/-- The fields of a payload that are written. -/
def RequestPayload.carried : RequestPayload → RequestPayload
  | .produce request =>
    .produce { request with acks := 0, timeoutMs := 0, leaderEpoch := 0 }
  | .getOffset request => .getOffset { request with timestamp := 0 }
  | payload => payload

/-- From a stream that starts with the bytes, the request is decoded with all
that handlers act on, and nothing else is taken from the stream. -/
def RoundTrips (crc : Bytes → UInt32) (request : Request) (bytes : Bytes) :
    Prop :=
  ∀ rest, ∃ decoded, decodeRequest crc (bytes ++ rest) =
      .returned (.ok (decoded, rest)) ∧
    decoded.header = request.header ∧
    decoded.payload.acted = request.payload.acted

theorem decodeProducer_run (before spare : Bytes) (producerId : Int64)
    (producerEpoch : Int16) :
    decodeProducer ⟨⟨before ++ encodeFixed producerId ++
        encodeFixed producerEpoch, spare⟩, before.length⟩ =
      .returned ((producerId, producerEpoch), ⟨⟨before ++
        encodeFixed producerId ++ encodeFixed producerEpoch, spare⟩,
          before.length + 8 + 2⟩) := by
  have hlength : (before ++ encodeFixed producerId ++
      encodeFixed producerEpoch).length = before.length + 8 + 2 := by
    simp only [length_append, encodeFixed_length]
    rfl
  have hid := scanFixed_run producerId before (encodeFixed producerEpoch) spare
  have hepoch := scanFixed_run producerEpoch
    (before ++ encodeFixed producerId) [] spare
  rw [append_nil, length_append, encodeFixed_length] at hepoch
  unfold decodeProducer
  rw [run_bind (hasMore_run (by dsimp only; omega))]
  simp only [↓reduceIte]
  rw [run_bind hid, run_bind (hasMore_run (by rw [hlength]; exact le_refl _))]
  simp only [↓reduceIte]
  rw [run_bind hepoch]
  rfl

theorem carries_produce (order : HeaderOrder) (request : ProduceRequest) :
    Carries (scanAs decodeProduce .produce) (request.encode order)
      request.payloadSize (RequestPayload.produce request).carried := by
  intro hsize
  have hsum : request.payloadSize = 4 + request.topic.length +
      (4 + (4 + (request.messages.map Message.size).sum)) + (8 + 2) := by
    rw [ProduceRequest.payloadSize]
    omega
  obtain ⟨footprint, hlayout, hlength, hfills⟩ :=
    encodes_batch order request (by
      unfold maxArrayLen
      omega)
  refine ⟨footprint.bytes ++ (encodeFixed request.producerId ++
    encodeFixed request.producerEpoch), ?_,
    hfills.bind ((fills_store _).bind (fills_store _)), ?_⟩
  · rw [length_append, length_append, hlength, encodeFixed_length, hsum]
    rfl
  · intro spare
    have hbatch := scans_batch.reads hlayout [] (encodeFixed
      request.producerId ++ encodeFixed request.producerEpoch) spare
    have hproducer := decodeProducer_run footprint.bytes spare
      request.producerId request.producerEpoch
    rw [append_assoc] at hproducer
    simp only [nil_append, length_nil, Nat.zero_add] at hbatch
    apply scanAs_of_run
    unfold decodeProduce
    rw [run_bind hbatch]
    dsimp only
    rw [run_bind hproducer]
    rfl

theorem decodeIsolation_run (before spare : Bytes) (isolationLevel : Int8) :
    decodeIsolation ⟨⟨before ++ encodeFixed isolationLevel, spare⟩, before.length⟩ =
      .returned (isolationLevel, ⟨⟨before ++ encodeFixed isolationLevel,
        spare⟩, before.length + 1⟩) := by
  have hmore : before.length + 1 ≤ (before ++ encodeFixed isolationLevel).length := by
    rw [length_append]
    exact le_refl _
  have hlevel := scanFixed_run isolationLevel before [] spare
  rw [append_nil] at hlevel
  unfold decodeIsolation
  rw [run_bind (hasMore_run hmore)]
  exact hlevel

theorem carries_fetch (request : FetchRequest) :
    Carries (scanAs decodeFetch .fetch) request.encode request.payloadSize
      (RequestPayload.fetch request).carried := by
  intro hsize
  have hsum : request.payloadSize = 4 + request.topic.length + (4 + (8 + 4)) + 1 := by
    rw [FetchRequest.payloadSize]
  obtain ⟨footprint, hlayout, hlength, hfills⟩ :=
    encodes_position request (by
      unfold maxArrayLen
      omega)
  refine ⟨footprint.bytes ++ encodeFixed request.isolationLevel, ?_,
    hfills.bind (fills_store _), ?_⟩
  · rw [length_append, hlength, hsum]
    rfl
  · intro spare
    have hposition := scans_position.reads hlayout []
      (encodeFixed request.isolationLevel) spare
    simp only [nil_append, length_nil, Nat.zero_add] at hposition
    apply scanAs_of_run
    unfold decodeFetch
    rw [run_bind hposition]
    dsimp only
    rw [run_bind (decodeIsolation_run footprint.bytes spare request.isolationLevel)]
    rfl

/-- The bytes are the frame of a request from which the payload is decoded. -/
def Arrives (crc : Bytes → UInt32) (request : Request) (bytes : Bytes)
    (payload : RequestPayload) : Prop :=
  Framed crc request.header.bytes bytes
    (fun buf => decodeRequestPayload buf request.header.type) payload

variable {crc : Bytes → UInt32} {request : Request} {bytes : Bytes}
  {order : HeaderOrder}

theorem Arrives.decodeRequest {payload : RequestPayload}
    (harrives : Arrives crc request bytes payload) (rest : Bytes) :
    Protocol.decodeRequest crc (bytes ++ rest) =
      .returned (.ok (⟨request.header, payload⟩, rest)) := by
  obtain ⟨written, rfl, hsize, hdecode⟩ := harrives
  dsimp only at hdecode
  rw [decodeRequest_frame crc request.header hsize, hdecode]
  rfl

/-- A request that is encoded is encoded in a buffer of the size computed. -/
theorem encodeRequest_eq_ok
    (hencode : encodeRequest crc order request = .returned (.ok bytes)) :
    ∃ size, calculateRequestPayloadSize request = .returned (.ok size) ∧
      encodeFrame crc (request.header.bytes.length + 8 + size)
        (encodeRequestHeader request.header)
        (encodeRequestPayload order request) = .returned (.ok bytes) := by
  obtain ⟨result, hresult, hframe⟩ := Outcome.bind_eq_returned.mp hencode
  cases result with
  | error error => cases hframe
  | ok size => exact ⟨size, hresult, hframe⟩

theorem arrives_of_selfDescribing {α : Type} [SelfDescribing α]
    (build : α → RequestPayload) (content : α)
    (htype : request.header.type = (build content).type.code)
    (hreader : newCoordinationRequest (build content).type = some (readAs build))
    (hencoder : request.payload.encoder? =
      some (SelfDescribing.encodePayload content))
    (hencode : encodeRequest crc order request = .returned (.ok bytes)) :
    Arrives crc request bytes (build content) := by
  have hcoordination :
      isCoordinationRequest (RequestType.ofCode request.header.type) = true := by
    rw [htype, RequestType.ofCode_code]
    simp only [isCoordinationRequest, Option.bind_some, hreader, Option.isSome_some]
  obtain ⟨size, hsize, hframe⟩ := encodeRequest_eq_ok hencode
  simp only [calculateRequestPayloadSize, hencoder, hcoordination] at hsize
  simp only [encodeRequestPayload, hencoder, hcoordination] at hframe
  obtain ⟨measured, hmeasure, hsize⟩ := Outcome.bind_eq_returned.mp hsize
  cases hsize
  have hframed := framed_selfDescribing content build
    (.malformedRequest request.header.type)
    (writes_requestHeader request.header)
    (by rw [RequestHeader.bytes_length]; decide) hmeasure hframe
  unfold Arrives
  simpa only [decodeRequestPayload, htype, RequestType.ofCode_code, hreader,
    decodeCoordinationRequest] using hframed

/-- A payload laid out by hand, in a request of its type, is carried in the
size computed for it. -/
theorem carries_hand (hmatches : request.Matches)
    (hplain : request.payload.encoder? = none) (order : HeaderOrder) :
    ∃ writer size, Carries
        (fun buf => decodeRequestPayload buf request.header.type) writer size
        request.payload.carried ∧
      calculateRequestPayloadSize request =
        .returned (checkedPayloadSize size) ∧
      encodeRequestPayload order request = succeed writer := by
  obtain ⟨⟨requestId, type, version, flags⟩, payload⟩ := request
  obtain rfl : type = payload.type.code := hmatches
  cases payload with
  | produce request => exact ⟨_, _, carries_produce order request, rfl, rfl⟩
  | fetch request => exact ⟨_, _, carries_fetch request, rfl, rfl⟩
  | getOffset request =>
    exact ⟨_, _, carries_of_encodes (encodes_getOffset request) scans_getOffset _, rfl, rfl⟩
  | createTopic request =>
    exact ⟨_, _, carries_of_encodes (encodes_createTopic request)
      scans_createTopic _, rfl, rfl⟩
  | deleteTopic request =>
    exact ⟨_, _, carries_of_encodes ((encodes_blob request.topic).map _)
      scans_deleteTopic _, rfl, rfl⟩
  | listTopics | healthCheck =>
    exact ⟨_, 0, fun _ => ⟨[], rfl, fills_pure, fun _ => rfl⟩, rfl, rfl⟩
  | _ => cases hplain

/-- What is decoded from an encoded request is the request, without the fields
that are not written. -/
theorem arrives_of_encodeRequest (hmatches : request.Matches)
    (hencode : encodeRequest crc order request = .returned (.ok bytes)) :
    Arrives crc request bytes request.payload.carried := by
  cases hencoder : request.payload.encoder? with
  | none =>
    obtain ⟨_, _, hcarries, hcalculate, hwriter⟩ :=
      carries_hand hmatches hencoder order
    obtain ⟨_, hsize, hframe⟩ := encodeRequest_eq_ok hencode
    rw [hcalculate, Outcome.returned.injEq, checkedPayloadSize_eq_ok] at hsize
    obtain ⟨hrange, rfl⟩ := hsize
    rw [hwriter] at hframe
    exact hcarries.framed hrange (writes_requestHeader request.header) hframe
  | some encoder =>
    obtain ⟨⟨requestId, type, version, flags⟩, payload⟩ := request
    obtain rfl : type = payload.type.code := hmatches
    cases payload with
    | joinGroup request | syncGroup request | heartbeat request
    | leaveGroup request | offsetCommit request | offsetFetch request
    | initProducerId request | addPartitionsToTxn request
    | addOffsetsToTxn request | endTxn request | txnOffsetCommit request
    | findCoordinator request =>
      exact arrives_of_selfDescribing _ request rfl rfl rfl hencode
    | _ => cases hencoder

/-- All that handlers act on is written, save a timestamp. -/
theorem RequestPayload.acted_carried_iff (payload : RequestPayload) :
    payload.carried.acted = payload.acted ↔
      ∀ request, payload = .getOffset request → request.timestamp = 0 := by
  cases payload with
  | getOffset request =>
    obtain ⟨topic, partitionId, timestamp⟩ := request
    simp only [carried, acted, getOffset.injEq, GetOffsetRequest.mk.injEq,
      true_and, forall_eq']
    exact eq_comm
  | _ => simp [carried, acted]

/-- A request that was encoded is decoded with all that handlers act on,
unless it asks for the offset of a time. -/
theorem roundTrips_iff_timestamp {crc : Bytes → UInt32} {order : HeaderOrder}
    {request : Request} {bytes : Bytes} (hmatches : request.Matches)
    (hencode : encodeRequest crc order request = .returned (.ok bytes)) :
    RoundTrips crc request bytes ↔ ∀ offsetRequest,
      request.payload = .getOffset offsetRequest → offsetRequest.timestamp = 0 := by
  have harrives := arrives_of_encodeRequest hmatches hencode
  rw [← RequestPayload.acted_carried_iff]
  constructor
  · intro hround
    obtain ⟨decoded, hdecode, _, hpayload⟩ := hround []
    rw [harrives.decodeRequest] at hdecode
    cases hdecode
    exact hpayload
  · intro hacted rest
    exact ⟨_, harrives.decodeRequest rest, rfl, hacted⟩

/-- A request for committed records. -/
def committedRequest : Request :=
  ⟨⟨1, 0x02, 1, 0⟩, .fetch ⟨[116], 2, 9, 1024, 1⟩⟩

def committedBytes : Bytes :=
  [0, 0, 0, 38, 0, 0, 0, 0, 0, 0, 0, 1, 2, 1, 0, 0, 0, 0, 0, 1, 116,
    0, 0, 0, 2, 0, 0, 0, 0, 0, 0, 0, 9, 0, 0, 4, 0, 1, 0, 0, 0, 0]

theorem roundTrips_iff_timestamp_committed : committedRequest.Matches ∧
      encodeRequest (fun _ => 0) .byName committedRequest =
        .returned (.ok committedBytes) ∧
      RoundTrips (fun _ => 0) committedRequest committedBytes := by
  have hmatches : committedRequest.Matches := rfl
  have hencode : encodeRequest (fun _ => 0) .byName committedRequest =
      .returned (.ok committedBytes) := by decide +kernel
  refine ⟨hmatches, hencode, ?_⟩
  exact (roundTrips_iff_timestamp hmatches hencode).mpr nofun

/-- A request for the latest offset of a partition. -/
def latestOffsetRequest : Request :=
  ⟨⟨1, 0x03, 1, 0⟩, .getOffset ⟨[116], 2, -1⟩⟩

def latestOffsetBytes : Bytes :=
  [0, 0, 0, 25, 0, 0, 0, 0, 0, 0, 0, 1, 3, 1, 0, 0,
    0, 0, 0, 1, 116, 0, 0, 0, 2, 0, 0, 0, 0]

/-- A request for the latest offset arrives as one for the earliest. -/
theorem latestOffset_not_roundTrips : latestOffsetRequest.Matches ∧
      encodeRequest (fun _ => 0) .byName latestOffsetRequest =
        .returned (.ok latestOffsetBytes) ∧
      decodeRequest (fun _ => 0) latestOffsetBytes = .returned (.ok
        (⟨latestOffsetRequest.header, .getOffset ⟨[116], 2, 0⟩⟩, [])) ∧
      ¬RoundTrips (fun _ => 0) latestOffsetRequest latestOffsetBytes := by
  have hdecode : decodeRequest (fun _ => 0) latestOffsetBytes =
      .returned (.ok (⟨latestOffsetRequest.header,
        .getOffset ⟨[116], 2, 0⟩⟩, [])) := by decide +kernel
  refine ⟨rfl, by decide +kernel, hdecode, ?_⟩
  intro hround
  obtain ⟨decoded, hdecoded, _, hpayload⟩ := hround []
  rw [append_nil, hdecode] at hdecoded
  cases hdecoded
  revert hpayload
  decide +kernel

open List Program ResponsePayload

/-- The type of the request that a payload answers. -/
def ResponsePayload.type? : ResponsePayload → Option RequestType
  | .missing => none
  | .raw _ => none
  | .error _ => none
  | .produce _ => some .produce
  | .fetch _ => some .fetch
  | .getOffset _ => some .getOffset
  | .createTopic _ => some .createTopic
  | .deleteTopic _ => some .deleteTopic
  | .listTopics _ => some .listTopics
  | .healthCheck _ => some .healthCheck
  | .joinGroup _ => some .joinGroup
  | .syncGroup _ => some .syncGroup
  | .heartbeat _ => some .heartbeat
  | .leaveGroup _ => some .leaveGroup
  | .offsetCommit _ => some .offsetCommit
  | .offsetFetch _ => some .offsetFetch
  | .initProducerId _ => some .initProducerId
  | .addPartitionsToTxn _ => some .addPartitionsToTxn
  | .addOffsetsToTxn _ => some .addOffsetsToTxn
  | .endTxn _ => some .endTxn
  | .txnOffsetCommit _ => some .txnOffsetCommit
  | .findCoordinator _ => some .findCoordinator

/-- A response of the form that handlers give to a request of a type: an error
with the error code of the header, or a success with the payload of that
type. -/
def Response.Answers (response : Response) (type : RequestType) : Prop :=
  if response.header.status = statusOk then
    response.payload.type? = some type
  else ∃ message, response.payload = .error ⟨response.header.errorCode, message⟩

/-- The fields of a payload that a client may read.  No client looks at the
topic, partition and leader epoch of an answer to a produce request, at the
leader epoch of an offset, or at the error code of a topic that was created or
deleted. -/
def ResponsePayload.seen : ResponsePayload → ResponsePayload
  | .produce response =>
    .produce { response with topic := [], partitionId := 0, leaderEpoch := 0 }
  | .getOffset response => .getOffset { response with leaderEpoch := 0 }
  | .createTopic response => .createTopic { response with errorCode := 0 }
  | .deleteTopic response => .deleteTopic { response with errorCode := 0 }
  | payload => payload

/-- The fields of a payload that are written. -/
def ResponsePayload.carried : ResponsePayload → ResponsePayload
  | .produce response =>
    .produce { response with topic := [], partitionId := 0, leaderEpoch := 0 }
  | .fetch response => .fetch { response with topic := [], partitionId := 0 }
  | .getOffset response =>
    .getOffset { response with offset := 0, timestamp := 0, leaderEpoch := 0 }
  | .createTopic response => .createTopic { response with errorCode := 0 }
  | .deleteTopic response => .deleteTopic { response with errorCode := 0 }
  | payload => payload

/-- From a stream that starts with the bytes, a client decodes the response
with all that it may read, and takes nothing else from the stream. -/
def ResponseRoundTrips (crc : Bytes → UInt32) (response : Response)
    (type : RequestType) (bytes : Bytes) : Prop :=
  ∀ rest, ∃ decoded, receiveResponse crc (bytes ++ rest) type.code =
      .returned (.ok (decoded, rest)) ∧
    decoded.header = response.header ∧
    decoded.payload.seen = response.payload.seen

theorem decodeBounds_run (before spare : Bytes)
    (highWaterMark lastStableOffset nextOffset : Int64) :
    decodeBounds highWaterMark ⟨⟨before ++ encodeFixed lastStableOffset ++
        encodeFixed nextOffset, spare⟩, before.length⟩ =
      .returned ((lastStableOffset, nextOffset), ⟨⟨before ++
        encodeFixed lastStableOffset ++ encodeFixed nextOffset, spare⟩,
          before.length + 8 + 8⟩) := by
  have hlength : (before ++ encodeFixed lastStableOffset ++
      encodeFixed nextOffset).length = before.length + 8 + 8 := by
    simp only [length_append, encodeFixed_length]
    rfl
  have hstable := scanFixed_run lastStableOffset before (encodeFixed nextOffset) spare
  have hnext := scanFixed_run nextOffset
    (before ++ encodeFixed lastStableOffset) [] spare
  rw [append_nil, length_append, encodeFixed_length] at hnext
  unfold decodeBounds
  rw [run_bind (hasMore_run (by dsimp only; omega))]
  simp only [↓reduceIte]
  rw [run_bind hstable, run_bind (hasMore_run (by rw [hlength]; exact le_refl _))]
  simp only [↓reduceIte]
  rw [run_bind hnext]
  rfl

theorem carries_fetchResponse (order : HeaderOrder) (response : FetchResponse) :
    Carries (scanAs decodeFetchResponse .fetch) (response.encode order)
      response.payloadSize (ResponsePayload.fetch response).carried := by
  intro hsize
  have hsum : response.payloadSize =
      8 + (4 + (response.messages.map Message.size).sum) + (8 + 8) := by
    rw [FetchResponse.payloadSize]
    omega
  obtain ⟨footprint, hlayout, hlength, hfills⟩ :=
    encodes_page order response (by
      unfold maxArrayLen
      omega)
  refine ⟨footprint.bytes ++ (encodeFixed response.lastStableOffset ++
    encodeFixed response.nextOffset), ?_,
    hfills.bind ((fills_store _).bind (fills_store _)), ?_⟩
  · rw [length_append, length_append, hlength, encodeFixed_length, hsum]
    rfl
  · intro spare
    have hpage := scans_page.reads hlayout [] (encodeFixed
      response.lastStableOffset ++ encodeFixed response.nextOffset) spare
    have hbounds := decodeBounds_run footprint.bytes spare
      response.highWaterMark response.lastStableOffset response.nextOffset
    rw [append_assoc] at hbounds
    simp only [nil_append, length_nil, Nat.zero_add] at hpage
    apply scanAs_of_run
    unfold decodeFetchResponse
    rw [run_bind hpage]
    dsimp only
    rw [run_bind hbounds]
    rfl

/-- From a stream that starts with the bytes, a client decodes the payload. -/
def Received (crc : Bytes → UInt32) (response : Response) (code : UInt8)
    (bytes : Bytes) (payload : ResponsePayload) : Prop :=
  ∀ rest, receiveResponse crc (bytes ++ rest) code =
    .returned (.ok (⟨response.header, payload⟩, rest))

variable {crc : Bytes → UInt32} {response : Response} {bytes : Bytes}
  {order : HeaderOrder} {code : UInt8}

theorem received_of_framed {payload : ResponsePayload}
    (hstatus : response.header.status = statusOk)
    (hframed : Framed crc response.header.bytes bytes
      (fun data => decodeResponseData data code) payload) :
    Received crc response code bytes payload := by
  intro rest
  obtain ⟨written, rfl, hsize, hdecode⟩ := hframed
  dsimp only at hdecode
  unfold receiveResponse
  rw [decodeResponse_frame crc hstatus hsize]
  change decodeResponseData _ code >>= _ >>= _ = _
  rw [hdecode]
  rfl

/-- A response that is encoded is encoded in a buffer of the size computed. -/
theorem encodeResponse_eq_ok
    (hencode : encodeResponse crc order response = .returned (.ok bytes)) :
    ∃ size, calculateResponsePayloadSize response = .returned (.ok size) ∧
      encodeFrame crc (response.header.bytes.length + 8 + size)
        (encodeResponseHeader response.header)
        (encodeResponsePayload order response) = .returned (.ok bytes) := by
  obtain ⟨result, hresult, hframe⟩ := Outcome.bind_eq_returned.mp hencode
  cases result with
  | error error => cases hframe
  | ok size => exact ⟨size, hresult, hframe⟩

variable {type : RequestType}

theorem received_of_selfDescribing {α : Type} [SelfDescribing α]
    (build : α → ResponsePayload) (content : α)
    (hstatus : response.header.status = statusOk)
    (hreader : newCoordinationResponse type = some (readAs build))
    (hencoder : response.payload.encoder? =
      some (SelfDescribing.encodePayload content))
    (hencode : encodeResponse crc order response = .returned (.ok bytes)) :
    Received crc response type.code bytes (build content) := by
  obtain ⟨_, hsize, hframe⟩ := encodeResponse_eq_ok hencode
  simp only [calculateResponsePayloadSize, hstatus, ne_eq, not_true_eq_false,
    ↓reduceIte, hencoder] at hsize
  simp only [encodeResponsePayload, hstatus, ne_eq, not_true_eq_false,
    ↓reduceIte, hencoder] at hframe
  obtain ⟨measured, hmeasure, hsize⟩ := Outcome.bind_eq_returned.mp hsize
  cases hsize
  have hframed := framed_selfDescribing content build
    (.malformedResponse type.code) (writes_responseHeader response.header)
    (by rw [ResponseHeader.bytes_length]; decide) hmeasure hframe
  apply received_of_framed hstatus
  simpa only [decodeResponseData, RequestType.ofCode_code, hreader] using hframed

/-- An error arrives with its message. -/
theorem received_error {message : Bytes} (code : UInt8)
    (hstatus : response.header.status ≠ statusOk)
    (hpayload : response.payload = .error ⟨response.header.errorCode, message⟩)
    (hencode : encodeResponse crc order response = .returned (.ok bytes)) :
    Received crc response code bytes response.payload := by
  obtain ⟨size, hsize, hframe⟩ := encodeResponse_eq_ok hencode
  simp only [calculateResponsePayloadSize, hstatus, ne_eq, not_false_eq_true,
    ↓reduceIte, hpayload, Outcome.returned.injEq, checkedPayloadSize_eq_ok,
    ErrorResponse.payloadSize] at hsize
  simp only [encodeResponsePayload, hstatus, ne_eq, not_false_eq_true,
    ↓reduceIte, hpayload] at hframe
  have hfills : Fills (ErrorResponse.encode ⟨response.header.errorCode, message⟩)
      (encodeFixed (wireLen message.length) ++ message) :=
    (fills_store _).bind (fills_copyIn message)
  obtain ⟨rfl, hfits⟩ := encodeFrame_of_fills
    ((writes_responseHeader response.header).fills.bind hfills) (by
      simp only [length_append, encodeFixed_length]
      change _ = 4 + (_ + (4 + _)) + 4
      omega) hframe
  have hcount : (wireLen message.length).toNat = message.length :=
    toNat_wireLen (by unfold maxArrayLen; omega)
  intro rest
  unfold receiveResponse
  rw [decodeResponse_frame_error crc hstatus hcount hfits, hpayload]
  rfl

/-- A payload laid out by hand is carried in the size computed for it. -/
theorem ResponsePayload.carries_hand {payload : ResponsePayload}
    (htype : payload.type? = some type) (hplain : payload.encoder? = none)
    (order : HeaderOrder) :
    ∃ size, Carries (fun data => decodeResponseData data type.code)
        (payload.encodeHand order) size payload.carried ∧
      payload.handSize = checkedPayloadSize size := by
  cases payload with
  | missing | raw data | error response => cases htype
  | produce response =>
    cases htype
    exact ⟨_, carries_of_encodes (encodes_produceResponse response)
      scans_produceResponse _, rfl⟩
  | fetch response =>
    cases htype
    exact ⟨_, carries_fetchResponse order response, rfl⟩
  | getOffset response =>
    cases htype
    exact ⟨_, carries_of_encodes (encodes_getOffsetResponse response)
      scans_getOffsetResponse _, rfl⟩
  | createTopic response =>
    cases htype
    exact ⟨_, carries_of_encodes (encodes_createTopicResponse response)
      scans_createTopicResponse _, rfl⟩
  | deleteTopic response =>
    cases htype
    exact ⟨_, carries_of_encodes (encodes_deleteTopicResponse response)
      scans_deleteTopicResponse _, rfl⟩
  | listTopics response =>
    cases htype
    exact ⟨_, carries_of_encodes (encodes_listTopicsResponse response)
      scans_listTopicsResponse _, rfl⟩
  | healthCheck response =>
    cases htype
    exact ⟨_, carries_of_encodes (encodes_healthCheckResponse response)
      scans_healthCheckResponse _, rfl⟩
  | _ => cases hplain

/-- What a client decodes from an encoded response is the response, without
the fields that are not written. -/
theorem received_of_encodeResponse (hanswers : response.Answers type)
    (hencode : encodeResponse crc order response = .returned (.ok bytes)) :
    Received crc response type.code bytes response.payload.carried := by
  unfold Response.Answers at hanswers
  split at hanswers
  next hstatus =>
    cases hencoder : response.payload.encoder? with
    | none =>
      obtain ⟨_, hcarries, hhand⟩ :=
        ResponsePayload.carries_hand hanswers hencoder order
      obtain ⟨_, hsize, hframe⟩ := encodeResponse_eq_ok hencode
      simp only [calculateResponsePayloadSize, hstatus, ne_eq,
        not_true_eq_false, ↓reduceIte, hencoder, hhand,
        Outcome.returned.injEq, checkedPayloadSize_eq_ok] at hsize
      simp only [encodeResponsePayload, hstatus, ne_eq, not_true_eq_false,
        ↓reduceIte, hencoder] at hframe
      obtain ⟨hrange, rfl⟩ := hsize
      exact received_of_framed hstatus
        (hcarries.framed hrange (writes_responseHeader response.header) hframe)
    | some encoder =>
      obtain ⟨header, payload⟩ := response
      cases payload with
      | joinGroup response | syncGroup response | heartbeat response
      | leaveGroup response | offsetCommit response | offsetFetch response
      | initProducerId response | addPartitionsToTxn response
      | addOffsetsToTxn response | endTxn response | txnOffsetCommit response
      | findCoordinator response =>
        cases hanswers
        exact received_of_selfDescribing _ response hstatus rfl rfl hencode
      | _ => cases hencoder
  next hstatus =>
    obtain ⟨message, hpayload⟩ := hanswers
    have hreceived := received_error type.code hstatus hpayload hencode
    rw [hpayload] at hreceived ⊢
    exact hreceived

/-- All that clients may read is written, save the answer to an offset query
and the partition of a fetch. -/
theorem ResponsePayload.seen_carried_iff (payload : ResponsePayload) :
    payload.carried.seen = payload.seen ↔ (∀ response, payload = .getOffset response →
        response.offset = 0 ∧ response.timestamp = 0) ∧
      ∀ response, payload = .fetch response →
        response.topic = [] ∧ response.partitionId = 0 := by
  cases payload with
  | getOffset response =>
    simp [carried, seen, eq_comm]
  | fetch response =>
    obtain ⟨topic, partitionId, highWaterMark, messages, lastStableOffset,
      nextOffset⟩ := response
    simp [carried, seen, eq_comm]
  | _ => simp [carried, seen]

/-- A response that was encoded reaches the client with all that it may read,
unless it is the answer to an offset query or a fetch of a partition. -/
theorem responseRoundTrips_iff {crc : Bytes → UInt32} {order : HeaderOrder}
    {response : Response} {type : RequestType} {bytes : Bytes}
    (hanswers : response.Answers type)
    (hencode : encodeResponse crc order response = .returned (.ok bytes)) :
    ResponseRoundTrips crc response type bytes ↔
      (∀ offsets, response.payload = .getOffset offsets →
        offsets.offset = 0 ∧ offsets.timestamp = 0) ∧
      ∀ page, response.payload = .fetch page →
        page.topic = [] ∧ page.partitionId = 0 := by
  have hreceived := received_of_encodeResponse hanswers hencode
  rw [← seen_carried_iff]
  constructor
  · intro hround
    obtain ⟨decoded, hdecode, _, hpayload⟩ := hround []
    rw [hreceived] at hdecode
    cases hdecode
    exact hpayload
  · intro hseen rest
    exact ⟨_, hreceived rest, rfl, hseen⟩

/-- An answer that tells the health of the broker. -/
def healthyResponse : Response :=
  ⟨⟨1, statusOk, 0⟩, .healthCheck ⟨[111, 107], 60⟩⟩

def healthyBytes : Bytes :=
  [0, 0, 0, 29, 0, 0, 0, 0, 0, 0, 0, 1, 0, 0, 0, 0, 0, 0, 2, 111, 107,
    0, 0, 0, 0, 0, 0, 0, 60, 0, 0, 0, 0]

theorem responseRoundTrips_iff_healthy : healthyResponse.Answers .healthCheck ∧
      encodeResponse (fun _ => 0) .byName healthyResponse =
        .returned (.ok healthyBytes) ∧
      ResponseRoundTrips (fun _ => 0) healthyResponse .healthCheck
        healthyBytes := by
  have hanswers : healthyResponse.Answers .healthCheck := rfl
  have hencode : encodeResponse (fun _ => 0) .byName healthyResponse =
      .returned (.ok healthyBytes) := by decide +kernel
  exact ⟨hanswers, hencode,
    (responseRoundTrips_iff hanswers hencode).mpr ⟨nofun, nofun⟩⟩

/-- An answer that the first record from a time on is at offset 5. -/
def offsetResponse : Response :=
  ⟨⟨1, statusOk, 0⟩, .getOffset ⟨[116], 2, 0, 9, 9, 5, 1700, 0⟩⟩

def offsetBytes : Bytes :=
  [0, 0, 0, 48, 0, 0, 0, 0, 0, 0, 0, 1, 0, 0, 0, 0, 0, 0, 1, 116,
    0, 0, 0, 2, 0, 0, 0, 0, 0, 0, 0, 0, 0, 0, 0, 0, 0, 0, 0, 9,
    0, 0, 0, 0, 0, 0, 0, 9, 0, 0, 0, 0]

/-- The answer to an offset query reaches the client as offset 0. -/
theorem offsetResponse_not_roundTrips : offsetResponse.Answers .getOffset ∧
      encodeResponse (fun _ => 0) .byName offsetResponse =
        .returned (.ok offsetBytes) ∧
      receiveResponse (fun _ => 0) offsetBytes 0x03 = .returned (.ok
        (⟨offsetResponse.header, .getOffset ⟨[116], 2, 0, 9, 9, 0, 0, 0⟩⟩, [])) ∧
      ¬ResponseRoundTrips (fun _ => 0) offsetResponse .getOffset
        offsetBytes := by
  have hreceive : receiveResponse (fun _ => 0) offsetBytes 0x03 =
      .returned (.ok (⟨offsetResponse.header,
        .getOffset ⟨[116], 2, 0, 9, 9, 0, 0, 0⟩⟩, [])) := by decide +kernel
  refine ⟨rfl, by decide +kernel, hreceive, ?_⟩
  intro hround
  obtain ⟨decoded, hdecoded, _, hpayload⟩ := hround []
  cases hreceive.symm.trans hdecoded
  revert hpayload
  decide +kernel

end Streambus.Protocol
