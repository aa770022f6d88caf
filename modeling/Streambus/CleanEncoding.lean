/-
Encoding without a fault.  A frame is built in a buffer of a size computed
beforehand.  The size of a payload laid out by hand is checked; that of a
payload that describes itself counts as zero when it is out of range, and the
payload is then written beyond the end of the buffer.
-/
import Streambus.ResponseRoundTrip

namespace Streambus.Protocol

open List RequestPayload RequestType

variable (crc : Bytes → UInt32) {writer encoder : Writer}

/-- The encoding fails with an error, or is one frame whose length field counts
the bytes behind it. -/
def EncodesCleanly (outcome : Outcome (Except CodecError Bytes)) : Prop :=
  ∃ result, outcome = .returned result ∧ ∀ bytes, result = .ok bytes →
    ∃ body, bytes = frame crc body ∧ beNat (bytes.take 4) = (bytes.drop 4).length

theorem not_encodesCleanly_panicked : ¬EncodesCleanly crc .panicked := by
  rintro ⟨result, hresult, -⟩
  cases hresult

/-- The size pass counts no more bytes than a message may have. -/
def InRange (writer : Writer) : Prop :=
  ∀ after, writer ⟨none, 0⟩ = .returned ((), after) → after.position ≤ maxMessageSize

/-- A payload whose size is in range is written in so many bytes. -/
def Sized (writer : Writer) (size : Nat) : Prop :=
  size ≤ maxMessageSize → ∃ back : Bytes, back.length = size ∧ Fills writer back

theorem Carries.sized {α : Type} {size : Nat} {content : α}
    {decode : Slice → Outcome (Except CodecError α)}
    (hcarries : Carries decode writer size content) : Sized writer size := by
  intro hsize
  obtain ⟨back, hlength, hfills, -⟩ := hcarries hsize
  exact ⟨back, hlength, hfills⟩

theorem sized_empty : Sized (pure ()) 0 := fun _ => ⟨[], rfl, fills_pure⟩

/-- The types whose fields are laid out by hand. -/
def handTypes : List RequestType :=
  [.produce, .fetch, .getOffset, .createTopic, .deleteTopic]

/-- The payload is in range if it describes itself, and of the type in the
header if that type is laid out by hand. -/
structure Request.Encodable (request : Request) : Prop where
  typed : ∀ type ∈ handTypes,
    RequestType.ofCode request.header.type = some type → request.Matches
  inRange : isCoordinationRequest (RequestType.ofCode request.header.type) = true →
    ∀ encoder, request.payload.encoder? = some encoder → InRange encoder

/-- The payload of a success is in range if it describes itself, and that of a
failure is an error. -/
structure Response.Encodable (response : Response) : Prop where
  failed : response.header.status ≠ statusOk →
    ∃ error, response.payload = .error error
  inRange : response.header.status = statusOk →
    ∀ encoder, response.payload.encoder? = some encoder → InRange encoder

theorem inRange_iff {bytes : Bytes} (hwrites : Writes writer bytes) :
    InRange writer ↔ bytes.length ≤ maxMessageSize := by
  have hcounts := hwrites.counts 0
  rw [Nat.zero_add] at hcounts
  rw [InRange, hcounts]
  constructor
  · intro hrange
    exact hrange _ rfl
  · intro hle after hafter
    cases hafter
    exact hle

theorem beNat_take_frame {body : Bytes} (hsize : body.length + 4 ≤ maxMessageSize) :
    beNat ((frame crc body).take 4) = ((frame crc body).drop 4).length := by
  have hfield : (encodeFixed (UInt32.ofNat (body.length + 4))).length = 4 :=
    encodeFixed_length _
  rw [length_drop, frame_length, frame, append_assoc,
    take_left' hfield, beNat_frameLength hsize]
  omega

section

variable {crc : Bytes → UInt32} {header payload : Writer} {front back : Bytes}

theorem encodesCleanly_error (error : CodecError) :
    EncodesCleanly crc (.returned (.error error)) :=
  ⟨_, rfl, fun _ h => by cases h⟩

theorem encodesCleanly_of_fills (hheader : Writes header front)
    (hpayload : Fills payload back) :
    EncodesCleanly crc (encodeFrame crc (front.length + 8 + back.length) header
      (succeed payload)) := by
  rw [encodeFrame_eq crc (hheader.fills.bind hpayload) (by rw [length_append]; omega)]
  split_ifs with hlarge
  · exact encodesCleanly_error _
  · refine ⟨_, rfl, fun bytes hbytes => ?_⟩
    cases hbytes
    refine ⟨_, rfl, beNat_take_frame crc ?_⟩
    rw [length_append]
    omega

/-- A payload that describes itself is encoded cleanly exactly if it is in
range. -/
theorem encodesCleanly_measured_iff (hheader : Writes header front)
    (hfront : front.length + 8 ≤ maxMessageSize)
    (hpayload : ∃ back, Writes payload back) :
    EncodesCleanly crc (measurePayload payload >>= fun size =>
      encodeFrame crc (front.length + 8 + size) header (succeed payload)) ↔
        InRange payload := by
  obtain ⟨back, hpayload⟩ := hpayload
  rw [inRange_iff hpayload, measurePayload_of_writes hpayload]
  by_cases hrange : maxMessageSize < back.length
  · rw [if_pos hrange]
    have hpanics := encodeFrame_overruns crc hheader hpayload hfront hrange
    refine ⟨fun ⟨result, hresult, _⟩ => ?_, fun hle => by omega⟩
    cases hpanics.symm.trans hresult
  · rw [if_neg hrange]
    exact ⟨fun _ => by omega, fun _ => encodesCleanly_of_fills hheader hpayload.fills⟩

theorem encodesCleanly_of_sized {size : Nat} (hsized : Sized payload size)
    (hheader : Writes header front) :
    EncodesCleanly crc (match checkedPayloadSize size with
      | .error error => .returned (.error error)
      | .ok size =>
        encodeFrame crc (front.length + 8 + size) header (succeed payload)) := by
  rw [checkedPayloadSize]
  split_ifs with hlarge
  · exact encodesCleanly_error _
  · obtain ⟨back, hlength, hfills⟩ := hsized (Nat.not_lt.mp hlarge)
    rw [← hlength]
    exact encodesCleanly_of_fills hheader hfills

end

theorem exists_writes {α : Type} [SelfDescribing α] (content : α) :
    ∃ bytes, Writes (SelfDescribing.encodePayload content) bytes := by
  obtain ⟨bytes, -, hwrites, -⟩ := SelfDescribing.paired content
  exact ⟨bytes, hwrites⟩

theorem RequestPayload.writes_encoder {payload : RequestPayload}
    (hencoder : payload.encoder? = some encoder) :
    ∃ bytes, Writes encoder bytes := by
  cases payload with
  | joinGroup request | syncGroup request | heartbeat request
  | leaveGroup request | offsetCommit request | offsetFetch request
  | initProducerId request | addPartitionsToTxn request
  | addOffsetsToTxn request | endTxn request | txnOffsetCommit request
  | findCoordinator request =>
    cases hencoder
    exact exists_writes request
  | _ => cases hencoder

section

variable {crc : Bytes → UInt32} {order : HeaderOrder} {request : Request}

theorem encodesCleanly_handRequest {size : Nat} {writer : Writer}
    (hsized : Sized writer size)
    (hcalculate : calculateRequestPayloadSize request =
      .returned (checkedPayloadSize size))
    (hwriter : encodeRequestPayload order request = succeed writer) :
    EncodesCleanly crc (encodeRequest crc order request) := by
  have hclean : EncodesCleanly crc _ := encodesCleanly_of_sized hsized
    (writes_requestHeader request.header)
  rw [encodeRequest, hcalculate, hwriter]
  exact hclean

theorem encodesCleanly_of_matches (hmatches : request.Matches)
    (hplain : request.payload.encoder? = none) :
    EncodesCleanly crc (encodeRequest crc order request) := by
  obtain ⟨_, _, hcarries, hcalculate, hwriter⟩ :=
    carries_hand hmatches hplain order
  exact encodesCleanly_handRequest hcarries.sized hcalculate hwriter

/-- A payload laid out by hand must be of the type in the header. -/
theorem calculateRequestPayloadSize_mismatch {type : RequestType}
    (htype : RequestType.ofCode request.header.type = some type)
    (hhand : type ∈ handTypes) (hother : request.payload.type ≠ type) :
    calculateRequestPayloadSize request = .panicked := by
  obtain ⟨header, payload⟩ := request
  simp only [calculateRequestPayloadSize, handPayloadSize, htype]
  simp only [handTypes, mem_cons, not_mem_nil, or_false] at hhand
  rcases hhand with rfl | rfl | rfl | rfl | rfl <;> cases payload <;>
    first | rfl | exact absurd rfl hother

theorem RequestType.code_of_ofCode {code : UInt8} {type : RequestType}
    (htype : RequestType.ofCode code = some type) : code = type.code := by
  have := find?_some htype
  exact (of_decide_eq_true this).symm

theorem RequestPayload.encoder?_eq_none {payload : RequestPayload}
    (hplain : isCoordinationRequest (some payload.type) = false) :
    payload.encoder? = none := by
  cases payload <;> first | rfl | cases hplain

theorem encodesCleanly_untyped (hhand : ¬∃ type ∈ handTypes,
      RequestType.ofCode request.header.type = some type)
    (hplain : request.payload.encoder? = none ∨ isCoordinationRequest
      (RequestType.ofCode request.header.type) = false) :
    EncodesCleanly crc (encodeRequest crc order request) := by
  have hcalculate : calculateRequestPayloadSize request =
      handPayloadSize request.header request.payload := by
    rw [calculateRequestPayloadSize]
    rcases hplain with hplain | hplain
    · simp only [hplain]
    · simp only [hplain]
      cases request.payload.encoder? <;> rfl
  have hwriter : encodeRequestPayload order request =
      encodeHandPayload order request.header request.payload := by
    rw [encodeRequestPayload]
    rcases hplain with hplain | hplain
    · simp only [hplain]
    · simp only [hplain]
      cases request.payload.encoder? <;> rfl
  cases htype : RequestType.ofCode request.header.type with
  | none =>
    rw [encodeRequest, hcalculate]
    simp only [handPayloadSize, htype]
    exact encodesCleanly_error _
  | some type =>
    rw [htype] at hhand
    cases type with
    | produce | fetch | getOffset | createTopic | deleteTopic =>
      exact absurd ⟨_, by decide, rfl⟩ hhand
    | listTopics | healthCheck =>
      refine encodesCleanly_handRequest sized_empty ?_ ?_
      · rw [hcalculate]
        simp only [handPayloadSize, htype]
        rfl
      · rw [hwriter]
        simp only [encodeHandPayload, htype]
    | _ =>
      rw [encodeRequest, hcalculate]
      simp only [handPayloadSize, htype]
      exact encodesCleanly_error _

/-- A request is encoded cleanly exactly if its payload has the type it must
have and is in range. -/
theorem encodesCleanly_request_iff :
    EncodesCleanly crc (encodeRequest crc order request) ↔ request.Encodable := by
  by_cases hhand : ∃ type ∈ handTypes,
      RequestType.ofCode request.header.type = some type
  · obtain ⟨type, hmem, htype⟩ := hhand
    have hplain : isCoordinationRequest
        (RequestType.ofCode request.header.type) = false := by
      have hkinds : ∀ type ∈ handTypes,
          isCoordinationRequest (some type) = false := by decide
      rw [htype]
      exact hkinds type hmem
    by_cases hmatches : request.Matches
    · refine ⟨fun _ => ⟨fun _ _ _ => hmatches, fun h => ?_⟩,
        fun _ => encodesCleanly_of_matches hmatches ?_⟩
      · cases hplain.symm.trans h
      · rw [hmatches, ofCode_code] at hplain
        exact encoder?_eq_none hplain
    · have hother : request.payload.type ≠ type := by
        rintro rfl
        exact hmatches (code_of_ofCode htype)
      rw [encodeRequest, calculateRequestPayloadSize_mismatch htype hmem hother]
      exact ⟨fun h => absurd h (not_encodesCleanly_panicked crc),
        fun h => absurd (h.typed type hmem htype) hmatches⟩
  · have htyped : ∀ type ∈ handTypes,
        RequestType.ofCode request.header.type = some type → request.Matches :=
      fun type hmem htype => absurd ⟨type, hmem, htype⟩ hhand
    cases hencoder : request.payload.encoder? with
    | none =>
      refine ⟨fun _ => ⟨htyped, fun _ encoder h => ?_⟩,
        fun _ => encodesCleanly_untyped hhand (Or.inl hencoder)⟩
      cases hencoder.symm.trans h
    | some encoder =>
      cases hcoordination : isCoordinationRequest
          (RequestType.ofCode request.header.type) with
      | false =>
        refine ⟨fun _ => ⟨htyped, fun h => ?_⟩,
          fun _ => encodesCleanly_untyped hhand (Or.inr hcoordination)⟩
        cases hcoordination.symm.trans h
      | true =>
        have hmeasured : EncodesCleanly crc _ ↔ _ :=
          encodesCleanly_measured_iff (writes_requestHeader request.header)
            (by rw [RequestHeader.bytes_length]; decide)
            (writes_encoder hencoder)
        have hencode : encodeRequest crc order request =
            measurePayload encoder >>= fun size => encodeFrame crc
              (request.header.bytes.length + 8 + size)
              (encodeRequestHeader request.header) (succeed encoder) := by
          simp only [encodeRequest, calculateRequestPayloadSize,
            encodeRequestPayload, hencoder, hcoordination, bind_assoc, pure_bind]
          rfl
        rw [hencode, hmeasured]
        refine ⟨fun hrange => ⟨htyped, fun _ other h => ?_⟩,
          fun h => h.inRange hcoordination encoder hencoder⟩
        cases hencoder.symm.trans h
        exact hrange

end

theorem ResponsePayload.writes_encoder {payload : ResponsePayload}
    (hencoder : payload.encoder? = some encoder) :
    ∃ bytes, Writes encoder bytes := by
  cases payload with
  | joinGroup response | syncGroup response | heartbeat response
  | leaveGroup response | offsetCommit response | offsetFetch response
  | initProducerId response | addPartitionsToTxn response
  | addOffsetsToTxn response | endTxn response | txnOffsetCommit response
  | findCoordinator response =>
    cases hencoder
    exact exists_writes response
  | _ => cases hencoder

/-- Every payload laid out by hand has the size computed for it. -/
theorem ResponsePayload.handSize_sized (order : HeaderOrder)
    (payload : ResponsePayload) :
    ∃ size, payload.handSize = checkedPayloadSize size ∧
      Sized (payload.encodeHand order) size := by
  have hhand := fun type => @ResponsePayload.carries_hand type payload
  cases payload with
  | produce response | fetch response | getOffset response
  | createTopic response | deleteTopic response | listTopics response
  | healthCheck response =>
    obtain ⟨size, hcarries, hsize⟩ := hhand _ rfl rfl order
    exact ⟨size, hsize, hcarries.sized⟩
  | raw data => exact ⟨_, rfl, fun _ => ⟨data.data, rfl, fills_copyIn data.data⟩⟩
  | _ => exact ⟨0, rfl, sized_empty⟩

theorem sized_error (error : ErrorResponse) :
    Sized error.encode error.payloadSize := by
  refine fun _ => ⟨encodeFixed (wireLen error.message.length) ++ error.message,
    ?_, (fills_store _).bind (fills_copyIn error.message)⟩
  rw [length_append]
  rfl

/-- A response is encoded cleanly exactly if the payload of a success is in
range and that of a failure is an error. -/
theorem encodesCleanly_response_iff {crc : Bytes → UInt32} {order : HeaderOrder}
    {response : Response} :
    EncodesCleanly crc (encodeResponse crc order response) ↔ response.Encodable := by
  have hheader := writes_responseHeader response.header
  have hsized : ∀ {writer : Writer} {size : Nat}, Sized writer size →
      calculateResponsePayloadSize response = .returned (checkedPayloadSize size) →
      encodeResponsePayload order response = succeed writer →
        EncodesCleanly crc (encodeResponse crc order response) := by
    intro writer size hsized hcalculate hwriter
    have hclean : EncodesCleanly crc _ := encodesCleanly_of_sized hsized hheader
    rw [encodeResponse, hcalculate, hwriter]
    exact hclean
  by_cases hstatus : response.header.status = statusOk
  · cases hencoder : response.payload.encoder? with
    | none =>
      obtain ⟨size, hsize, hfills⟩ := response.payload.handSize_sized order
      refine ⟨fun _ => ⟨fun h => absurd hstatus h, fun _ encoder h => ?_⟩,
        fun _ => hsized hfills ?_ ?_⟩
      · cases hencoder.symm.trans h
      · simp only [calculateResponsePayloadSize, hstatus, ne_eq,
          not_true_eq_false, if_false, hencoder, hsize]
      · simp only [encodeResponsePayload, hstatus, ne_eq, not_true_eq_false,
          if_false, hencoder]
    | some encoder =>
      have hmeasured : EncodesCleanly crc _ ↔ _ :=
        encodesCleanly_measured_iff hheader
          (by rw [ResponseHeader.bytes_length]; decide)
          (ResponsePayload.writes_encoder hencoder)
      have hencode : encodeResponse crc order response =
          measurePayload encoder >>= fun size => encodeFrame crc
            (response.header.bytes.length + 8 + size)
            (encodeResponseHeader response.header) (succeed encoder) := by
        simp only [encodeResponse, calculateResponsePayloadSize,
          encodeResponsePayload, hstatus, ne_eq, not_true_eq_false, if_false,
          hencoder, bind_assoc, pure_bind]
        rfl
      rw [hencode, hmeasured]
      refine ⟨fun hrange => ⟨fun h => absurd hstatus h, fun _ other h => ?_⟩,
        fun h => h.inRange hstatus encoder hencoder⟩
      cases hencoder.symm.trans h
      exact hrange
  · by_cases herror : ∃ error, response.payload = .error error
    · obtain ⟨error, hpayload⟩ := herror
      refine ⟨fun _ => ⟨fun _ => ⟨error, hpayload⟩, fun h => absurd h hstatus⟩,
        fun _ => hsized (sized_error error) ?_ ?_⟩
      · simp only [calculateResponsePayloadSize, hstatus, ne_eq,
          not_false_eq_true, if_true, hpayload]
      · simp only [encodeResponsePayload, hstatus, ne_eq, not_false_eq_true,
          if_true, hpayload]
    · have hpanics : calculateResponsePayloadSize response = .panicked := by
        simp only [calculateResponsePayloadSize, hstatus, ne_eq,
          not_false_eq_true, if_true]
        cases hpayload : response.payload with
        | error error => exact absurd ⟨error, hpayload⟩ herror
        | _ => rfl
      rw [encodeResponse, hpanics]
      exact ⟨fun h => absurd h (not_encodesCleanly_panicked crc),
        fun h => absurd (h.failed hstatus) herror⟩

/-- Requests and responses are encoded without a fault and in one frame exactly
if their payloads have the type they must have and, where they describe
themselves, are in range. -/
theorem encodesCleanly_iff_encodable (crc : Bytes → UInt32) (order : HeaderOrder) :
    (∀ request, EncodesCleanly crc (encodeRequest crc order request) ↔
      request.Encodable) ∧
    ∀ response, EncodesCleanly crc (encodeResponse crc order response) ↔
      response.Encodable :=
  ⟨fun _ => encodesCleanly_request_iff, fun _ => encodesCleanly_response_iff⟩

/-- A heartbeat of a group with a name of so many bytes. -/
def longHeartbeat (count : Nat) : Request :=
  ⟨⟨0, RequestType.heartbeat.code, 1, 0⟩, .heartbeat ⟨List.replicate count 0, 0, []⟩⟩

theorem not_encodable_longHeartbeat {count : Nat} (hlong : maxMessageSize < count) :
    ¬(longHeartbeat count).Encodable := by
  intro hencodable
  have hrange : InRange _ := hencodable.inRange rfl _ rfl
  obtain ⟨field, -, hfield, -⟩ :=
    writes_arrayLen (List.replicate count (0 : UInt8)).length
  obtain ⟨last, -, hlast, -⟩ := paired_string []
  have hwrites := (hfield.bind (writes_store (List.replicate count 0))).bind
    ((writes_store (encodeFixed (0 : Int32))).bind hlast)
  have hle := (inRange_iff hwrites).mp hrange
  simp only [length_append, length_replicate] at hle
  omega

/-- A heartbeat of a group with a name of more than ten megabytes faults. -/
theorem not_encodesCleanly_longHeartbeat :
    ¬EncodesCleanly (fun _ => 0) (encodeRequest (fun _ => 0) HeaderOrder.byName
      (longHeartbeat (maxMessageSize + 1))) :=
  fun hclean => not_encodable_longHeartbeat (Nat.lt_succ_self _)
    (encodesCleanly_request_iff.mp hclean)

end Streambus.Protocol
