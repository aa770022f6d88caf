/-
The response codec.  An error response carries its message.  The payload of a
success is left as raw bytes when the response is decoded, and is read once
the type of the request it answers is given.  Each scan follows the layout of
what it reads, and each writer fills in a footprint of the size that was
computed for it.
-/
import Streambus.RequestCodec

namespace Streambus.Protocol

open List

structure ProduceResponse where
  topic : Bytes
  partitionId : UInt32
  baseOffset : Int64
  numMessages : UInt32
  highWaterMark : Int64
  leaderEpoch : Int64
deriving DecidableEq

/-- A page of messages, and where the next one starts. -/
structure FetchResponse where
  topic : Bytes
  partitionId : UInt32
  highWaterMark : Int64
  messages : List Message
  lastStableOffset : Int64
  nextOffset : Int64
deriving DecidableEq

/-- The offset and timestamp are the result of the query. -/
structure GetOffsetResponse where
  topic : Bytes
  partitionId : UInt32
  startOffset : Int64
  endOffset : Int64
  highWaterMark : Int64
  offset : Int64
  timestamp : Int64
  leaderEpoch : Int64
deriving DecidableEq

structure CreateTopicResponse where
  topic : Bytes
  created : Bool
  errorCode : ErrorCode
deriving DecidableEq

structure DeleteTopicResponse where
  topic : Bytes
  deleted : Bool
  errorCode : ErrorCode
deriving DecidableEq

structure TopicInfo where
  name : Bytes
  numPartitions : UInt32
deriving DecidableEq

structure ListTopicsResponse where
  topics : List TopicInfo
deriving DecidableEq

structure HealthCheckResponse where
  status : Bytes
  uptime : Int64
deriving DecidableEq

/-- What a response that is no success carries. -/
structure ErrorResponse where
  errorCode : ErrorCode
  message : Bytes
deriving DecidableEq

inductive ResponsePayload where
  | missing
  | raw (data : Slice)
  | error (response : ErrorResponse)
  | produce (response : ProduceResponse)
  | fetch (response : FetchResponse)
  | getOffset (response : GetOffsetResponse)
  | createTopic (response : CreateTopicResponse)
  | deleteTopic (response : DeleteTopicResponse)
  | listTopics (response : ListTopicsResponse)
  | healthCheck (response : HealthCheckResponse)
  | joinGroup (response : JoinGroupResponse)
  | syncGroup (response : SyncGroupResponse)
  | heartbeat (response : HeartbeatResponse)
  | leaveGroup (response : LeaveGroupResponse)
  | offsetCommit (response : OffsetCommitResponse)
  | offsetFetch (response : OffsetFetchResponse)
  | initProducerId (response : InitProducerIdResponse)
  | addPartitionsToTxn (response : AddPartitionsToTxnResponse)
  | addOffsetsToTxn (response : AddOffsetsToTxnResponse)
  | endTxn (response : EndTxnResponse)
  | txnOffsetCommit (response : TxnOffsetCommitResponse)
  | findCoordinator (response : FindCoordinatorResponse)
deriving DecidableEq

structure ResponseHeader where
  requestId : UInt64
  status : UInt8
  errorCode : ErrorCode
deriving DecidableEq

structure Response where
  header : ResponseHeader
  payload : ResponsePayload
deriving DecidableEq

def statusOk : UInt8 := 0

/-- The bytes of a frame around the payload. -/
def responseHeaderSize : Nat := 19

/-- The writer of a payload that describes itself. -/
def ResponsePayload.encoder? : ResponsePayload → Option Writer
  | .joinGroup response => some response.encodePayload
  | .syncGroup response => some response.encodePayload
  | .heartbeat response => some response.encodePayload
  | .leaveGroup response => some response.encodePayload
  | .offsetCommit response => some response.encodePayload
  | .offsetFetch response => some response.encodePayload
  | .initProducerId response => some response.encodePayload
  | .addPartitionsToTxn response => some response.encodePayload
  | .addOffsetsToTxn response => some response.encodePayload
  | .endTxn response => some response.encodePayload
  | .txnOffsetCommit response => some response.encodePayload
  | .findCoordinator response => some response.encodePayload
  | _ => none

def ErrorResponse.payloadSize (response : ErrorResponse) : Nat :=
  4 + response.message.length

def FetchResponse.payloadSize (response : FetchResponse) : Nat :=
  8 + 4 + (response.messages.map Message.size).sum + (8 + 8)

def GetOffsetResponse.payloadSize (response : GetOffsetResponse) : Nat :=
  4 + response.topic.length + 4 + 8 + 8 + 8

def CreateTopicResponse.payloadSize (response : CreateTopicResponse) : Nat :=
  4 + response.topic.length + 1

def DeleteTopicResponse.payloadSize (response : DeleteTopicResponse) : Nat :=
  4 + response.topic.length + 1

def TopicInfo.size (topic : TopicInfo) : Nat := 4 + topic.name.length + 4

def ListTopicsResponse.payloadSize (response : ListTopicsResponse) : Nat :=
  4 + (response.topics.map TopicInfo.size).sum

def HealthCheckResponse.payloadSize (response : HealthCheckResponse) : Nat :=
  4 + response.status.length + 8

/-- The size of a payload laid out by hand. -/
def ResponsePayload.handSize : ResponsePayload → Except CodecError Nat
  | .produce _ => .ok (8 + 4 + 8)
  | .fetch response => checkedPayloadSize response.payloadSize
  | .getOffset response => checkedPayloadSize response.payloadSize
  | .createTopic response => checkedPayloadSize response.payloadSize
  | .deleteTopic response => checkedPayloadSize response.payloadSize
  | .listTopics response => checkedPayloadSize response.payloadSize
  | .healthCheck response => checkedPayloadSize response.payloadSize
  | .raw data => checkedPayloadSize data.data.length
  | _ => .ok 0

/-- A response that is not a success must carry an error. -/
def calculateResponsePayloadSize (response : Response) :
    Outcome (Except CodecError Nat) :=
  if response.header.status ≠ statusOk then
    match response.payload with
    | .error error => .returned (checkedPayloadSize error.payloadSize)
    | _ => .panicked
  else
    match response.payload.encoder? with
    | some encoder => do
        let size ← measurePayload encoder
        return .ok size
    | none => .returned response.payload.handSize

def putFlag (flag : Bool) : Writer :=
  store (encodeFixed (if flag then 1 else 0 : UInt8))

def ErrorResponse.encode (response : ErrorResponse) : Writer :=
  putBlob response.message

def ProduceResponse.encode (response : ProduceResponse) : Writer := do
  store (encodeFixed response.baseOffset)
  store (encodeFixed response.numMessages)
  store (encodeFixed response.highWaterMark)

variable (order : HeaderOrder)

/-- The part of a fetch response that every version has. -/
def FetchResponse.encodePage (response : FetchResponse) :
    Writer := do
  store (encodeFixed response.highWaterMark)
  putMessages order response.messages

def FetchResponse.encode (response : FetchResponse) :
    Writer := do
  response.encodePage order
  store (encodeFixed response.lastStableOffset)
  store (encodeFixed response.nextOffset)

def GetOffsetResponse.encode (response : GetOffsetResponse) : Writer := do
  putBlob response.topic
  store (encodeFixed response.partitionId)
  store (encodeFixed response.startOffset)
  store (encodeFixed response.endOffset)
  store (encodeFixed response.highWaterMark)

def CreateTopicResponse.encode (response : CreateTopicResponse) : Writer := do
  putBlob response.topic
  putFlag response.created

def DeleteTopicResponse.encode (response : DeleteTopicResponse) : Writer := do
  putBlob response.topic
  putFlag response.deleted

def TopicInfo.encode (topic : TopicInfo) : Writer := do
  putBlob topic.name
  store (encodeFixed topic.numPartitions)

def ListTopicsResponse.encode (response : ListTopicsResponse) : Writer := do
  putWireLen response.topics.length
  Program.forEach TopicInfo.encode response.topics

def HealthCheckResponse.encode (response : HealthCheckResponse) : Writer := do
  putBlob response.status
  store (encodeFixed response.uptime)

/-- Write a payload laid out by hand. -/
def ResponsePayload.encodeHand : ResponsePayload → Writer
  | .produce response => response.encode
  | .fetch response => response.encode order
  | .getOffset response => response.encode
  | .createTopic response => response.encode
  | .deleteTopic response => response.encode
  | .listTopics response => response.encode
  | .healthCheck response => response.encode
  | .raw data => copyIn data.data
  | _ => pure ()

def encodeResponsePayload (response : Response) :
    Program Buffer (Except CodecError Unit) :=
  if response.header.status ≠ statusOk then
    match response.payload with
    | .error error => succeed error.encode
    | _ => Program.panic
  else
    match response.payload.encoder? with
    | some encoder => succeed encoder
    | none => succeed (response.payload.encodeHand order)

def encodeResponseHeader (header : ResponseHeader) : Writer := do
  store (encodeFixed header.requestId)
  store (encodeFixed header.status)
  store (encodeFixed header.errorCode)

/-- The bytes of a response, whose headers are visited in the given order. -/
def encodeResponse (crc : Bytes → UInt32) (order : HeaderOrder)
    (response : Response) : Outcome (Except CodecError Bytes) := do
  match ← calculateResponsePayloadSize response with
  | .error error => return .error error
  | .ok payloadSize =>
    encodeFrame crc (responseHeaderSize + payloadSize)
      (encodeResponseHeader response.header)
      (encodeResponsePayload order response)

def decodeResponseHeader : Scan ResponseHeader := do
  let requestId ← scanFixed UInt64
  let status ← scanFixed UInt8
  let errorCode ← scanFixed UInt16
  return ⟨requestId, status, errorCode⟩

/-- The message of an error, if it is there and ends before the checksum. -/
def decodeErrorMessage (buf : Bytes) (offset : Nat) : Outcome Bytes := do
  let stop := buf.length - 4
  if offset < stop then
    let (count, cursor) ← scanFixed UInt32 ⟨⟨buf, []⟩, offset⟩
    if cursor.offset + count.toNat ≤ stop then
      let (message, _) ← scanSlice count.toNat cursor
      return message
    else return []
  else return []

/-- The first response of a stream, and the rest of the stream.  The payload
of a success is not read yet. -/
def decodeResponse (crc : Bytes → UInt32) (stream : Bytes) :
    Outcome (Except CodecError (Response × Bytes)) :=
  match readFrame crc stream with
  | .error error => .returned (.error error)
  | .ok (buf, rest) => do
      let (header, cursor) ← decodeResponseHeader ⟨⟨buf, []⟩, 0⟩
      if header.status ≠ statusOk then
        let message ← decodeErrorMessage buf cursor.offset
        return .ok (⟨header, .error ⟨header.errorCode, message⟩⟩, rest)
      else
        let data ← sliceOf buf cursor.offset (buf.length - 4)
        return .ok (⟨header, .raw data⟩, rest)

def decodeFlag : Scan Bool := do
  let byte ← scanFixed UInt8
  return byte == 1

def decodeProduceResponse : Scan ProduceResponse := do
  let baseOffset ← scanFixed Int64
  let numMessages ← scanFixed UInt32
  let highWaterMark ← scanFixed Int64
  return ⟨[], 0, baseOffset, numMessages, highWaterMark, 0⟩

def decodePage : Scan (Int64 × List Message) := do
  let highWaterMark ← scanFixed Int64
  let messages ← scanCounted decodeMessage
  return (highWaterMark, messages)

/-- The last stable offset and the next offset; a response of an older server
ends before them. -/
def decodeBounds (highWaterMark : Int64) : Scan (Int64 × Int64) := do
  if ← hasMore 8 then
    let lastStableOffset ← scanFixed Int64
    if ← hasMore 8 then
      let nextOffset ← scanFixed Int64
      return (lastStableOffset, nextOffset)
    else return (lastStableOffset, -1)
  else return (highWaterMark, -1)

def decodeFetchResponse : Scan FetchResponse := do
  let (highWaterMark, messages) ← decodePage
  let (lastStableOffset, nextOffset) ← decodeBounds highWaterMark
  return ⟨[], 0, highWaterMark, messages, lastStableOffset, nextOffset⟩

def decodeGetOffsetResponse : Scan GetOffsetResponse := do
  let topic ← scanBlob
  let partitionId ← scanFixed UInt32
  let startOffset ← scanFixed Int64
  let endOffset ← scanFixed Int64
  let highWaterMark ← scanFixed Int64
  return ⟨topic, partitionId, startOffset, endOffset, highWaterMark, 0, 0, 0⟩

def decodeCreateTopicResponse : Scan CreateTopicResponse := do
  let topic ← scanBlob
  let created ← decodeFlag
  return ⟨topic, created, 0⟩

def decodeDeleteTopicResponse : Scan DeleteTopicResponse := do
  let topic ← scanBlob
  let deleted ← decodeFlag
  return ⟨topic, deleted, 0⟩

def decodeTopicInfo : Scan TopicInfo := do
  let name ← scanBlob
  let numPartitions ← scanFixed UInt32
  return ⟨name, numPartitions⟩

def decodeListTopicsResponse : Scan ListTopicsResponse := do
  let topics ← scanCounted decodeTopicInfo
  return ⟨topics⟩

def decodeHealthCheckResponse : Scan HealthCheckResponse := do
  let status ← scanBlob
  let uptime ← scanFixed Int64
  return ⟨status, uptime⟩

/-- The reader of the response to a coordination request, if the type is
one. -/
def newCoordinationResponse : RequestType → Option (PayloadRead ResponsePayload)
  | .joinGroup => some (readAs .joinGroup)
  | .syncGroup => some (readAs .syncGroup)
  | .heartbeat => some (readAs .heartbeat)
  | .leaveGroup => some (readAs .leaveGroup)
  | .offsetCommit => some (readAs .offsetCommit)
  | .offsetFetch => some (readAs .offsetFetch)
  | .initProducerId => some (readAs .initProducerId)
  | .addPartitionsToTxn => some (readAs .addPartitionsToTxn)
  | .addOffsetsToTxn => some (readAs .addOffsetsToTxn)
  | .endTxn => some (readAs .endTxn)
  | .txnOffsetCommit => some (readAs .txnOffsetCommit)
  | .findCoordinator => some (readAs .findCoordinator)
  | _ => none

/-- The payloads that are laid out by hand, by the type of the request. -/
def decodeHandResponse (data : Slice) (type : RequestType) :
    Outcome (Except CodecError ResponsePayload) :=
  match type with
  | .produce => scanAs decodeProduceResponse .produce data
  | .fetch => scanAs decodeFetchResponse .fetch data
  | .getOffset => scanAs decodeGetOffsetResponse .getOffset data
  | .createTopic => scanAs decodeCreateTopicResponse .createTopic data
  | .deleteTopic => scanAs decodeDeleteTopicResponse .deleteTopic data
  | .listTopics => scanAs decodeListTopicsResponse .listTopics data
  | .healthCheck => scanAs decodeHealthCheckResponse .healthCheck data
  | _ => .returned (.error (.unknownRequestType type.code))

def decodeResponseData (data : Slice) (code : UInt8) :
    Outcome (Except CodecError ResponsePayload) :=
  match RequestType.ofCode code with
  | none => .returned (.error (.unknownRequestType code))
  | some type =>
    match newCoordinationResponse type with
    | some read => decodeSelfDescribing read (.malformedResponse code) data
    | none => decodeHandResponse data type

/-- Read the payload of a response to a request of the given type, unless it
is read already. -/
def decodeResponsePayload (response : Response) (code : UInt8) :
    Outcome (Except CodecError Response) :=
  match response.payload with
  | .raw data => do
      let decoded ← decodeResponseData data code
      return decoded.map fun payload => { response with payload }
  | _ => .returned (.ok response)

/-- What a client does with the stream after a request of the given type. -/
def receiveResponse (crc : Bytes → UInt32) (stream : Bytes) (code : UInt8) :
    Outcome (Except CodecError (Response × Bytes)) := do
  match ← decodeResponse crc stream with
  | .error error => return .error error
  | .ok (response, rest) =>
    let decoded ← decodeResponsePayload response code
    return decoded.map fun response => (response, rest)

def flagLayout : Layout Bool := do
  let byte ← Layout.fixed UInt8
  pure (byte == 1)

def produceResponseLayout : Layout ProduceResponse := do
  let baseOffset ← Layout.fixed Int64
  let numMessages ← Layout.fixed UInt32
  let highWaterMark ← Layout.fixed Int64
  pure ⟨[], 0, baseOffset, numMessages, highWaterMark, 0⟩

/-- The bytes that a page is read from. -/
def pageLayout : Layout (Int64 × List Message) := do
  let highWaterMark ← Layout.fixed Int64
  let messages ← Layout.counted messageLayout
  pure (highWaterMark, messages)

def getOffsetResponseLayout : Layout GetOffsetResponse := do
  let topic ← Layout.blob
  let partitionId ← Layout.fixed UInt32
  let startOffset ← Layout.fixed Int64
  let endOffset ← Layout.fixed Int64
  let highWaterMark ← Layout.fixed Int64
  pure ⟨topic, partitionId, startOffset, endOffset, highWaterMark, 0, 0, 0⟩

def createTopicResponseLayout : Layout CreateTopicResponse := do
  let topic ← Layout.blob
  let created ← flagLayout
  pure ⟨topic, created, 0⟩

def deleteTopicResponseLayout : Layout DeleteTopicResponse := do
  let topic ← Layout.blob
  let deleted ← flagLayout
  pure ⟨topic, deleted, 0⟩

def topicInfoLayout : Layout TopicInfo := do
  let name ← Layout.blob
  let numPartitions ← Layout.fixed UInt32
  pure ⟨name, numPartitions⟩

def listTopicsResponseLayout : Layout ListTopicsResponse := do
  let topics ← Layout.counted topicInfoLayout
  pure ⟨topics⟩

def healthCheckResponseLayout : Layout HealthCheckResponse := do
  let status ← Layout.blob
  let uptime ← Layout.fixed Int64
  pure ⟨status, uptime⟩

theorem scans_flag : Scans decodeFlag flagLayout := by
  apply (scans_fixed UInt8).bind
  intro byte
  exact scans_pure _

theorem scans_produceResponse :
    Scans decodeProduceResponse produceResponseLayout := by
  apply (scans_fixed Int64).bind
  intro baseOffset
  apply (scans_fixed UInt32).bind
  intro numMessages
  apply (scans_fixed Int64).bind
  intro highWaterMark
  exact scans_pure _

theorem scans_page : Scans decodePage pageLayout := by
  apply (scans_fixed Int64).bind
  intro highWaterMark
  apply (scans_counted scans_message).bind
  intro messages
  exact scans_pure _

theorem scans_getOffsetResponse :
    Scans decodeGetOffsetResponse getOffsetResponseLayout := by
  apply scans_blob.bind
  intro topic
  apply (scans_fixed UInt32).bind
  intro partitionId
  apply (scans_fixed Int64).bind
  intro startOffset
  apply (scans_fixed Int64).bind
  intro endOffset
  apply (scans_fixed Int64).bind
  intro highWaterMark
  exact scans_pure _

theorem scans_createTopicResponse :
    Scans decodeCreateTopicResponse createTopicResponseLayout := by
  apply scans_blob.bind
  intro topic
  apply scans_flag.bind
  intro created
  exact scans_pure _

theorem scans_deleteTopicResponse :
    Scans decodeDeleteTopicResponse deleteTopicResponseLayout := by
  apply scans_blob.bind
  intro topic
  apply scans_flag.bind
  intro deleted
  exact scans_pure _

theorem scans_topicInfo : Scans decodeTopicInfo topicInfoLayout := by
  apply scans_blob.bind
  intro name
  apply (scans_fixed UInt32).bind
  intro numPartitions
  exact scans_pure _

theorem scans_listTopicsResponse :
    Scans decodeListTopicsResponse listTopicsResponseLayout := by
  apply (scans_counted scans_topicInfo).bind
  intro topics
  exact scans_pure _

theorem scans_healthCheckResponse :
    Scans decodeHealthCheckResponse healthCheckResponseLayout := by
  apply scans_blob.bind
  intro status
  apply (scans_fixed Int64).bind
  intro uptime
  exact scans_pure _

theorem encodes_flag (flag : Bool) :
    Encodes maxArrayLen 1 (putFlag flag) flagLayout flag := by
  cases flag with
  | false => exact (encodes_fixed (0 : UInt8)).map fun byte => byte == 1
  | true => exact (encodes_fixed (1 : UInt8)).map fun byte => byte == 1

theorem encodes_produceResponse (response : ProduceResponse) :
    Encodes maxArrayLen (8 + (4 + 8)) response.encode produceResponseLayout
      { response with topic := [], partitionId := 0, leaderEpoch := 0 } := by
  apply (encodes_fixed response.baseOffset).bind
  apply (encodes_fixed response.numMessages).bind
  exact (encodes_fixed response.highWaterMark).map fun highWaterMark =>
    ProduceResponse.mk [] 0 response.baseOffset response.numMessages highWaterMark 0

theorem encodes_page (order : HeaderOrder) (response : FetchResponse) :
    Encodes maxArrayLen (8 + (4 + (response.messages.map Message.size).sum))
      (response.encodePage order) pageLayout
      (response.highWaterMark, response.messages) := by
  apply (encodes_fixed response.highWaterMark).bind
  exact (encodes_messages order response.messages).map _

/-- The answer to an offset query is not written. -/
theorem encodes_getOffsetResponse (response : GetOffsetResponse) :
    Encodes maxArrayLen response.payloadSize response.encode getOffsetResponseLayout
      { response with offset := 0, timestamp := 0, leaderEpoch := 0 } := by
  have hsize : response.payloadSize =
      4 + response.topic.length + (4 + (8 + (8 + 8))) := by
    rw [GetOffsetResponse.payloadSize]
  rw [hsize]
  apply (encodes_blob response.topic).bind
  apply (encodes_fixed response.partitionId).bind
  apply (encodes_fixed response.startOffset).bind
  apply (encodes_fixed response.endOffset).bind
  exact (encodes_fixed response.highWaterMark).map fun highWaterMark =>
    GetOffsetResponse.mk response.topic response.partitionId
      response.startOffset response.endOffset highWaterMark 0 0 0

theorem encodes_createTopicResponse (response : CreateTopicResponse) :
    Encodes maxArrayLen response.payloadSize response.encode
      createTopicResponseLayout { response with errorCode := 0 } := by
  apply (encodes_blob response.topic).bind
  exact (encodes_flag response.created).map fun created =>
    CreateTopicResponse.mk response.topic created 0

theorem encodes_deleteTopicResponse (response : DeleteTopicResponse) :
    Encodes maxArrayLen response.payloadSize response.encode
      deleteTopicResponseLayout { response with errorCode := 0 } := by
  apply (encodes_blob response.topic).bind
  exact (encodes_flag response.deleted).map fun deleted =>
    DeleteTopicResponse.mk response.topic deleted 0

theorem encodes_topicInfo (topic : TopicInfo) :
    Encodes maxArrayLen topic.size topic.encode topicInfoLayout topic := by
  apply (encodes_blob topic.name).bind
  exact (encodes_fixed topic.numPartitions).map _

theorem encodes_listTopicsResponse (response : ListTopicsResponse) :
    Encodes maxArrayLen response.payloadSize response.encode
      listTopicsResponseLayout response := by
  have hcount : response.topics.length ≤ (response.topics.map TopicInfo.size).sum :=
    length_le_sum_map fun topic _ => by unfold TopicInfo.size; omega
  exact (encodes_counted hcount
    (Encodes.forEach fun topic _ => encodes_topicInfo topic)).map _

theorem encodes_healthCheckResponse (response : HealthCheckResponse) :
    Encodes maxArrayLen response.payloadSize response.encode
      healthCheckResponseLayout response := by
  apply (encodes_blob response.status).bind
  exact (encodes_fixed response.uptime).map _

def ResponseHeader.bytes (header : ResponseHeader) : Bytes :=
  encodeFixed header.requestId ++ (encodeFixed header.status ++
    encodeFixed header.errorCode)

@[simp] theorem ResponseHeader.bytes_length (header : ResponseHeader) :
    header.bytes.length = 11 := by
  rfl

theorem writes_responseHeader (header : ResponseHeader) :
    Writes (encodeResponseHeader header) header.bytes :=
  (writes_store _).bind ((writes_store _).bind (writes_store _))

def responseHeaderLayout : Layout ResponseHeader := do
  let requestId ← Layout.fixed UInt64
  let status ← Layout.fixed UInt8
  let errorCode ← Layout.fixed UInt16
  pure ⟨requestId, status, errorCode⟩

theorem responseHeaderLayout_bytes (header : ResponseHeader) :
    responseHeaderLayout header (Footprint.solid header.bytes) := by
  refine ⟨header.requestId, _, _, rfl, ⟨header.status, _, _, rfl,
    ⟨header.errorCode, _, _, rfl, ⟨rfl, rfl⟩, rfl⟩, rfl⟩, ?_⟩
  rfl

theorem scans_responseHeader : Scans decodeResponseHeader responseHeaderLayout := by
  apply (scans_fixed UInt64).bind
  intro requestId
  apply (scans_fixed UInt8).bind
  intro status
  apply (scans_fixed UInt16).bind
  intro errorCode
  exact scans_pure _

theorem decodeResponseHeader_run (header : ResponseHeader) (rest : Bytes) :
    decodeResponseHeader ⟨⟨header.bytes ++ rest, []⟩, 0⟩ =
      .returned (header, ⟨⟨header.bytes ++ rest, []⟩, 11⟩) := by
  have hreads := scans_responseHeader.reads
    (responseHeaderLayout_bytes header) [] rest []
  simpa [Footprint.solid] using hreads

variable {header : ResponseHeader} (crc : Bytes → UInt32)

/-- The response in a frame, if it is a success. -/
theorem decodeResponse_frame (hstatus : header.status = statusOk) {payload : Bytes}
    (hsize : (header.bytes ++ payload).length + 4 ≤ maxMessageSize)
    (rest : Bytes) :
    decodeResponse crc (frame crc (header.bytes ++ payload) ++ rest) =
      .returned (.ok (⟨header, .raw ⟨payload,
        encodeFixed (crc (header.bytes ++ payload))⟩⟩, rest)) := by
  have hheader := decodeResponseHeader_run header
    (payload ++ encodeFixed (crc (header.bytes ++ payload)))
  rw [← append_assoc] at hheader
  have hslice := sliceOf_append header.bytes payload
    (encodeFixed (crc (header.bytes ++ payload)))
  rw [header.bytes_length] at hslice
  simp only [decodeResponse, readFrame_frame crc hsize, hheader, sealed_length]
  change (if header.status ≠ statusOk then _ else sliceOf _ 11 _ >>= _) = _
  rw [hslice, if_neg (not_not.mpr hstatus)]
  rfl

variable {message : Bytes} {count : UInt32}

/-- A message that ends before the checksum is found. -/
theorem decodeErrorMessage_run (front : Bytes) {back : Bytes}
    (hcount : count.toNat = message.length) (hback : back.length = 4) :
    decodeErrorMessage (front ++ (encodeFixed count ++ message) ++ back)
      front.length = .returned message := by
  have hwidth : (encodeFixed count).length = 4 := encodeFixed_length count
  have hstop : (front ++ (encodeFixed count ++ message) ++ back).length - 4 =
      front.length + 4 + message.length := by
    simp only [length_append]
    omega
  have hscan := scanFixed_run count front (message ++ back) []
  have hmessage : scanSlice count.toNat
      ⟨⟨front ++ (encodeFixed count ++ message) ++ back, []⟩,
        front.length + 4⟩ = .returned (message, ⟨⟨front ++
          (encodeFixed count ++ message) ++ back, []⟩,
            front.length + 4 + message.length⟩) := by
    have hslice := (scans_slice count.toNat).reads
      (show Layout.slice count.toNat message (Footprint.loose message) from
        ⟨hcount.symm, rfl⟩) (front ++ encodeFixed count) back []
    simpa only [Footprint.loose, append_assoc, length_append, hwidth] using hslice
  simp only [append_assoc] at hscan hmessage hstop ⊢
  simp only [decodeErrorMessage, hstop, hscan]
  rw [if_pos (by omega)]
  change (if front.length + 4 + count.toNat ≤ _ then
    scanSlice count.toNat ⟨_, front.length + 4⟩ >>= _ else _) = _
  rw [if_pos (by omega), hmessage]
  rfl

/-- The response in a frame, if it is an error. -/
theorem decodeResponse_frame_error (hstatus : header.status ≠ statusOk)
    (hcount : count.toNat = message.length)
    (hsize : (header.bytes ++ (encodeFixed count ++ message)).length + 4 ≤
      maxMessageSize) (rest : Bytes) :
    decodeResponse crc (frame crc (header.bytes ++
        (encodeFixed count ++ message)) ++ rest) =
      .returned (.ok (⟨header, .error ⟨header.errorCode, message⟩⟩, rest)) := by
  have hmessage := decodeErrorMessage_run header.bytes hcount
    (encodeFixed_length (crc (header.bytes ++ (encodeFixed count ++ message))))
  have hheader := decodeResponseHeader_run header (encodeFixed count ++
    message ++ encodeFixed (crc (header.bytes ++ (encodeFixed count ++ message))))
  rw [← append_assoc] at hheader
  rw [header.bytes_length] at hmessage
  simp only [decodeResponse, readFrame_frame crc hsize, hheader]
  change (if header.status ≠ statusOk then
    decodeErrorMessage _ 11 >>= _ else _) = _
  rw [hmessage, if_pos hstatus]
  rfl

end Streambus.Protocol
