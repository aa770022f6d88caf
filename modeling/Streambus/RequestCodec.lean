/-
The request codec.  The payloads of produce, fetch, offset and topic requests
are laid out by hand, in a size pass, a write pass and an unchecked read pass;
those of coordination requests describe themselves.  Each scan follows its
layout, and each writer fills in a footprint of the size that was computed for
it.  A frame whose checksum is right panics as soon as its header or a payload
laid out by hand is cut short; all else is answered by a request or an error.
-/
import Streambus.GroupPayloads
import Streambus.RecordFormat
import Streambus.WireFrame

namespace Streambus.Protocol

/-- A length for the wire; an impossible one becomes zero. -/
def wireLen (count : Nat) : UInt32 :=
  if maxArrayLen < count then 0 else UInt32.ofNat count

def putWireLen (count : Nat) : Writer := store (encodeFixed (wireLen count))

/-- A length field and the bytes. -/
def putBlob (bytes : Bytes) : Writer := do
  putWireLen bytes.length
  copyIn bytes

/-- A message of a request or a response.  Byte strings that are missing and
empty ones are the same. -/
structure Message where
  offset : Int64
  key : Bytes
  value : Bytes
  headers : OrderedMap Bytes Bytes
  timestamp : Int64
deriving DecidableEq

def headerEntrySize (header : Bytes × Bytes) : Nat :=
  4 + header.1.length + 4 + header.2.length

def Message.size (message : Message) : Nat :=
  8 + 4 + message.key.length + 4 + message.value.length + 8 + 4 +
    (message.headers.entries.map headerEntrySize).sum

/-- The order in which the headers of each message of a batch are visited. -/
structure HeaderOrder where
  visit : Nat → OrderedMap Bytes Bytes → List (Bytes × Bytes)
  visits : ∀ index headers, (visit index headers).Perm headers.entries

/-- Headers visited by name. -/
def HeaderOrder.byName : HeaderOrder :=
  ⟨fun _ headers => headers.entries, fun _ _ => List.Perm.refl _⟩

def encodeHeader (header : Bytes × Bytes) : Writer := do
  putBlob header.1
  putBlob header.2

def encodeMessage (visited : List (Bytes × Bytes)) (message : Message) :
    Writer := do
  store (encodeFixed message.offset)
  store (encodeFixed message.timestamp)
  putBlob message.key
  putBlob message.value
  putWireLen message.headers.entries.length
  Program.forEach encodeHeader visited

/-- The messages of a batch from an index on. -/
def encodeMessages (order : HeaderOrder) : Nat → List Message → Writer
  | _, [] => pure ()
  | index, message :: messages => do
      encodeMessage (order.visit index message.headers) message
      encodeMessages order (index + 1) messages

variable (order : HeaderOrder)

def putMessages (messages : List Message) :
    Writer := do
  putWireLen messages.length
  encodeMessages order 0 messages

/-- A count field and as many values. -/
def scanCounted {α : Type} (scan : Scan α) : Scan (List α) := do
  let count ← scanFixed UInt32
  Program.replicate count.toNat scan

def decodeHeader : Scan (Bytes × Bytes) := do
  let key ← scanBlob
  let value ← scanBlob
  return (key, value)

def decodeMessage : Scan Message := do
  let offset ← scanFixed Int64
  let timestamp ← scanFixed Int64
  let key ← scanBlob
  let value ← scanBlob
  let headers ← scanCounted decodeHeader
  return ⟨offset, key, value, OrderedMap.ofEntries headers, timestamp⟩

def headerLayout : Layout (Bytes × Bytes) := do
  let key ← Layout.blob
  let value ← Layout.blob
  pure (key, value)

/-- Headers may come in any order, and a name may come again; the last value
of a name counts. -/
def messageLayout : Layout Message := do
  let offset ← Layout.fixed Int64
  let timestamp ← Layout.fixed Int64
  let key ← Layout.blob
  let value ← Layout.blob
  let headers ← Layout.counted headerLayout
  pure ⟨offset, key, value, OrderedMap.ofEntries headers, timestamp⟩

theorem scans_counted {α : Type} {scan : Scan α} {layout : Layout α}
    (hscan : Scans scan layout) :
    Scans (scanCounted scan) (Layout.counted layout) :=
  (scans_fixed UInt32).bind fun count => hscan.replicate count.toNat

theorem scans_header : Scans decodeHeader headerLayout := by
  apply scans_blob.bind
  intro key
  apply scans_blob.bind
  intro value
  exact scans_pure _

theorem scans_message : Scans decodeMessage messageLayout := by
  apply (scans_fixed Int64).bind
  intro offset
  apply (scans_fixed Int64).bind
  intro timestamp
  apply scans_blob.bind
  intro key
  apply scans_blob.bind
  intro value
  apply (scans_counted scans_header).bind
  intro headers
  exact scans_pure _

theorem toNat_wireLen {count : Nat} (hcount : count ≤ maxArrayLen) :
    (wireLen count).toNat = count := by
  unfold maxArrayLen maxMessageSize at hcount
  simp only [wireLen, maxArrayLen, maxMessageSize, Nat.not_lt.mpr hcount, ↓reduceIte]
  exact UInt32.toNat_ofNat_of_lt' (Nat.lt_of_le_of_lt hcount (by decide))

theorem encodes_blob (bytes : Bytes) :
    Encodes maxArrayLen (4 + bytes.length) (putBlob bytes) Layout.blob
      bytes := by
  intro hsize
  have hcount := toNat_wireLen (show bytes.length ≤ maxArrayLen by omega)
  have hslice : Encodes maxArrayLen bytes.length (copyIn bytes)
      (Layout.slice (wireLen bytes.length).toNat) bytes :=
    fun _ => ⟨_, ⟨hcount.symm, rfl⟩, rfl, fills_copyIn bytes⟩
  exact (encodes_fixed (wireLen bytes.length)).bind hslice hsize

/-- A count field and the values, if the count fits the bound. -/
theorem encodes_counted {α : Type} {writer : Writer} {layout : Layout α}
    {values : List α} {size : Nat} (hcount : values.length ≤ size)
    (hwriter : Encodes maxArrayLen size writer
      (layout.replicate values.length) values) :
    Encodes maxArrayLen (4 + size)
      (putWireLen values.length >>= fun _ => writer) (Layout.counted layout)
      values := by
  intro hsize
  have hnat := toNat_wireLen (show values.length ≤ maxArrayLen by omega)
  rw [← hnat] at hwriter
  exact (encodes_fixed (wireLen values.length)).bind hwriter hsize

theorem encodes_header (header : Bytes × Bytes) :
    Encodes maxArrayLen (headerEntrySize header) (encodeHeader header) headerLayout
      header := by
  rw [headerEntrySize, Nat.add_assoc (4 + header.1.length)]
  apply (encodes_blob header.1).bind
  exact (encodes_blob header.2).map _

theorem length_le_sum_map {α : Type} {size : α → Nat} {values : List α}
    (hsize : ∀ value ∈ values, 1 ≤ size value) :
    values.length ≤ (values.map size).sum := by
  induction values with
  | nil => exact le_refl 0
  | cons value values ih =>
    simp only [List.forall_mem_cons] at hsize
    have hrest := ih hsize.2
    simp only [List.length_cons, List.map_cons, List.sum_cons]
    omega

theorem encodes_message {visited : List (Bytes × Bytes)} {message : Message}
    (hvisited : visited.Perm message.headers.entries) :
    Encodes maxArrayLen message.size (encodeMessage visited message)
      messageLayout message := by
  have hheaders : OrderedMap.ofEntries visited = message.headers :=
    OrderedMap.ofEntries_of_perm hvisited
  have hsum : (message.headers.entries.map headerEntrySize).sum =
      (visited.map headerEntrySize).sum := (hvisited.map headerEntrySize).sum_eq.symm
  have hbody : Encodes maxArrayLen (visited.map headerEntrySize).sum
      (Program.forEach encodeHeader visited)
      (headerLayout.replicate visited.length) visited :=
    Encodes.forEach fun header _ => encodes_header header
  have hcount : visited.length ≤ (visited.map headerEntrySize).sum :=
    length_le_sum_map fun header _ => by unfold headerEntrySize; omega
  have hsize : message.size = 8 + (8 + (4 + message.key.length +
      (4 + message.value.length + (4 + (visited.map headerEntrySize).sum)))) := by
    rw [Message.size]
    omega
  rw [hsize]
  apply (encodes_fixed message.offset).bind
  apply (encodes_fixed message.timestamp).bind
  apply (encodes_blob message.key).bind
  apply (encodes_blob message.value).bind
  rw [← hvisited.length_eq]
  have hlast := (encodes_counted hcount hbody).map fun headers =>
    Message.mk message.offset message.key message.value
      (OrderedMap.ofEntries headers) message.timestamp
  rwa [hheaders] at hlast

theorem encodes_encodeMessages (index : Nat) (messages : List Message) :
    Encodes maxArrayLen (messages.map Message.size).sum
      (encodeMessages order index messages)
      (messageLayout.replicate messages.length) messages := by
  induction messages generalizing index with
  | nil => exact encodes_pure []
  | cons message messages ih =>
    apply (encodes_message (order.visits index message.headers)).bind
    exact (ih (index + 1)).map (List.cons message)

theorem encodes_messages (messages : List Message) :
    Encodes maxArrayLen (4 + (messages.map Message.size).sum)
      (putMessages order messages) (Layout.counted messageLayout)
      messages := by
  apply encodes_counted
  · exact length_le_sum_map fun message _ => by unfold Message.size; omega
  · exact encodes_encodeMessages order 0 messages

/-- The known request types. -/
inductive RequestType where
  | produce
  | fetch
  | getOffset
  | createTopic
  | deleteTopic
  | listTopics
  | healthCheck
  | joinGroup
  | syncGroup
  | heartbeat
  | leaveGroup
  | offsetCommit
  | offsetFetch
  | initProducerId
  | addPartitionsToTxn
  | addOffsetsToTxn
  | endTxn
  | txnOffsetCommit
  | findCoordinator
deriving Repr, DecidableEq

namespace RequestType

def code : RequestType → UInt8
  | produce => 0x01
  | fetch => 0x02
  | getOffset => 0x03
  | createTopic => 0x04
  | deleteTopic => 0x05
  | listTopics => 0x06
  | healthCheck => 0x07
  | joinGroup => 0x08
  | syncGroup => 0x09
  | heartbeat => 0x0A
  | leaveGroup => 0x0B
  | offsetCommit => 0x0C
  | offsetFetch => 0x0D
  | initProducerId => 0x0E
  | addPartitionsToTxn => 0x0F
  | addOffsetsToTxn => 0x10
  | endTxn => 0x11
  | txnOffsetCommit => 0x12
  | findCoordinator => 0x13

def all : List RequestType :=
  [produce, fetch, getOffset, createTopic, deleteTopic, listTopics,
    healthCheck, joinGroup, syncGroup, heartbeat, leaveGroup, offsetCommit,
    offsetFetch, initProducerId, addPartitionsToTxn, addOffsetsToTxn, endTxn,
    txnOffsetCommit, findCoordinator]

/-- The type of a code, if it is a known one. -/
def ofCode (code : UInt8) : Option RequestType :=
  all.find? fun type => type.code = code

@[simp] theorem ofCode_code (type : RequestType) : ofCode type.code = some type := by
  cases type <;> rfl

end RequestType

/-- A batch; the producer has ID zero outside transactions. -/
structure ProduceRequest where
  topic : Bytes
  partitionId : UInt32
  messages : List Message
  acks : Int16
  timeoutMs : Int32
  leaderEpoch : Int64
  producerId : Int64
  producerEpoch : Int16
deriving DecidableEq

/-- Where to read from, and up to how many bytes. -/
structure FetchRequest where
  topic : Bytes
  partitionId : UInt32
  offset : Int64
  maxBytes : UInt32
  isolationLevel : Int8
deriving DecidableEq

/-- The timestamp asks for the latest offset (-1), the earliest (-2 or 0), or
the first one from a time on. -/
structure GetOffsetRequest where
  topic : Bytes
  partitionId : UInt32
  timestamp : Int64
deriving DecidableEq

structure CreateTopicRequest where
  topic : Bytes
  numPartitions : UInt32
  replicationFactor : UInt16
deriving DecidableEq

structure DeleteTopicRequest where
  topic : Bytes
deriving DecidableEq

inductive RequestPayload where
  | produce (request : ProduceRequest)
  | fetch (request : FetchRequest)
  | getOffset (request : GetOffsetRequest)
  | createTopic (request : CreateTopicRequest)
  | deleteTopic (request : DeleteTopicRequest)
  | listTopics
  | healthCheck
  | joinGroup (request : JoinGroupRequest)
  | syncGroup (request : SyncGroupRequest)
  | heartbeat (request : HeartbeatRequest)
  | leaveGroup (request : LeaveGroupRequest)
  | offsetCommit (request : OffsetCommitRequest)
  | offsetFetch (request : OffsetFetchRequest)
  | initProducerId (request : InitProducerIdRequest)
  | addPartitionsToTxn (request : AddPartitionsToTxnRequest)
  | addOffsetsToTxn (request : AddOffsetsToTxnRequest)
  | endTxn (request : EndTxnRequest)
  | txnOffsetCommit (request : TxnOffsetCommitRequest)
  | findCoordinator (request : FindCoordinatorRequest)
deriving DecidableEq

structure RequestHeader where
  requestId : UInt64
  type : UInt8
  version : UInt8
  flags : UInt16
deriving DecidableEq

structure Request where
  header : RequestHeader
  payload : RequestPayload
deriving DecidableEq

/-- The bytes of a frame around the payload. -/
def headerSize : Nat := 20

/-- The writer of a payload that describes itself. -/
def RequestPayload.encoder? : RequestPayload → Option Writer
  | .produce _ => none
  | .fetch _ => none
  | .getOffset _ => none
  | .createTopic _ => none
  | .deleteTopic _ => none
  | .listTopics => none
  | .healthCheck => none
  | .joinGroup request => some request.encodePayload
  | .syncGroup request => some request.encodePayload
  | .heartbeat request => some request.encodePayload
  | .leaveGroup request => some request.encodePayload
  | .offsetCommit request => some request.encodePayload
  | .offsetFetch request => some request.encodePayload
  | .initProducerId request => some request.encodePayload
  | .addPartitionsToTxn request => some request.encodePayload
  | .addOffsetsToTxn request => some request.encodePayload
  | .endTxn request => some request.encodePayload
  | .txnOffsetCommit request => some request.encodePayload
  | .findCoordinator request => some request.encodePayload

/-- The reader of a coordination request, if the type is one. -/
def newCoordinationRequest : RequestType → Option (PayloadRead RequestPayload)
  | .joinGroup => some (readAs .joinGroup)
  | .syncGroup => some (readAs .syncGroup)
  | .heartbeat => some (readAs .heartbeat)
  | .leaveGroup => some (readAs .leaveGroup)
  | .offsetCommit => some (readAs .offsetCommit)
  | .offsetFetch => some (readAs .offsetFetch)
  | .initProducerId => some (readAs .initProducerId)
  | .addPartitionsToTxn => some (readAs .addPartitionsToTxn)
  | .addOffsetsToTxn => some (readAs .addOffsetsToTxn)
  | .endTxn => some (readAs .endTxn)
  | .txnOffsetCommit => some (readAs .txnOffsetCommit)
  | .findCoordinator => some (readAs .findCoordinator)
  | _ => none

def isCoordinationRequest (type : Option RequestType) : Bool :=
  (type.bind newCoordinationRequest).isSome

def ProduceRequest.payloadSize (request : ProduceRequest) : Nat :=
  4 + request.topic.length + 4 + 4 + (request.messages.map Message.size).sum + (8 + 2)

def FetchRequest.payloadSize (request : FetchRequest) : Nat :=
  4 + request.topic.length + 4 + 8 + 4 + 1

def GetOffsetRequest.payloadSize (request : GetOffsetRequest) : Nat :=
  4 + request.topic.length + 4

def CreateTopicRequest.payloadSize (request : CreateTopicRequest) : Nat :=
  4 + request.topic.length + 4 + 2

def DeleteTopicRequest.payloadSize (request : DeleteTopicRequest) : Nat :=
  4 + request.topic.length

/-- The size of a payload laid out by hand; a payload of another type than the
header says panics. -/
def handPayloadSize (header : RequestHeader) (payload : RequestPayload) :
    Outcome (Except CodecError Nat) :=
  match RequestType.ofCode header.type, payload with
  | some .produce, .produce request =>
    .returned (checkedPayloadSize request.payloadSize)
  | some .produce, _ => .panicked
  | some .fetch, .fetch request =>
    .returned (checkedPayloadSize request.payloadSize)
  | some .fetch, _ => .panicked
  | some .getOffset, .getOffset request =>
    .returned (checkedPayloadSize request.payloadSize)
  | some .getOffset, _ => .panicked
  | some .createTopic, .createTopic request =>
    .returned (checkedPayloadSize request.payloadSize)
  | some .createTopic, _ => .panicked
  | some .deleteTopic, .deleteTopic request =>
    .returned (checkedPayloadSize request.payloadSize)
  | some .deleteTopic, _ => .panicked
  | some .listTopics, _ => .returned (.ok 0)
  | some .healthCheck, _ => .returned (.ok 0)
  | _, _ => .returned (.error (.unknownRequestType header.type))

def calculateRequestPayloadSize (request : Request) :
    Outcome (Except CodecError Nat) :=
  let type := RequestType.ofCode request.header.type
  match request.payload.encoder?, isCoordinationRequest type with
  | some encoder, true => do
      let size ← measurePayload encoder
      return .ok size
  | _, _ => handPayloadSize request.header request.payload

variable (order : HeaderOrder)

/-- The part of a produce request that every version has. -/
def ProduceRequest.encodeBatch (request : ProduceRequest) : Writer := do
  putBlob request.topic
  store (encodeFixed request.partitionId)
  putMessages order request.messages

def ProduceRequest.encode (request : ProduceRequest) :
    Writer := do
  request.encodeBatch order
  store (encodeFixed request.producerId)
  store (encodeFixed request.producerEpoch)

/-- The part of a fetch request that every version has. -/
def FetchRequest.encodePosition (request : FetchRequest) : Writer := do
  putBlob request.topic
  store (encodeFixed request.partitionId)
  store (encodeFixed request.offset)
  store (encodeFixed request.maxBytes)

def FetchRequest.encode (request : FetchRequest) : Writer := do
  request.encodePosition
  store (encodeFixed request.isolationLevel)

def GetOffsetRequest.encode (request : GetOffsetRequest) : Writer := do
  putBlob request.topic
  store (encodeFixed request.partitionId)

def CreateTopicRequest.encode (request : CreateTopicRequest) : Writer := do
  putBlob request.topic
  store (encodeFixed request.numPartitions)
  store (encodeFixed request.replicationFactor)

def DeleteTopicRequest.encode (request : DeleteTopicRequest) : Writer :=
  putBlob request.topic

def encodeHandPayload (header : RequestHeader) (payload : RequestPayload) :
    Program Buffer (Except CodecError Unit) :=
  match RequestType.ofCode header.type, payload with
  | some .produce, .produce request => succeed (request.encode order)
  | some .produce, _ => Program.panic
  | some .fetch, .fetch request => succeed request.encode
  | some .fetch, _ => Program.panic
  | some .getOffset, .getOffset request => succeed request.encode
  | some .getOffset, _ => Program.panic
  | some .createTopic, .createTopic request => succeed request.encode
  | some .createTopic, _ => Program.panic
  | some .deleteTopic, .deleteTopic request => succeed request.encode
  | some .deleteTopic, _ => Program.panic
  | some .listTopics, _ => succeed (pure ())
  | some .healthCheck, _ => succeed (pure ())
  | _, _ => pure (.error (.unknownRequestType header.type))

def encodeRequestPayload (request : Request) :
    Program Buffer (Except CodecError Unit) :=
  let type := RequestType.ofCode request.header.type
  match request.payload.encoder?, isCoordinationRequest type with
  | some encoder, true => succeed encoder
  | _, _ => encodeHandPayload order request.header request.payload

def encodeRequestHeader (header : RequestHeader) : Writer := do
  store (encodeFixed header.requestId)
  store (encodeFixed header.type)
  store (encodeFixed header.version)
  store (encodeFixed header.flags)

/-- The bytes of a request, whose headers are visited in the given order. -/
def encodeRequest (crc : Bytes → UInt32) (order : HeaderOrder)
    (request : Request) : Outcome (Except CodecError Bytes) := do
  match ← calculateRequestPayloadSize request with
  | .error error => return .error error
  | .ok payloadSize =>
    encodeFrame crc (headerSize + payloadSize) (encodeRequestHeader request.header)
      (encodeRequestPayload order request)

def decodeBatch : Scan (Bytes × UInt32 × List Message) := do
  let topic ← scanBlob
  let partitionId ← scanFixed UInt32
  let messages ← scanCounted decodeMessage
  return (topic, partitionId, messages)

/-- The producer of a batch; a request of an older client ends before it. -/
def decodeProducer : Scan (Int64 × Int16) := do
  if ← hasMore 8 then
    let producerId ← scanFixed Int64
    if ← hasMore 2 then
      let producerEpoch ← scanFixed Int16
      return (producerId, producerEpoch)
    else return (producerId, 0)
  else return (0, 0)

def decodeProduce : Scan ProduceRequest := do
  let (topic, partitionId, messages) ← decodeBatch
  let (producerId, producerEpoch) ← decodeProducer
  return ⟨topic, partitionId, messages, 0, 0, 0, producerId, producerEpoch⟩

def decodePosition : Scan (Bytes × UInt32 × Int64 × UInt32) := do
  let topic ← scanBlob
  let partitionId ← scanFixed UInt32
  let offset ← scanFixed Int64
  let maxBytes ← scanFixed UInt32
  return (topic, partitionId, offset, maxBytes)

/-- The isolation level; a request of an older client ends before it. -/
def decodeIsolation : Scan Int8 := do
  if ← hasMore 1 then scanFixed Int8 else return 0

def decodeFetch : Scan FetchRequest := do
  let (topic, partitionId, offset, maxBytes) ← decodePosition
  let isolationLevel ← decodeIsolation
  return ⟨topic, partitionId, offset, maxBytes, isolationLevel⟩

def decodeGetOffset : Scan GetOffsetRequest := do
  let topic ← scanBlob
  let partitionId ← scanFixed UInt32
  return ⟨topic, partitionId, 0⟩

def decodeCreateTopic : Scan CreateTopicRequest := do
  let topic ← scanBlob
  let numPartitions ← scanFixed UInt32
  let replicationFactor ← scanFixed UInt16
  return ⟨topic, numPartitions, replicationFactor⟩

def decodeDeleteTopic : Scan DeleteTopicRequest := do
  let topic ← scanBlob
  return ⟨topic⟩

def decodeCoordinationRequest (read : PayloadRead RequestPayload)
    (buf : Slice) (code : UInt8) :
    Outcome (Except CodecError RequestPayload) :=
  decodeSelfDescribing read (.malformedRequest code) buf

def decodeHandPayload (buf : Slice) (type : RequestType) :
    Outcome (Except CodecError RequestPayload) :=
  match type with
  | .produce => scanAs decodeProduce .produce buf
  | .fetch => scanAs decodeFetch .fetch buf
  | .getOffset => scanAs decodeGetOffset .getOffset buf
  | .createTopic => scanAs decodeCreateTopic .createTopic buf
  | .deleteTopic => scanAs decodeDeleteTopic .deleteTopic buf
  | .listTopics => .returned (.ok .listTopics)
  | .healthCheck => .returned (.ok .healthCheck)
  | _ => .returned (.error (.unknownRequestType type.code))

/-- A known type is read as one that describes itself, or field by field. -/
def decodeRequestPayload (buf : Slice) (code : UInt8) :
    Outcome (Except CodecError RequestPayload) :=
  match RequestType.ofCode code with
  | none => .returned (.error (.unknownRequestType code))
  | some type =>
    match newCoordinationRequest type with
    | some read => decodeCoordinationRequest read buf code
    | none => decodeHandPayload buf type

def decodeRequestHeader : Scan RequestHeader := do
  let requestId ← scanFixed UInt64
  let type ← scanFixed UInt8
  let version ← scanFixed UInt8
  let flags ← scanFixed UInt16
  return ⟨requestId, type, version, flags⟩

/-- The first request of a stream, and the rest of the stream. -/
def decodeRequest (crc : Bytes → UInt32) (stream : Bytes) :
    Outcome (Except CodecError (Request × Bytes)) :=
  match readFrame crc stream with
  | .error error => .returned (.error error)
  | .ok (buf, rest) => do
      let (header, cursor) ← decodeRequestHeader ⟨⟨buf, []⟩, 0⟩
      let payload ← sliceOf buf cursor.offset (buf.length - 4)
      let decoded ← decodeRequestPayload payload header.type
      return decoded.map fun payload => (⟨header, payload⟩, rest)

open List Program

/-- The bytes that a batch is read from. -/
def batchLayout : Layout (Bytes × UInt32 × List Message) := do
  let topic ← Layout.blob
  let partitionId ← Layout.fixed UInt32
  let messages ← Layout.counted messageLayout
  pure (topic, partitionId, messages)

def positionLayout : Layout (Bytes × UInt32 × Int64 × UInt32) := do
  let topic ← Layout.blob
  let partitionId ← Layout.fixed UInt32
  let offset ← Layout.fixed Int64
  let maxBytes ← Layout.fixed UInt32
  pure (topic, partitionId, offset, maxBytes)

def getOffsetLayout : Layout GetOffsetRequest := do
  let topic ← Layout.blob
  let partitionId ← Layout.fixed UInt32
  pure ⟨topic, partitionId, 0⟩

def createTopicLayout : Layout CreateTopicRequest := do
  let topic ← Layout.blob
  let numPartitions ← Layout.fixed UInt32
  let replicationFactor ← Layout.fixed UInt16
  pure ⟨topic, numPartitions, replicationFactor⟩

def deleteTopicLayout : Layout DeleteTopicRequest := do
  let topic ← Layout.blob
  pure ⟨topic⟩

theorem scans_batch : Scans decodeBatch batchLayout := by
  apply scans_blob.bind
  intro topic
  apply (scans_fixed UInt32).bind
  intro partitionId
  apply (scans_counted scans_message).bind
  intro messages
  exact scans_pure _

theorem scans_position : Scans decodePosition positionLayout := by
  apply scans_blob.bind
  intro topic
  apply (scans_fixed UInt32).bind
  intro partitionId
  apply (scans_fixed Int64).bind
  intro offset
  apply (scans_fixed UInt32).bind
  intro maxBytes
  exact scans_pure _

theorem scans_getOffset : Scans decodeGetOffset getOffsetLayout := by
  apply scans_blob.bind
  intro topic
  apply (scans_fixed UInt32).bind
  intro partitionId
  exact scans_pure _

theorem scans_createTopic : Scans decodeCreateTopic createTopicLayout := by
  apply scans_blob.bind
  intro topic
  apply (scans_fixed UInt32).bind
  intro numPartitions
  apply (scans_fixed UInt16).bind
  intro replicationFactor
  exact scans_pure _

theorem scans_deleteTopic : Scans decodeDeleteTopic deleteTopicLayout := by
  apply scans_blob.bind
  intro topic
  exact scans_pure _

theorem encodes_batch (order : HeaderOrder) (request : ProduceRequest) :
    Encodes maxArrayLen (4 + request.topic.length +
        (4 + (4 + (request.messages.map Message.size).sum)))
      (request.encodeBatch order) batchLayout
      (request.topic, request.partitionId, request.messages) := by
  apply (encodes_blob request.topic).bind
  apply (encodes_fixed request.partitionId).bind
  exact (encodes_messages order request.messages).map _

theorem encodes_position (request : FetchRequest) :
    Encodes maxArrayLen (4 + request.topic.length + (4 + (8 + 4)))
      request.encodePosition positionLayout
      (request.topic, request.partitionId, request.offset, request.maxBytes) := by
  apply (encodes_blob request.topic).bind
  apply (encodes_fixed request.partitionId).bind
  apply (encodes_fixed request.offset).bind
  exact (encodes_fixed request.maxBytes).map _

/-- The timestamp of an offset request is not written. -/
theorem encodes_getOffset (request : GetOffsetRequest) :
    Encodes maxArrayLen request.payloadSize request.encode getOffsetLayout
      { request with timestamp := 0 } := by
  apply (encodes_blob request.topic).bind
  exact (encodes_fixed request.partitionId).map fun partitionId =>
    GetOffsetRequest.mk request.topic partitionId 0

theorem encodes_createTopic (request : CreateTopicRequest) :
    Encodes maxArrayLen request.payloadSize request.encode createTopicLayout
      request := by
  rw [CreateTopicRequest.payloadSize, Nat.add_assoc (4 + request.topic.length)]
  apply (encodes_blob request.topic).bind
  apply (encodes_fixed request.numPartitions).bind
  exact (encodes_fixed request.replicationFactor).map _

def RequestHeader.bytes (header : RequestHeader) : Bytes :=
  encodeFixed header.requestId ++ (encodeFixed header.type ++
    (encodeFixed header.version ++ encodeFixed header.flags))

@[simp] theorem RequestHeader.bytes_length (header : RequestHeader) :
    header.bytes.length = 12 := by
  rfl

theorem writes_requestHeader (header : RequestHeader) :
    Writes (encodeRequestHeader header) header.bytes :=
  (writes_store _).bind ((writes_store _).bind
    ((writes_store _).bind (writes_store _)))

def requestHeaderLayout : Layout RequestHeader := do
  let requestId ← Layout.fixed UInt64
  let type ← Layout.fixed UInt8
  let version ← Layout.fixed UInt8
  let flags ← Layout.fixed UInt16
  pure ⟨requestId, type, version, flags⟩

variable {header : RequestHeader} (crc : Bytes → UInt32)

theorem requestHeaderLayout_iff {footprint : Footprint} :
    requestHeaderLayout header footprint ↔
      footprint = Footprint.solid header.bytes := by
  constructor
  · rintro ⟨_, _, _, rfl, ⟨_, _, _, rfl, ⟨_, _, _, rfl, ⟨_, _, _, rfl,
      ⟨rfl, rfl⟩, rfl⟩, rfl⟩, rfl⟩, rfl⟩
    rfl
  · rintro rfl
    refine ⟨header.requestId, _, _, rfl, ⟨header.type, _, _, rfl,
      ⟨header.version, _, _, rfl, ⟨header.flags, _, _, rfl, ⟨rfl, rfl⟩,
        rfl⟩, rfl⟩, rfl⟩, ?_⟩
    rfl

theorem scans_requestHeader : Scans decodeRequestHeader requestHeaderLayout := by
  apply (scans_fixed UInt64).bind
  intro requestId
  apply (scans_fixed UInt8).bind
  intro type
  apply (scans_fixed UInt8).bind
  intro version
  apply (scans_fixed UInt16).bind
  intro flags
  exact scans_pure _

theorem decodeRequestHeader_run (header : RequestHeader) (rest : Bytes) :
    decodeRequestHeader ⟨⟨header.bytes ++ rest, []⟩, 0⟩ =
      .returned (header, ⟨⟨header.bytes ++ rest, []⟩, 12⟩) := by
  have hreads := scans_requestHeader.reads
    (requestHeaderLayout_iff.mpr (Eq.refl (Footprint.solid header.bytes)))
    [] rest []
  simpa [Footprint.solid] using hreads

/-- A header is read exactly from an array that starts with one. -/
theorem decodeRequestHeader_eq_returned {buf : Bytes} {after : Cursor}
    (hrun : decodeRequestHeader ⟨⟨buf, []⟩, 0⟩ = .returned (header, after)) :
    header.bytes <+: buf ∧ after.offset = 12 := by
  obtain ⟨footprint, hlayout, hlies, rfl⟩ :=
    (scans_requestHeader _ (Nat.zero_le _) header after).mp hrun
  rw [requestHeaderLayout_iff.mp hlayout] at hlies ⊢
  refine ⟨?_, ?_⟩
  · simpa [Footprint.solid, Cursor.unread, Slice.whole] using hlies.starts
  · simp [Footprint.solid, Cursor.skip]

variable {body : Bytes}

theorem exists_header (hbody : 12 ≤ body.length) :
    ∃ (header : RequestHeader) (payload : Bytes), body = header.bytes ++ payload := by
  refine ⟨⟨decodeFixed UInt64 (body.take 8), decodeFixed UInt8 ((body.drop 8).take 1),
    decodeFixed UInt8 ((body.drop 9).take 1),
    decodeFixed UInt16 ((body.drop 10).take 2)⟩, body.drop 12, ?_⟩
  have hfields : ∀ low count, low + count ≤ 12 →
      ((body.drop low).take count).length = count := by
    intro low count hcount
    rw [length_take, length_drop]
    omega
  have hjoin : ∀ low count : Nat,
      (body.drop low).take count ++ body.drop (low + count) = body.drop low := by
    intro low count
    rw [← drop_drop, take_append_drop]
  rw [RequestHeader.bytes, encodeFixed_decodeFixed (hfields 0 8 (by decide)),
    encodeFixed_decodeFixed (hfields 8 1 (by decide)),
    encodeFixed_decodeFixed (hfields 9 1 (by decide)),
    encodeFixed_decodeFixed (hfields 10 2 (by decide))]
  simp only [append_assoc]
  rw [hjoin 10 2, hjoin 9 1, hjoin 8 1, take_append_drop]

theorem decodeRequest_frame (header : RequestHeader) {payload : Bytes}
    (hsize : (header.bytes ++ payload).length + 4 ≤ maxMessageSize)
    (rest : Bytes) :
    decodeRequest crc (frame crc (header.bytes ++ payload) ++ rest) =
      decodeRequestPayload
        ⟨payload, encodeFixed (crc (header.bytes ++ payload))⟩ header.type >>=
        fun decoded => .returned (decoded.map fun payload =>
          (⟨header, payload⟩, rest)) := by
  have hheader := decodeRequestHeader_run header
    (payload ++ encodeFixed (crc (header.bytes ++ payload)))
  rw [← append_assoc] at hheader
  have hslice := sliceOf_append header.bytes payload
    (encodeFixed (crc (header.bytes ++ payload)))
  rw [header.bytes_length] at hslice
  simp only [decodeRequest, readFrame_frame crc hsize, hheader, sealed_length]
  change sliceOf _ 12 _ >>= _ = _
  rw [hslice]
  rfl

theorem decodeRequest_short (hshort : body.length < 12) (rest : Bytes) :
    decodeRequest crc (frame crc body ++ rest) = .panicked := by
  have hsize : body.length + 4 ≤ maxMessageSize := by
    unfold maxMessageSize
    omega
  simp only [decodeRequest, readFrame_frame crc hsize]
  cases hheader : decodeRequestHeader ⟨⟨body ++ encodeFixed (crc body), []⟩, 0⟩ with
  | panicked => rfl
  | returned result =>
    have hoffset := (decodeRequestHeader_eq_returned hheader).2
    have hslice : sliceOf (body ++ encodeFixed (crc body))
        result.2.offset ((body ++ encodeFixed (crc body)).length - 4) =
          .panicked := by
      rw [sliceOf, if_neg]
      rw [length_append, encodeFixed_length]
      intro hrange
      have hwidth : FixedWidth.width UInt32 = 4 := rfl
      omega
    change sliceOf _ result.2.offset _ >>= _ = _
    rw [hslice]
    rfl

/-- A payload laid out by hand has the fields that are always read. -/
def Complete (code : UInt8) (payload : Slice) : Prop :=
  match RequestType.ofCode code with
  | some .produce => batchLayout.At ⟨payload, 0⟩
  | some .fetch => positionLayout.At ⟨payload, 0⟩
  | some .getOffset => getOffsetLayout.At ⟨payload, 0⟩
  | some .createTopic => createTopicLayout.At ⟨payload, 0⟩
  | some .deleteTopic => deleteTopicLayout.At ⟨payload, 0⟩
  | _ => True

instance total_decodeProducer : Program.Total decodeProducer where
  returns cursor := by
    apply optional_returns _ ⟨_, rfl⟩
    intro hid
    obtain ⟨producerId, hscan⟩ := scanFixed_returns (α := Int64) hid
    rw [run_bind hscan]
    apply optional_returns _ ⟨_, rfl⟩
    intro hepoch
    obtain ⟨producerEpoch, hscan⟩ := scanFixed_returns (α := Int16) hepoch
    rw [run_bind hscan]
    exact ⟨_, rfl⟩

instance total_decodeIsolation : Program.Total decodeIsolation where
  returns cursor := by
    apply optional_returns _ ⟨_, rfl⟩
    intro hlevel
    obtain ⟨isolationLevel, hscan⟩ := scanFixed_returns (α := Int8) hlevel
    exact ⟨_, hscan⟩

theorem decodeRequestPayload_returns_iff (buf : Slice) (code : UInt8) :
    (∃ result, decodeRequestPayload buf code = .returned result) ↔
      Complete code buf := by
  unfold decodeRequestPayload Complete
  cases RequestType.ofCode code with
  | none => simp
  | some type =>
    cases type with
    | produce =>
      change (∃ result, scanAs decodeProduce RequestPayload.produce buf =
        .returned result) ↔ _
      rw [scanAs_returns_iff, decodeProduce, returns_bind_iff]
      exact scans_batch.returns_iff (Nat.zero_le _)
    | fetch =>
      change (∃ result, scanAs decodeFetch RequestPayload.fetch buf =
        .returned result) ↔ _
      rw [scanAs_returns_iff, decodeFetch, returns_bind_iff]
      exact scans_position.returns_iff (Nat.zero_le _)
    | getOffset => exact scanAs_returns_iff_at scans_getOffset
    | createTopic => exact scanAs_returns_iff_at scans_createTopic
    | deleteTopic => exact scanAs_returns_iff_at scans_deleteTopic
    | listTopics | healthCheck => exact iff_of_true ⟨_, rfl⟩ trivial
    | _ =>
      exact iff_of_true (decodeSelfDescribing_returns (readAs _) _ buf) trivial

/-- A request or an error is returned exactly if a frame in range whose
checksum is right has a header and a complete payload. -/
theorem decodeRequest_ne_panicked_iff (crc : Bytes → UInt32) (stream : Bytes) :
    decodeRequest crc stream ≠ .panicked ↔
      ∀ body rest, stream = frame crc body ++ rest →
        body.length + 4 ≤ maxMessageSize →
        ∃ header payload, body = RequestHeader.bytes header ++ payload ∧
          Complete header.type ⟨payload, encodeFixed (crc body)⟩ := by
  constructor
  · rintro hsafe body rest rfl hsize
    by_cases hshort : body.length < 12
    · exact absurd (decodeRequest_short crc hshort rest) hsafe
    · obtain ⟨header, payload, rfl⟩ := exists_header (Nat.not_lt.mp hshort)
      refine ⟨header, payload, rfl, ?_⟩
      rw [decodeRequest_frame crc header hsize, Outcome.ne_panicked_iff]
        at hsafe
      obtain ⟨result, hresult⟩ := hsafe
      obtain ⟨decoded, hdecoded, _⟩ := Outcome.bind_eq_returned.mp hresult
      exact (decodeRequestPayload_returns_iff _ _).mp ⟨decoded, hdecoded⟩
  · intro hcomplete
    cases hread : readFrame crc stream with
    | error error =>
      simp only [decodeRequest, hread]
      intro hpanicked
      cases hpanicked
    | ok result =>
      obtain ⟨buf, rest⟩ := result
      obtain ⟨body, _, hsize, rfl⟩ := eq_frame_of_readFrame hread
      obtain ⟨header, payload, rfl, hpayload⟩ :=
        hcomplete body rest rfl hsize
      obtain ⟨decoded, hdecoded⟩ :=
        (decodeRequestPayload_returns_iff _ _).mpr hpayload
      rw [decodeRequest_frame crc header hsize, hdecoded]
      intro hpanicked
      cases hpanicked

/-- Eight bytes bring the broker down, as does a topic that is cut short. -/
theorem decodeRequest_panics :
    decodeRequest (fun _ => 0) [0, 0, 0, 4, 0, 0, 0, 0] = .panicked ∧
      decodeRequest (fun _ => 0) [0, 0, 0, 20, 0, 0, 0, 0, 0, 0, 0, 1,
        5, 1, 0, 0, 0, 0, 0, 9, 0, 0, 0, 0] = .panicked := by
  decide +kernel

end Streambus.Protocol
