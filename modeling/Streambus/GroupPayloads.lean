/-
The payloads of consumer group coordination, of the search for a coordinator
and of transactions.  Each one is read back from what it writes.
-/
import Streambus.PayloadWire

namespace Streambus.Protocol

/-- An assignment protocol a member supports, with its subscription. -/
structure GroupProtocol where
  name : Bytes
  metadata : Option Bytes
deriving DecidableEq

def GroupProtocol.encode (protocol : GroupProtocol) : Writer := do
  writeString protocol.name
  writeBytes protocol.metadata

abbrev GroupProtocol.decode : PayloadRead GroupProtocol := do
  let name ← readString
  let metadata ← readBytes
  return ⟨name, metadata⟩

theorem GroupProtocol.paired (protocol : GroupProtocol) :
    Paired (4 + 4) protocol.encode decode protocol := by
  apply (paired_string _).bind
  exact (paired_bytes _).map _

/-- A member asks to join, under no ID the first time. -/
structure JoinGroupRequest where
  groupId : Bytes
  memberId : Bytes
  clientId : Bytes
  protocolType : Bytes
  sessionTimeoutMs : Int32
  rebalanceTimeoutMs : Int32
  protocols : List GroupProtocol
deriving DecidableEq

def JoinGroupRequest.encodePayload (request : JoinGroupRequest) : Writer := do
  writeString request.groupId
  writeString request.memberId
  writeString request.clientId
  writeString request.protocolType
  writeInt32 request.sessionTimeoutMs
  writeInt32 request.rebalanceTimeoutMs
  writeArray GroupProtocol.encode request.protocols

abbrev JoinGroupRequest.decodePayload : PayloadRead JoinGroupRequest := do
  let groupId ← readString
  let memberId ← readString
  let clientId ← readString
  let protocolType ← readString
  let sessionTimeoutMs ← readInt32
  let rebalanceTimeoutMs ← readInt32
  let protocols ← readArray GroupProtocol.decode
  return ⟨groupId, memberId, clientId, protocolType, sessionTimeoutMs,
    rebalanceTimeoutMs, protocols⟩

instance : SelfDescribing JoinGroupRequest where
  encodePayload := JoinGroupRequest.encodePayload
  decodePayload := JoinGroupRequest.decodePayload
  paired request := by
    apply Paired.any
    apply (paired_string _).bind
    apply (paired_string _).bind
    apply (paired_string _).bind
    apply (paired_string _).bind
    apply (paired_int32 _).bind
    apply (paired_int32 _).bind
    exact (paired_array GroupProtocol.paired (by decide)).map _

/-- A member with its subscription, as the leader is told of it. -/
structure JoinGroupMember where
  memberId : Bytes
  metadata : Option Bytes
deriving DecidableEq

def JoinGroupMember.encode (member : JoinGroupMember) : Writer := do
  writeString member.memberId
  writeBytes member.metadata

abbrev JoinGroupMember.decode : PayloadRead JoinGroupMember := do
  let memberId ← readString
  let metadata ← readBytes
  return ⟨memberId, metadata⟩

theorem JoinGroupMember.paired (member : JoinGroupMember) :
    Paired (4 + 4) member.encode decode member := by
  apply (paired_string _).bind
  exact (paired_bytes _).map _

/-- The generation that was joined; only its leader is told the members. -/
structure JoinGroupResponse where
  errorCode : ErrorCode
  generationId : Int32
  protocolName : Bytes
  memberId : Bytes
  leaderId : Bytes
  members : List JoinGroupMember
deriving DecidableEq

def JoinGroupResponse.encodePayload (response : JoinGroupResponse) :
    Writer := do
  writeErrorCode response.errorCode
  writeInt32 response.generationId
  writeString response.protocolName
  writeString response.memberId
  writeString response.leaderId
  writeArray JoinGroupMember.encode response.members

abbrev JoinGroupResponse.decodePayload : PayloadRead JoinGroupResponse := do
  let errorCode ← readErrorCode
  let generationId ← readInt32
  let protocolName ← readString
  let memberId ← readString
  let leaderId ← readString
  let members ← readArray JoinGroupMember.decode
  return ⟨errorCode, generationId, protocolName, memberId, leaderId, members⟩

instance : SelfDescribing JoinGroupResponse where
  encodePayload := JoinGroupResponse.encodePayload
  decodePayload := JoinGroupResponse.decodePayload
  paired response := by
    apply Paired.any
    apply (paired_errorCode _).bind
    apply (paired_int32 _).bind
    apply (paired_string _).bind
    apply (paired_string _).bind
    apply (paired_string _).bind
    exact (paired_array JoinGroupMember.paired (by decide)).map _

/-- What the leader assigns to one member. -/
structure SyncGroupAssignment where
  memberId : Bytes
  assignment : Option Bytes
deriving DecidableEq

def SyncGroupAssignment.encode (assignment : SyncGroupAssignment) :
    Writer := do
  writeString assignment.memberId
  writeBytes assignment.assignment

abbrev SyncGroupAssignment.decode : PayloadRead SyncGroupAssignment := do
  let memberId ← readString
  let assignment ← readBytes
  return ⟨memberId, assignment⟩

theorem SyncGroupAssignment.paired (assignment : SyncGroupAssignment) :
    Paired (4 + 4) assignment.encode decode assignment := by
  apply (paired_string _).bind
  exact (paired_bytes _).map _

/-- A member asks for its assignment; the leader brings those of all. -/
structure SyncGroupRequest where
  groupId : Bytes
  generationId : Int32
  memberId : Bytes
  assignments : List SyncGroupAssignment
deriving DecidableEq

def SyncGroupRequest.encodePayload (request : SyncGroupRequest) : Writer := do
  writeString request.groupId
  writeInt32 request.generationId
  writeString request.memberId
  writeArray SyncGroupAssignment.encode request.assignments

abbrev SyncGroupRequest.decodePayload : PayloadRead SyncGroupRequest := do
  let groupId ← readString
  let generationId ← readInt32
  let memberId ← readString
  let assignments ← readArray SyncGroupAssignment.decode
  return ⟨groupId, generationId, memberId, assignments⟩

instance : SelfDescribing SyncGroupRequest where
  encodePayload := SyncGroupRequest.encodePayload
  decodePayload := SyncGroupRequest.decodePayload
  paired request := by
    apply Paired.any
    apply (paired_string _).bind
    apply (paired_int32 _).bind
    apply (paired_string _).bind
    exact (paired_array SyncGroupAssignment.paired (by decide)).map _

structure SyncGroupResponse where
  errorCode : ErrorCode
  assignment : Option Bytes
deriving DecidableEq

def SyncGroupResponse.encodePayload (response : SyncGroupResponse) :
    Writer := do
  writeErrorCode response.errorCode
  writeBytes response.assignment

abbrev SyncGroupResponse.decodePayload : PayloadRead SyncGroupResponse := do
  let errorCode ← readErrorCode
  let assignment ← readBytes
  return ⟨errorCode, assignment⟩

instance : SelfDescribing SyncGroupResponse where
  encodePayload := SyncGroupResponse.encodePayload
  decodePayload := SyncGroupResponse.decodePayload
  paired response := by
    apply Paired.any
    apply (paired_errorCode _).bind
    exact (paired_bytes _).map _

/-- A member of a generation is still there. -/
structure HeartbeatRequest where
  groupId : Bytes
  generationId : Int32
  memberId : Bytes
deriving DecidableEq

def HeartbeatRequest.encodePayload (request : HeartbeatRequest) : Writer := do
  writeString request.groupId
  writeInt32 request.generationId
  writeString request.memberId

abbrev HeartbeatRequest.decodePayload : PayloadRead HeartbeatRequest := do
  let groupId ← readString
  let generationId ← readInt32
  let memberId ← readString
  return ⟨groupId, generationId, memberId⟩

instance : SelfDescribing HeartbeatRequest where
  encodePayload := HeartbeatRequest.encodePayload
  decodePayload := HeartbeatRequest.decodePayload
  paired request := by
    apply Paired.any
    apply (paired_string _).bind
    apply (paired_int32 _).bind
    exact (paired_string _).map _

structure HeartbeatResponse where
  errorCode : ErrorCode
deriving DecidableEq

def HeartbeatResponse.encodePayload (response : HeartbeatResponse) : Writer :=
  writeErrorCode response.errorCode

abbrev HeartbeatResponse.decodePayload : PayloadRead HeartbeatResponse := do
  let errorCode ← readErrorCode
  return ⟨errorCode⟩

instance : SelfDescribing HeartbeatResponse where
  encodePayload := HeartbeatResponse.encodePayload
  decodePayload := HeartbeatResponse.decodePayload
  paired response := by
    apply Paired.any
    exact (paired_errorCode _).map _

structure LeaveGroupRequest where
  groupId : Bytes
  memberId : Bytes
deriving DecidableEq

def LeaveGroupRequest.encodePayload (request : LeaveGroupRequest) :
    Writer := do
  writeString request.groupId
  writeString request.memberId

abbrev LeaveGroupRequest.decodePayload : PayloadRead LeaveGroupRequest := do
  let groupId ← readString
  let memberId ← readString
  return ⟨groupId, memberId⟩

instance : SelfDescribing LeaveGroupRequest where
  encodePayload := LeaveGroupRequest.encodePayload
  decodePayload := LeaveGroupRequest.decodePayload
  paired request := by
    apply Paired.any
    apply (paired_string _).bind
    exact (paired_string _).map _

structure LeaveGroupResponse where
  errorCode : ErrorCode
deriving DecidableEq

def LeaveGroupResponse.encodePayload (response : LeaveGroupResponse) : Writer :=
  writeErrorCode response.errorCode

abbrev LeaveGroupResponse.decodePayload : PayloadRead LeaveGroupResponse := do
  let errorCode ← readErrorCode
  return ⟨errorCode⟩

instance : SelfDescribing LeaveGroupResponse where
  encodePayload := LeaveGroupResponse.encodePayload
  decodePayload := LeaveGroupResponse.decodePayload
  paired response := by
    apply Paired.any
    exact (paired_errorCode _).map _

/-- The position of a group in one partition. -/
structure OffsetCommitPartition where
  partition : Int32
  offset : Int64
  metadata : Bytes
deriving DecidableEq

def OffsetCommitPartition.encode (position : OffsetCommitPartition) :
    Writer := do
  writeInt32 position.partition
  writeInt64 position.offset
  writeString position.metadata

abbrev OffsetCommitPartition.decode : PayloadRead OffsetCommitPartition := do
  let partition ← readInt32
  let offset ← readInt64
  let metadata ← readString
  return ⟨partition, offset, metadata⟩

theorem OffsetCommitPartition.paired (position : OffsetCommitPartition) :
    Paired (4 + (8 + 4)) position.encode decode position := by
  apply (paired_int32 _).bind
  apply (paired_int64 _).bind
  exact (paired_string _).map _

structure OffsetCommitTopic where
  topic : Bytes
  partitions : List OffsetCommitPartition
deriving DecidableEq

def OffsetCommitTopic.encode (positions : OffsetCommitTopic) : Writer := do
  writeString positions.topic
  writeArray OffsetCommitPartition.encode positions.partitions

abbrev OffsetCommitTopic.decode : PayloadRead OffsetCommitTopic := do
  let topic ← readString
  let partitions ← readArray OffsetCommitPartition.decode
  return ⟨topic, partitions⟩

theorem OffsetCommitTopic.paired (positions : OffsetCommitTopic) :
    Paired (4 + 4) positions.encode decode positions := by
  apply (paired_string _).bind
  exact (paired_array OffsetCommitPartition.paired (by decide)).map _

/-- Positions to commit, by a member of a generation. -/
structure OffsetCommitRequest where
  groupId : Bytes
  generationId : Int32
  memberId : Bytes
  topics : List OffsetCommitTopic
deriving DecidableEq

def OffsetCommitRequest.encodePayload (request : OffsetCommitRequest) :
    Writer := do
  writeString request.groupId
  writeInt32 request.generationId
  writeString request.memberId
  writeArray OffsetCommitTopic.encode request.topics

abbrev OffsetCommitRequest.decodePayload : PayloadRead OffsetCommitRequest := do
  let groupId ← readString
  let generationId ← readInt32
  let memberId ← readString
  let topics ← readArray OffsetCommitTopic.decode
  return ⟨groupId, generationId, memberId, topics⟩

instance : SelfDescribing OffsetCommitRequest where
  encodePayload := OffsetCommitRequest.encodePayload
  decodePayload := OffsetCommitRequest.decodePayload
  paired request := by
    apply Paired.any
    apply (paired_string _).bind
    apply (paired_int32 _).bind
    apply (paired_string _).bind
    exact (paired_array OffsetCommitTopic.paired (by decide)).map _

structure OffsetCommitPartitionResult where
  partition : Int32
  errorCode : ErrorCode
deriving DecidableEq

variable (result : OffsetCommitPartitionResult)

def OffsetCommitPartitionResult.encode :
    Writer := do
  writeInt32 result.partition
  writeErrorCode result.errorCode

abbrev OffsetCommitPartitionResult.decode :
    PayloadRead OffsetCommitPartitionResult := do
  let partition ← readInt32
  let errorCode ← readErrorCode
  return ⟨partition, errorCode⟩

theorem OffsetCommitPartitionResult.paired :
    Paired (4 + 2) result.encode decode result := by
  apply (paired_int32 _).bind
  exact (paired_errorCode _).map _

structure OffsetCommitTopicResult where
  topic : Bytes
  partitions : List OffsetCommitPartitionResult
deriving DecidableEq

def OffsetCommitTopicResult.encode (results : OffsetCommitTopicResult) :
    Writer := do
  writeString results.topic
  writeArray OffsetCommitPartitionResult.encode results.partitions

abbrev OffsetCommitTopicResult.decode : PayloadRead OffsetCommitTopicResult := do
  let topic ← readString
  let partitions ← readArray OffsetCommitPartitionResult.decode
  return ⟨topic, partitions⟩

theorem OffsetCommitTopicResult.paired (results : OffsetCommitTopicResult) :
    Paired (4 + 4) results.encode decode results := by
  apply (paired_string _).bind
  exact (paired_array OffsetCommitPartitionResult.paired (by decide)).map _

structure OffsetCommitResponse where
  topics : List OffsetCommitTopicResult
deriving DecidableEq

def OffsetCommitResponse.encodePayload (response : OffsetCommitResponse) : Writer :=
  writeArray OffsetCommitTopicResult.encode response.topics

abbrev OffsetCommitResponse.decodePayload : PayloadRead OffsetCommitResponse := do
  let topics ← readArray OffsetCommitTopicResult.decode
  return ⟨topics⟩

instance : SelfDescribing OffsetCommitResponse where
  encodePayload := OffsetCommitResponse.encodePayload
  decodePayload := OffsetCommitResponse.decodePayload
  paired response := by
    apply Paired.any
    exact (paired_array OffsetCommitTopicResult.paired (by decide)).map _

structure OffsetFetchTopic where
  topic : Bytes
  partitions : List Int32
deriving DecidableEq

def OffsetFetchTopic.encode (wanted : OffsetFetchTopic) : Writer := do
  writeString wanted.topic
  writeArray writeInt32 wanted.partitions

abbrev OffsetFetchTopic.decode : PayloadRead OffsetFetchTopic := do
  let topic ← readString
  let partitions ← readArray readInt32
  return ⟨topic, partitions⟩

theorem OffsetFetchTopic.paired (wanted : OffsetFetchTopic) :
    Paired (4 + 4) wanted.encode decode wanted := by
  apply (paired_string _).bind
  exact (paired_array paired_int32 (by decide)).map _

/-- A group asks for its positions in some partitions. -/
structure OffsetFetchRequest where
  groupId : Bytes
  topics : List OffsetFetchTopic
deriving DecidableEq

def OffsetFetchRequest.encodePayload (request : OffsetFetchRequest) :
    Writer := do
  writeString request.groupId
  writeArray OffsetFetchTopic.encode request.topics

abbrev OffsetFetchRequest.decodePayload : PayloadRead OffsetFetchRequest := do
  let groupId ← readString
  let topics ← readArray OffsetFetchTopic.decode
  return ⟨groupId, topics⟩

instance : SelfDescribing OffsetFetchRequest where
  encodePayload := OffsetFetchRequest.encodePayload
  decodePayload := OffsetFetchRequest.decodePayload
  paired request := by
    apply Paired.any
    apply (paired_string _).bind
    exact (paired_array OffsetFetchTopic.paired (by decide)).map _

/-- A committed position, or why there is none. -/
structure OffsetFetchPartition where
  partition : Int32
  offset : Int64
  metadata : Bytes
  errorCode : ErrorCode
deriving DecidableEq

def OffsetFetchPartition.encode (position : OffsetFetchPartition) :
    Writer := do
  writeInt32 position.partition
  writeInt64 position.offset
  writeString position.metadata
  writeErrorCode position.errorCode

abbrev OffsetFetchPartition.decode : PayloadRead OffsetFetchPartition := do
  let partition ← readInt32
  let offset ← readInt64
  let metadata ← readString
  let errorCode ← readErrorCode
  return ⟨partition, offset, metadata, errorCode⟩

theorem OffsetFetchPartition.paired (position : OffsetFetchPartition) :
    Paired (4 + (8 + (4 + 2))) position.encode decode position := by
  apply (paired_int32 _).bind
  apply (paired_int64 _).bind
  apply (paired_string _).bind
  exact (paired_errorCode _).map _

structure OffsetFetchTopicResult where
  topic : Bytes
  partitions : List OffsetFetchPartition
deriving DecidableEq

def OffsetFetchTopicResult.encode (results : OffsetFetchTopicResult) :
    Writer := do
  writeString results.topic
  writeArray OffsetFetchPartition.encode results.partitions

abbrev OffsetFetchTopicResult.decode : PayloadRead OffsetFetchTopicResult := do
  let topic ← readString
  let partitions ← readArray OffsetFetchPartition.decode
  return ⟨topic, partitions⟩

theorem OffsetFetchTopicResult.paired (results : OffsetFetchTopicResult) :
    Paired (4 + 4) results.encode decode results := by
  apply (paired_string _).bind
  exact (paired_array OffsetFetchPartition.paired (by decide)).map _

structure OffsetFetchResponse where
  topics : List OffsetFetchTopicResult
deriving DecidableEq

def OffsetFetchResponse.encodePayload (response : OffsetFetchResponse) : Writer :=
  writeArray OffsetFetchTopicResult.encode response.topics

abbrev OffsetFetchResponse.decodePayload : PayloadRead OffsetFetchResponse := do
  let topics ← readArray OffsetFetchTopicResult.decode
  return ⟨topics⟩

instance : SelfDescribing OffsetFetchResponse where
  encodePayload := OffsetFetchResponse.encodePayload
  decodePayload := OffsetFetchResponse.decodePayload
  paired response := by
    apply Paired.any
    exact (paired_array OffsetFetchTopicResult.paired (by decide)).map _

/-- The key of a group or a transaction whose coordinator is wanted. -/
structure FindCoordinatorRequest where
  key : Bytes
  keyType : Int8
deriving DecidableEq

def FindCoordinatorRequest.encodePayload (request : FindCoordinatorRequest) :
    Writer := do
  writeString request.key
  writeInt8 request.keyType

abbrev FindCoordinatorRequest.decodePayload : PayloadRead FindCoordinatorRequest := do
  let key ← readString
  let keyType ← readInt8
  return ⟨key, keyType⟩

instance : SelfDescribing FindCoordinatorRequest where
  encodePayload := FindCoordinatorRequest.encodePayload
  decodePayload := FindCoordinatorRequest.decodePayload
  paired request := by
    apply Paired.any
    apply (paired_string _).bind
    exact (paired_int8 _).map _

structure FindCoordinatorResponse where
  errorCode : ErrorCode
  nodeId : Int32
  host : Bytes
  port : Int32
deriving DecidableEq

def FindCoordinatorResponse.encodePayload (response : FindCoordinatorResponse) :
    Writer := do
  writeErrorCode response.errorCode
  writeInt32 response.nodeId
  writeString response.host
  writeInt32 response.port

abbrev FindCoordinatorResponse.decodePayload :
    PayloadRead FindCoordinatorResponse := do
  let errorCode ← readErrorCode
  let nodeId ← readInt32
  let host ← readString
  let port ← readInt32
  return ⟨errorCode, nodeId, host, port⟩

instance : SelfDescribing FindCoordinatorResponse where
  encodePayload := FindCoordinatorResponse.encodePayload
  decodePayload := FindCoordinatorResponse.decodePayload
  paired response := by
    apply Paired.any
    apply (paired_errorCode _).bind
    apply (paired_int32 _).bind
    apply (paired_string _).bind
    exact (paired_int32 _).map _

/-- A producer asks for an ID. -/
structure InitProducerIdRequest where
  transactionId : Bytes
  transactionTimeoutMs : Int32
deriving DecidableEq

def InitProducerIdRequest.encodePayload (request : InitProducerIdRequest) :
    Writer := do
  writeString request.transactionId
  writeInt32 request.transactionTimeoutMs

abbrev InitProducerIdRequest.decodePayload : PayloadRead InitProducerIdRequest := do
  let transactionId ← readString
  let transactionTimeoutMs ← readInt32
  return ⟨transactionId, transactionTimeoutMs⟩

instance : SelfDescribing InitProducerIdRequest where
  encodePayload := InitProducerIdRequest.encodePayload
  decodePayload := InitProducerIdRequest.decodePayload
  paired request := by
    apply Paired.any
    apply (paired_string _).bind
    exact (paired_int32 _).map _

structure InitProducerIdResponse where
  producerId : Int64
  producerEpoch : Int16
  errorCode : ErrorCode
deriving DecidableEq

def InitProducerIdResponse.encodePayload (response : InitProducerIdResponse) :
    Writer := do
  writeInt64 response.producerId
  writeInt16 response.producerEpoch
  writeErrorCode response.errorCode

abbrev InitProducerIdResponse.decodePayload : PayloadRead InitProducerIdResponse := do
  let producerId ← readInt64
  let producerEpoch ← readInt16
  let errorCode ← readErrorCode
  return ⟨producerId, producerEpoch, errorCode⟩

instance : SelfDescribing InitProducerIdResponse where
  encodePayload := InitProducerIdResponse.encodePayload
  decodePayload := InitProducerIdResponse.decodePayload
  paired response := by
    apply Paired.any
    apply (paired_int64 _).bind
    apply (paired_int16 _).bind
    exact (paired_errorCode _).map _

/-- A partition that a transaction writes to. -/
structure TxnPartition where
  topic : Bytes
  partition : Int32
deriving DecidableEq

def TxnPartition.encode (target : TxnPartition) : Writer := do
  writeString target.topic
  writeInt32 target.partition

abbrev TxnPartition.decode : PayloadRead TxnPartition := do
  let topic ← readString
  let partition ← readInt32
  return ⟨topic, partition⟩

theorem TxnPartition.paired (target : TxnPartition) :
    Paired (4 + 4) target.encode decode target := by
  apply (paired_string _).bind
  exact (paired_int32 _).map _

structure AddPartitionsToTxnRequest where
  transactionId : Bytes
  producerId : Int64
  producerEpoch : Int16
  partitions : List TxnPartition
deriving DecidableEq

def AddPartitionsToTxnRequest.encodePayload (request : AddPartitionsToTxnRequest) :
    Writer := do
  writeString request.transactionId
  writeInt64 request.producerId
  writeInt16 request.producerEpoch
  writeArray TxnPartition.encode request.partitions

abbrev AddPartitionsToTxnRequest.decodePayload :
    PayloadRead AddPartitionsToTxnRequest := do
  let transactionId ← readString
  let producerId ← readInt64
  let producerEpoch ← readInt16
  let partitions ← readArray TxnPartition.decode
  return ⟨transactionId, producerId, producerEpoch, partitions⟩

instance : SelfDescribing AddPartitionsToTxnRequest where
  encodePayload := AddPartitionsToTxnRequest.encodePayload
  decodePayload := AddPartitionsToTxnRequest.decodePayload
  paired request := by
    apply Paired.any
    apply (paired_string _).bind
    apply (paired_int64 _).bind
    apply (paired_int16 _).bind
    exact (paired_array TxnPartition.paired (by decide)).map _

structure TxnPartitionResult where
  topic : Bytes
  partition : Int32
  errorCode : ErrorCode
deriving DecidableEq

variable (result : TxnPartitionResult)

def TxnPartitionResult.encode : Writer := do
  writeString result.topic
  writeInt32 result.partition
  writeErrorCode result.errorCode

abbrev TxnPartitionResult.decode : PayloadRead TxnPartitionResult := do
  let topic ← readString
  let partition ← readInt32
  let errorCode ← readErrorCode
  return ⟨topic, partition, errorCode⟩

theorem TxnPartitionResult.paired :
    Paired (4 + (4 + 2)) result.encode decode result := by
  apply (paired_string _).bind
  apply (paired_int32 _).bind
  exact (paired_errorCode _).map _

structure AddPartitionsToTxnResponse where
  results : List TxnPartitionResult
deriving DecidableEq

def AddPartitionsToTxnResponse.encodePayload
    (response : AddPartitionsToTxnResponse) : Writer :=
  writeArray TxnPartitionResult.encode response.results

abbrev AddPartitionsToTxnResponse.decodePayload :
    PayloadRead AddPartitionsToTxnResponse := do
  let results ← readArray TxnPartitionResult.decode
  return ⟨results⟩

instance : SelfDescribing AddPartitionsToTxnResponse where
  encodePayload := AddPartitionsToTxnResponse.encodePayload
  decodePayload := AddPartitionsToTxnResponse.decodePayload
  paired response := by
    apply Paired.any
    exact (paired_array TxnPartitionResult.paired (by decide)).map _

/-- The group whose positions a transaction commits. -/
structure AddOffsetsToTxnRequest where
  transactionId : Bytes
  producerId : Int64
  producerEpoch : Int16
  groupId : Bytes
deriving DecidableEq

def AddOffsetsToTxnRequest.encodePayload (request : AddOffsetsToTxnRequest) :
    Writer := do
  writeString request.transactionId
  writeInt64 request.producerId
  writeInt16 request.producerEpoch
  writeString request.groupId

abbrev AddOffsetsToTxnRequest.decodePayload : PayloadRead AddOffsetsToTxnRequest := do
  let transactionId ← readString
  let producerId ← readInt64
  let producerEpoch ← readInt16
  let groupId ← readString
  return ⟨transactionId, producerId, producerEpoch, groupId⟩

instance : SelfDescribing AddOffsetsToTxnRequest where
  encodePayload := AddOffsetsToTxnRequest.encodePayload
  decodePayload := AddOffsetsToTxnRequest.decodePayload
  paired request := by
    apply Paired.any
    apply (paired_string _).bind
    apply (paired_int64 _).bind
    apply (paired_int16 _).bind
    exact (paired_string _).map _

structure AddOffsetsToTxnResponse where
  errorCode : ErrorCode
deriving DecidableEq

def AddOffsetsToTxnResponse.encodePayload (response : AddOffsetsToTxnResponse) : Writer :=
  writeErrorCode response.errorCode

abbrev AddOffsetsToTxnResponse.decodePayload :
    PayloadRead AddOffsetsToTxnResponse := do
  let errorCode ← readErrorCode
  return ⟨errorCode⟩

instance : SelfDescribing AddOffsetsToTxnResponse where
  encodePayload := AddOffsetsToTxnResponse.encodePayload
  decodePayload := AddOffsetsToTxnResponse.decodePayload
  paired response := by
    apply Paired.any
    exact (paired_errorCode _).map _

/-- Positions that are committed with a transaction or not at all. -/
structure TxnOffsetCommitRequest where
  transactionId : Bytes
  groupId : Bytes
  producerId : Int64
  producerEpoch : Int16
  topics : List OffsetCommitTopic
deriving DecidableEq

def TxnOffsetCommitRequest.encodePayload (request : TxnOffsetCommitRequest) :
    Writer := do
  writeString request.transactionId
  writeString request.groupId
  writeInt64 request.producerId
  writeInt16 request.producerEpoch
  writeArray OffsetCommitTopic.encode request.topics

abbrev TxnOffsetCommitRequest.decodePayload : PayloadRead TxnOffsetCommitRequest := do
  let transactionId ← readString
  let groupId ← readString
  let producerId ← readInt64
  let producerEpoch ← readInt16
  let topics ← readArray OffsetCommitTopic.decode
  return ⟨transactionId, groupId, producerId, producerEpoch, topics⟩

instance : SelfDescribing TxnOffsetCommitRequest where
  encodePayload := TxnOffsetCommitRequest.encodePayload
  decodePayload := TxnOffsetCommitRequest.decodePayload
  paired request := by
    apply Paired.any
    apply (paired_string _).bind
    apply (paired_string _).bind
    apply (paired_int64 _).bind
    apply (paired_int16 _).bind
    exact (paired_array OffsetCommitTopic.paired (by decide)).map _

structure TxnOffsetCommitResponse where
  topics : List OffsetCommitTopicResult
deriving DecidableEq

/-- The response has the layout of a plain offset commit's. -/
def TxnOffsetCommitResponse.encodePayload
    (response : TxnOffsetCommitResponse) : Writer :=
  OffsetCommitResponse.encodePayload ⟨response.topics⟩

abbrev TxnOffsetCommitResponse.decodePayload :
    PayloadRead TxnOffsetCommitResponse := do
  let inner ← OffsetCommitResponse.decodePayload
  return ⟨inner.topics⟩

instance : SelfDescribing TxnOffsetCommitResponse where
  encodePayload := TxnOffsetCommitResponse.encodePayload
  decodePayload := TxnOffsetCommitResponse.decodePayload
  total := by
    have := SelfDescribing.total (α := OffsetCommitResponse)
    exact Program.total_bind OffsetCommitResponse.decodePayload _
  paired response := by
    apply Paired.any
    exact (SelfDescribing.paired (OffsetCommitResponse.mk response.topics)).map
      fun inner => TxnOffsetCommitResponse.mk inner.topics

/-- A transaction ends in a commit or an abort. -/
structure EndTxnRequest where
  transactionId : Bytes
  producerId : Int64
  producerEpoch : Int16
  commit : Bool
deriving DecidableEq

def EndTxnRequest.encodePayload (request : EndTxnRequest) : Writer := do
  writeString request.transactionId
  writeInt64 request.producerId
  writeInt16 request.producerEpoch
  writeBool request.commit

abbrev EndTxnRequest.decodePayload : PayloadRead EndTxnRequest := do
  let transactionId ← readString
  let producerId ← readInt64
  let producerEpoch ← readInt16
  let commit ← readBool
  return ⟨transactionId, producerId, producerEpoch, commit⟩

instance : SelfDescribing EndTxnRequest where
  encodePayload := EndTxnRequest.encodePayload
  decodePayload := EndTxnRequest.decodePayload
  paired request := by
    apply Paired.any
    apply (paired_string _).bind
    apply (paired_int64 _).bind
    apply (paired_int16 _).bind
    exact (paired_bool _).map _

structure EndTxnResponse where
  errorCode : ErrorCode
deriving DecidableEq

def EndTxnResponse.encodePayload (response : EndTxnResponse) : Writer :=
  writeErrorCode response.errorCode

abbrev EndTxnResponse.decodePayload : PayloadRead EndTxnResponse := do
  let errorCode ← readErrorCode
  return ⟨errorCode⟩

instance : SelfDescribing EndTxnResponse where
  encodePayload := EndTxnResponse.encodePayload
  decodePayload := EndTxnResponse.decodePayload
  paired response := by
    apply Paired.any
    exact (paired_errorCode _).map _

end Streambus.Protocol
