/-
The cluster metadata that the brokers replicate.  Committed operations are
applied to it one after the other; a rejected one changes nothing.  In-sync
replicas and leader are to be replicas, the topic known, and the epoch is to
tell the leaders of a partition apart; no operation checks any of this, so a
log keeps it exactly if each of its operations fits the metadata it is applied
to.  What a time is is left open.
-/
import Streambus.GuardedRun
import Streambus.OrderedMap
import Streambus.TextFormat

namespace Streambus.Metadata

structure BrokerResources where
  diskTotal : UInt64
  diskUsed : UInt64
  diskAvailable : UInt64
  networkBandwidth : UInt64
  cpuCores : Int64
  memoryTotal : UInt64
  memoryUsed : UInt64
deriving DecidableEq

structure BrokerInfo (τ : Type) where
  id : UInt64
  addr : Utf8Text
  /-- One of four words in use, but any text decodes. -/
  status : Utf8Text
  resources : BrokerResources
  rack : Utf8Text
  registeredAt : τ
  lastHeartbeat : τ
deriving DecidableEq

structure TopicConfig where
  retentionMs : Int64
  retentionBytes : Int64
  segmentMs : Int64
  segmentBytes : Int64
  minInsyncReplicas : Int64
  compressionType : Utf8Text
deriving DecidableEq

structure TopicInfo (τ : Type) where
  name : Utf8Text
  numPartitions : Int64
  replicationFactor : Int64
  config : TopicConfig
  createdAt : τ
  modifiedAt : τ
deriving DecidableEq

structure PartitionInfo (τ : Type) where
  topic : Utf8Text
  partition : Int64
  /-- The broker that leads, 0 if there is none. -/
  leader : UInt64
  replicas : List UInt64
  isr : List UInt64
  offlineReplicas : List UInt64
  leaderEpoch : UInt64
  createdAt : τ
  modifiedAt : τ
deriving DecidableEq

/-- The metadata.  Brokers are by their ID, partitions by topic and number. -/
structure ClusterMetadata (τ : Type) where
  brokers : OrderedMap UInt64 (BrokerInfo τ)
  topics : OrderedMap Utf8Text (TopicInfo τ)
  partitions : OrderedMap Utf8Text (PartitionInfo τ)
  version : UInt64
  lastModified : τ
deriving DecidableEq

def brokerStatusAlive : Utf8Text := ⟨textBytes "alive", by decide⟩

/-- A partition identifier: the topic, a colon and the number. -/
def partitionID (topic : Utf8Text) (partition : Int64) : Utf8Text where
  bytes := topic.bytes ++ textBytes ":" ++ formatInt partition.toInt
  valid := validUtf8_append (validUtf8_append topic.valid (by decide))
    (validUtf8_of_ascii (formatInt_ascii _))

variable {τ : Type}

def PartitionInfo.partitionID (partition : PartitionInfo τ) : Utf8Text :=
  Metadata.partitionID partition.topic partition.partition

/-- An operation whose data was decoded. -/
inductive Operation (τ : Type)
  | registerBroker (broker : BrokerInfo τ)
  | unregisterBroker (brokerID : UInt64)
  | updateBroker (brokerID : UInt64) (status : Utf8Text)
      (resources : BrokerResources) (heartbeat : τ)
  | createTopic (name : Utf8Text) (numPartitions replicationFactor : Int64)
      (config : TopicConfig)
  | deleteTopic (name : Utf8Text)
  | updateTopic (name : Utf8Text) (config : TopicConfig)
  | createPartition (partition : PartitionInfo τ)
  | updatePartition (partition : PartitionInfo τ)
  | updateLeader (topic : Utf8Text) (partition : Int64) (leader : UInt64)
      (leaderEpoch : UInt64)
  | updateISR (topic : Utf8Text) (partition : Int64) (isr : List UInt64)
  | updateReplicaList (topic : Utf8Text) (partition : Int64) (replicas : List UInt64)
  | batchCreatePartitions (partitions : List (PartitionInfo τ))
deriving DecidableEq

inductive ApplyError
  | undecodable
  | brokerExists (brokerID : UInt64)
  | noBroker (brokerID : UInt64)
  | topicExists (name : Utf8Text)
  | noTopic (name : Utf8Text)
  | partitionExists (id : Utf8Text)
  | noPartition (id : Utf8Text)
deriving DecidableEq

/-- The metadata after an operation, and whether it was rejected. -/
abbrev Applied (τ : Type) := ClusterMetadata τ × Except ApplyError Unit

namespace ClusterMetadata

def new (now : τ) : ClusterMetadata τ := ⟨∅, ∅, ∅, 0, now⟩

variable (m : ClusterMetadata τ)

/-- The end of every operation that is accepted. -/
def modified (now : τ) : ClusterMetadata τ :=
  { m with version := m.version + 1, lastModified := now }

-- `clock n` is what the operation reads when it looks at the clock for the
-- `n`-th time.
def applyRegisterBroker (clock : Nat → τ) (broker : BrokerInfo τ) : Applied τ :=
  match m.brokers.find? broker.id with
  | some _ => (m, .error (.brokerExists broker.id))
  | none =>
    (modified { m with
      brokers := m.brokers.insert broker.id
        { broker with
          registeredAt := clock 0
          lastHeartbeat := clock 1
          status := brokerStatusAlive } } (clock 2), .ok ())

def applyUnregisterBroker (clock : Nat → τ) (brokerID : UInt64) : Applied τ :=
  match m.brokers.find? brokerID with
  | none => (m, .error (.noBroker brokerID))
  | some _ =>
    (modified { m with brokers := m.brokers.erase brokerID } (clock 0), .ok ())

def applyUpdateBroker (clock : Nat → τ) (brokerID : UInt64) (status : Utf8Text)
    (resources : BrokerResources) (heartbeat : τ) : Applied τ :=
  match m.brokers.find? brokerID with
  | none => (m, .error (.noBroker brokerID))
  | some broker =>
    (modified { m with
      brokers := m.brokers.insert brokerID
        { broker with
          status := status
          resources := resources
          lastHeartbeat := heartbeat } } (clock 0), .ok ())

def applyCreateTopic (clock : Nat → τ) (name : Utf8Text)
    (numPartitions replicationFactor : Int64) (config : TopicConfig) :
    Applied τ :=
  match m.topics.find? name with
  | some _ => (m, .error (.topicExists name))
  | none =>
    (modified { m with
      topics := m.topics.insert name
        ⟨name, numPartitions, replicationFactor, config, clock 0, clock 0⟩ }
      (clock 1), .ok ())

/-- Partitions go with their topic. -/
def applyDeleteTopic (clock : Nat → τ) (name : Utf8Text) : Applied τ :=
  match m.topics.find? name with
  | none => (m, .error (.noTopic name))
  | some _ =>
    (modified { m with
      topics := m.topics.erase name
      partitions := m.partitions.filter fun _ partition =>
        partition.topic ≠ name } (clock 0), .ok ())

def applyUpdateTopic (clock : Nat → τ) (name : Utf8Text)
    (config : TopicConfig) : Applied τ :=
  match m.topics.find? name with
  | none => (m, .error (.noTopic name))
  | some topic =>
    (modified { m with
      topics := m.topics.insert name
        { topic with config := config, modifiedAt := clock 0 } } (clock 1), .ok ())

/-- A partition as it is created, whatever epoch and times it came with. -/
def created (now : τ) (partition : PartitionInfo τ) : PartitionInfo τ :=
  { partition with createdAt := now, modifiedAt := now, leaderEpoch := 1 }

def applyCreatePartition (clock : Nat → τ) (partition : PartitionInfo τ) :
    Applied τ :=
  match m.partitions.find? partition.partitionID with
  | some _ => (m, .error (.partitionExists partition.partitionID))
  | none =>
    (modified { m with
      partitions := m.partitions.insert partition.partitionID
        (created (clock 0) partition) } (clock 1), .ok ())

/-- The first of some partitions that is there already. -/
def existing? (partitions : List (PartitionInfo τ)) : Option (PartitionInfo τ) :=
  partitions.find? fun partition =>
    (m.partitions.find? partition.partitionID).isSome

-- Partitions of one batch are not compared with each other.
def applyBatchCreatePartitions (clock : Nat → τ)
    (partitions : List (PartitionInfo τ)) : Applied τ :=
  match m.existing? partitions with
  | some partition => (m, .error (.partitionExists partition.partitionID))
  | none =>
    (modified { m with
      partitions := m.partitions.writes (partitions.map fun partition =>
        (partition.partitionID, created (clock 0) partition)) } (clock 1), .ok ())

def applyUpdatePartition (clock : Nat → τ) (partition : PartitionInfo τ) :
    Applied τ :=
  match m.partitions.find? partition.partitionID with
  | none => (m, .error (.noPartition partition.partitionID))
  | some _ =>
    (modified { m with
      partitions := m.partitions.insert partition.partitionID
        { partition with modifiedAt := clock 0 } } (clock 1), .ok ())

/-- The operations that change one field or two of a partition. -/
def changePartition (clock : Nat → τ) (topic : Utf8Text) (partition : Int64)
    (change : PartitionInfo τ → PartitionInfo τ) : Applied τ :=
  match m.partitions.find? (partitionID topic partition) with
  | none => (m, .error (.noPartition (partitionID topic partition)))
  | some found =>
    (modified { m with
      partitions := m.partitions.insert (partitionID topic partition)
        { change found with modifiedAt := clock 0 } } (clock 1), .ok ())

def applyUpdateLeader (clock : Nat → τ) (topic : Utf8Text) (partition : Int64)
    (leader leaderEpoch : UInt64) : Applied τ :=
  m.changePartition clock topic partition fun found =>
    { found with leader := leader, leaderEpoch := leaderEpoch }

def applyUpdateISR (clock : Nat → τ) (topic : Utf8Text) (partition : Int64)
    (isr : List UInt64) : Applied τ :=
  m.changePartition clock topic partition fun found => { found with isr := isr }

def applyUpdateReplicaList (clock : Nat → τ) (topic : Utf8Text)
    (partition : Int64) (replicas : List UInt64) : Applied τ :=
  m.changePartition clock topic partition fun found =>
    { found with replicas := replicas }

def applyOperation (clock : Nat → τ) : Operation τ → Applied τ
  | .registerBroker broker => m.applyRegisterBroker clock broker
  | .unregisterBroker brokerID => m.applyUnregisterBroker clock brokerID
  | .updateBroker brokerID status resources heartbeat =>
    m.applyUpdateBroker clock brokerID status resources heartbeat
  | .createTopic name numPartitions replicationFactor config =>
    m.applyCreateTopic clock name numPartitions replicationFactor config
  | .deleteTopic name => m.applyDeleteTopic clock name
  | .updateTopic name config => m.applyUpdateTopic clock name config
  | .createPartition partition => m.applyCreatePartition clock partition
  | .updatePartition partition => m.applyUpdatePartition clock partition
  | .updateLeader topic partition leader leaderEpoch =>
    m.applyUpdateLeader clock topic partition leader leaderEpoch
  | .updateISR topic partition isr => m.applyUpdateISR clock topic partition isr
  | .updateReplicaList topic partition replicas =>
    m.applyUpdateReplicaList clock topic partition replicas
  | .batchCreatePartitions partitions =>
    m.applyBatchCreatePartitions clock partitions

/-- Bytes that decode to no operation are rejected. -/
def apply (decode : Bytes → Option (Operation τ)) (m : ClusterMetadata τ)
    (clock : Nat → τ) (data : Bytes) : Applied τ :=
  match decode data with
  | none => (m, .error .undecodable)
  | some op => m.applyOperation clock op

end ClusterMetadata

open Option OrderedMap

variable {τ : Type}

namespace PartitionInfo

def WellFormed (topics : OrderedMap Utf8Text (TopicInfo τ))
    (partition : PartitionInfo τ) : Prop :=
  (∀ id ∈ partition.isr, id ∈ partition.replicas) ∧
    (partition.leader = 0 ∨ partition.leader ∈ partition.replicas) ∧
    (topics.find? partition.topic).isSome

/-- The epoch does not fall, and a new leader comes with a higher one. -/
def Advances (old partition : PartitionInfo τ) : Prop :=
  old.leaderEpoch ≤ partition.leaderEpoch ∧
    (partition.leader ≠ old.leader → old.leaderEpoch < partition.leaderEpoch)

theorem Advances.of_eq {old partition : PartitionInfo τ}
    (hleader : partition.leader = old.leader)
    (hepoch : partition.leaderEpoch = old.leaderEpoch) :
    old.Advances partition :=
  ⟨hepoch.ge, fun hne => absurd hleader hne⟩

end PartitionInfo

namespace ClusterMetadata

def WellFormed (m : ClusterMetadata τ) : Prop :=
  ∀ id partition, m.partitions.find? id = some partition →
    partition.WellFormed m.topics

/-- A partition that is there before and after has advanced. -/
def Advances (m after : ClusterMetadata τ) : Prop :=
  ∀ id old partition, m.partitions.find? id = some old →
    after.partitions.find? id = some partition → old.Advances partition

def Upholds (m after : ClusterMetadata τ) : Prop :=
  after.WellFormed ∧ m.Advances after

/-- An operation that is accepted leaves a partition that is well formed and
has advanced.  Each operation answers for the fields it writes only. -/
def Fits (m : ClusterMetadata τ) : Operation τ → Prop
  | .createPartition partition =>
    (m.partitions.find? partition.partitionID).isSome ∨ partition.WellFormed m.topics
  | .batchCreatePartitions partitions =>
    (m.existing? partitions).isSome ∨
      Keyed.LastWrites (PartitionInfo.WellFormed m.topics)
        (partitions.map fun partition => (partition.partitionID, partition))
  | .updatePartition partition =>
    ∀ old ∈ m.partitions.find? partition.partitionID,
      partition.WellFormed m.topics ∧ old.Advances partition
  | .updateLeader topic partition leader leaderEpoch =>
    ∀ old ∈ m.partitions.find? (partitionID topic partition),
      (leader = 0 ∨ leader ∈ old.replicas) ∧ old.leaderEpoch ≤ leaderEpoch ∧
        (leader ≠ old.leader → old.leaderEpoch < leaderEpoch)
  | .updateISR topic partition isr =>
    ∀ old ∈ m.partitions.find? (partitionID topic partition),
      ∀ id ∈ isr, id ∈ old.replicas
  | .updateReplicaList topic partition replicas =>
    ∀ old ∈ m.partitions.find? (partitionID topic partition),
      (∀ id ∈ old.isr, id ∈ replicas) ∧ (old.leader = 0 ∨ old.leader ∈ replicas)
  | _ => True

/-- An operation as it arrives, with the times read while it is applied. -/
abbrev Committed (τ : Type) := (Nat → τ) × Bytes

variable (decode : Bytes → Option (Operation τ))

def step (m : ClusterMetadata τ) (entry : Committed τ) : ClusterMetadata τ :=
  (m.apply decode entry.1 entry.2).1

/-- Bytes that decode to no operation always fit. -/
def DataFits (m : ClusterMetadata τ) (entry : Committed τ) : Prop :=
  ∀ op ∈ decode entry.2, m.Fits op

variable {m : ClusterMetadata τ}

section

variable (hwell : m.WellFormed)

include hwell

theorem WellFormed.upholds_self : m.Upholds m := by
  refine ⟨hwell, fun id old partition hold hpartition => ?_⟩
  obtain rfl := Option.some.inj (hold.symm.trans hpartition)
  exact .of_eq rfl rfl

/-- Partitions that stay as they are, or go, stay well formed as long as the
topics of those that stay are there. -/
theorem WellFormed.upholds_of_remaining {after : ClusterMetadata τ}
    (hremaining : ∀ id partition, after.partitions.find? id = some partition →
      m.partitions.find? id = some partition ∧
        ((m.topics.find? partition.topic).isSome →
          (after.topics.find? partition.topic).isSome)) :
    m.Upholds after := by
  refine ⟨fun id partition hfind => ?_, fun id old partition hold hfind => ?_⟩
  · obtain ⟨hbefore, htopic⟩ := hremaining id partition hfind
    obtain ⟨hisr, hleader, hknown⟩ := hwell id partition hbefore
    exact ⟨hisr, hleader, htopic hknown⟩
  · obtain ⟨hbefore, -⟩ := hremaining id partition hfind
    obtain rfl := Option.some.inj (hold.symm.trans hbefore)
    exact .of_eq rfl rfl

/-- Writing one partition keeps the rules exactly if that partition does. -/
theorem WellFormed.upholds_insert_iff (id : Utf8Text)
    (partition : PartitionInfo τ) (now : τ) :
    m.Upholds (modified { m with
        partitions := m.partitions.insert id partition } now) ↔
      partition.WellFormed m.topics ∧
        ∀ old ∈ m.partitions.find? id, old.Advances partition := by
  constructor
  · rintro ⟨hafter, hadvances⟩
    have hself : (m.partitions.insert id partition).find? id = some partition :=
      m.partitions.find?_insert_self id partition
    exact ⟨hafter id partition hself, fun old hold =>
      hadvances id old partition hold hself⟩
  · rintro ⟨hpartition, hadvances⟩
    refine ⟨fun probe found hfind => ?_, fun probe old found hold hfind => ?_⟩
    all_goals
      change (m.partitions.insert id partition).find? probe = some found at hfind
      rw [find?_insert] at hfind
      split at hfind
    · obtain rfl := Option.some.inj hfind
      exact hpartition
    · exact hwell probe found hfind
    next hid =>
      obtain rfl := Option.some.inj hfind
      exact hadvances old (hid ▸ hold)
    · obtain rfl := Option.some.inj (hold.symm.trans hfind)
      exact .of_eq rfl rfl

theorem upholds_applyCreatePartition_iff (clock : Nat → τ)
    (partition : PartitionInfo τ) :
    m.Upholds (m.applyCreatePartition clock partition).1 ↔
      m.Fits (.createPartition partition) := by
  unfold applyCreatePartition Fits
  cases hfind : m.partitions.find? partition.partitionID with
  | some old => simp [hwell.upholds_self, hfind]
  | none =>
    simp only [hwell.upholds_insert_iff, hfind, isSome_none,
      Bool.false_eq_true, false_or]
    exact and_iff_left (by simp)

theorem upholds_applyUpdatePartition_iff (clock : Nat → τ)
    (partition : PartitionInfo τ) :
    m.Upholds (m.applyUpdatePartition clock partition).1 ↔
      m.Fits (.updatePartition partition) := by
  unfold applyUpdatePartition Fits
  cases hfind : m.partitions.find? partition.partitionID with
  | none => simp [hwell.upholds_self, hfind]
  | some old =>
    simp only [hwell.upholds_insert_iff, hfind, mem_some_iff, forall_eq']
    exact Iff.rfl

/-- A change to a partition that is there keeps the rules exactly if the
changed partition does. -/
theorem upholds_changePartition_iff (clock : Nat → τ) (topic : Utf8Text)
    (partition : Int64) (change : PartitionInfo τ → PartitionInfo τ) :
    m.Upholds (m.changePartition clock topic partition change).1 ↔
      ∀ old ∈ m.partitions.find? (partitionID topic partition),
        (change old).WellFormed m.topics ∧ old.Advances (change old) := by
  unfold changePartition
  cases hfind : m.partitions.find? (partitionID topic partition) with
  | none => simp [hwell.upholds_self]
  | some old =>
    simp only [hwell.upholds_insert_iff, hfind, mem_some_iff, forall_eq']
    exact Iff.rfl

theorem upholds_applyUpdateLeader_iff (clock : Nat → τ) (topic : Utf8Text)
    (partition : Int64) (leader leaderEpoch : UInt64) :
    m.Upholds (m.applyUpdateLeader clock topic partition leader leaderEpoch).1 ↔
      m.Fits (.updateLeader topic partition leader leaderEpoch) := by
  refine (upholds_changePartition_iff hwell clock topic partition _).trans
    (forall₂_congr fun old hold => ?_)
  obtain ⟨hisr, -, htopic⟩ := hwell _ old hold
  exact and_congr_left fun _ =>
    ⟨fun hchanged => hchanged.2.1, fun hleader => ⟨hisr, hleader, htopic⟩⟩

theorem upholds_applyUpdateISR_iff (clock : Nat → τ) (topic : Utf8Text)
    (partition : Int64) (isr : List UInt64) :
    m.Upholds (m.applyUpdateISR clock topic partition isr).1 ↔
      m.Fits (.updateISR topic partition isr) := by
  refine (upholds_changePartition_iff hwell clock topic partition _).trans
    (forall₂_congr fun old hold => ?_)
  obtain ⟨-, hleader, htopic⟩ := hwell _ old hold
  exact ⟨fun hchanged => hchanged.1.1,
    fun hisr => ⟨⟨hisr, hleader, htopic⟩, .of_eq rfl rfl⟩⟩

theorem upholds_applyUpdateReplicaList_iff (clock : Nat → τ) (topic : Utf8Text)
    (partition : Int64) (replicas : List UInt64) :
    m.Upholds (m.applyUpdateReplicaList clock topic partition replicas).1 ↔
      m.Fits (.updateReplicaList topic partition replicas) := by
  refine (upholds_changePartition_iff hwell clock topic partition _).trans
    (forall₂_congr fun old hold => ?_)
  obtain ⟨-, -, htopic⟩ := hwell _ old hold
  exact ⟨fun hchanged => ⟨hchanged.1.1, hchanged.1.2.1⟩,
    fun hfits => ⟨⟨hfits.1, hfits.2, htopic⟩, .of_eq rfl rfl⟩⟩

omit hwell in
theorem existing?_eq_none_iff {partitions : List (PartitionInfo τ)} :
    m.existing? partitions = none ↔ ∀ partition ∈ partitions,
      m.partitions.find? partition.partitionID = none := by
  simp [existing?]

omit hwell in
theorem find?_writes_batch {partitions : List (PartitionInfo τ)} {id : Utf8Text}
    (hid : id ∉ partitions.map PartitionInfo.partitionID) (now : τ) :
    (m.partitions.writes (partitions.map fun partition =>
        (partition.partitionID, created now partition))).find? id =
      m.partitions.find? id := by
  refine find?_writes_of_notMem (fun value hmem => hid ?_) _
  obtain ⟨partition, hpartition, heq⟩ := List.mem_map.mp hmem
  exact List.mem_map.mpr ⟨partition, hpartition, congrArg Prod.fst heq⟩

-- A batch is accepted only if none of its partitions is there, so that its
-- writes replace nothing but each other.
theorem upholds_applyBatchCreatePartitions_iff (clock : Nat → τ)
    (partitions : List (PartitionInfo τ)) :
    m.Upholds (m.applyBatchCreatePartitions clock partitions).1 ↔
      m.Fits (.batchCreatePartitions partitions) := by
  unfold applyBatchCreatePartitions Fits
  cases hexisting : m.existing? partitions with
  | some partition => simp [hwell.upholds_self, hexisting]
  | none =>
    simp only [hexisting, isSome_none, Bool.false_eq_true, false_or]
    have hwrites : (partitions.map fun partition =>
        (partition.partitionID, created (clock 0) partition)) =
        (partitions.map fun partition =>
          (partition.partitionID, partition)).map
            fun entry => (entry.1, created (clock 0) entry.2) := by
      rw [List.map_map]
      rfl
    have hwellFormed := m.partitions.forall_find?_writes_iff
      (PartitionInfo.WellFormed m.topics) (partitions.map fun partition =>
        (partition.partitionID, created (clock 0) partition))
    rw [hwrites, Keyed.lastWrites_map_iff, ← hwrites] at hwellFormed
    constructor
    · rintro ⟨hafter, -⟩
      exact (hwellFormed.mp hafter).1
    · intro hlast
      refine ⟨hwellFormed.mpr ⟨hlast, fun id partition hfind _ =>
        hwell id partition hfind⟩, fun id old partition hold hfind => ?_⟩
      have hother : id ∉ partitions.map PartitionInfo.partitionID := by
        intro hmem
        obtain ⟨partition, hpartition, rfl⟩ := List.mem_map.mp hmem
        rw [existing?_eq_none_iff.mp hexisting partition hpartition] at hold
        cases hold
      have hsame := find?_writes_batch (m := m) hother (clock 0)
      obtain rfl := Option.some.inj (hold.symm.trans (hsame.symm.trans hfind))
      exact .of_eq rfl rfl

theorem upholds_applyDeleteTopic (clock : Nat → τ) (name : Utf8Text) :
    m.Upholds (m.applyDeleteTopic clock name).1 := by
  unfold applyDeleteTopic
  cases m.topics.find? name with
  | none => exact hwell.upholds_self
  | some topic =>
    refine hwell.upholds_of_remaining fun id partition hfind => ?_
    change (m.partitions.filter fun _ partition =>
      partition.topic ≠ name).find? id = some partition at hfind
    rw [find?_filter, filter_eq_some_iff] at hfind
    obtain ⟨hbefore, hother⟩ := hfind
    refine ⟨hbefore, fun hknown => ?_⟩
    change ((m.topics.erase name).find? partition.topic).isSome
    have hne : name ≠ partition.topic := Ne.symm (of_decide_eq_true hother)
    rw [find?_erase, if_neg hne]
    exact hknown

/-- Topics that are created or configured take no topic away. -/
theorem upholds_insertTopic (name : Utf8Text) (topic : TopicInfo τ) (now : τ) :
    m.Upholds (modified { m with topics := m.topics.insert name topic } now) := by
  refine hwell.upholds_of_remaining fun id partition hfind =>
    ⟨hfind, fun hknown => ?_⟩
  change ((m.topics.insert name topic).find? partition.topic).isSome
  rw [find?_insert]
  split
  · rfl
  · exact hknown

/-- An operation keeps the rules exactly if it fits. -/
theorem upholds_applyOperation_iff (clock : Nat → τ) (op : Operation τ) :
    m.Upholds (m.applyOperation clock op).1 ↔ m.Fits op := by
  cases op with
  | createPartition partition =>
    exact upholds_applyCreatePartition_iff hwell clock partition
  | updatePartition partition =>
    exact upholds_applyUpdatePartition_iff hwell clock partition
  | updateLeader topic partition leader leaderEpoch =>
    exact upholds_applyUpdateLeader_iff hwell clock topic partition leader leaderEpoch
  | updateISR topic partition isr =>
    exact upholds_applyUpdateISR_iff hwell clock topic partition isr
  | updateReplicaList topic partition replicas =>
    exact upholds_applyUpdateReplicaList_iff hwell clock topic partition replicas
  | batchCreatePartitions partitions =>
    exact upholds_applyBatchCreatePartitions_iff hwell clock partitions
  | deleteTopic name =>
    exact iff_of_true (upholds_applyDeleteTopic hwell clock name) trivial
  | createTopic name numPartitions replicationFactor config =>
    refine iff_of_true ?_ trivial
    rw [applyOperation, applyCreateTopic]
    cases m.topics.find? name with
    | some topic => exact hwell.upholds_self
    | none => exact upholds_insertTopic hwell name _ _
  | updateTopic name config =>
    refine iff_of_true ?_ trivial
    rw [applyOperation, applyUpdateTopic]
    cases m.topics.find? name with
    | none => exact hwell.upholds_self
    | some topic => exact upholds_insertTopic hwell name _ _
  -- The rules do not look at brokers.
  | registerBroker broker =>
    refine iff_of_true ?_ trivial
    rw [applyOperation, applyRegisterBroker]
    cases m.brokers.find? broker.id <;> exact hwell.upholds_self
  | unregisterBroker brokerID =>
    refine iff_of_true ?_ trivial
    rw [applyOperation, applyUnregisterBroker]
    cases m.brokers.find? brokerID <;> exact hwell.upholds_self
  | updateBroker brokerID status resources heartbeat =>
    refine iff_of_true ?_ trivial
    rw [applyOperation, applyUpdateBroker]
    cases m.brokers.find? brokerID <;> exact hwell.upholds_self

theorem upholds_step_iff (entry : Committed τ) :
    m.Upholds (step decode m entry) ↔ DataFits decode m entry := by
  unfold step apply DataFits
  cases hdecode : decode entry.2 with
  | none => simp [hwell.upholds_self]
  | some op =>
    simp only [mem_some_iff, forall_eq']
    exact upholds_applyOperation_iff hwell entry.1 op

end

/-- Partitions are well formed and advance throughout a log exactly if each of
its operations fits the metadata it is applied to. -/
theorem allUphold_iff_allFit (decode : Bytes → Option (Operation τ)) (now : τ)
    (log : List (Committed τ)) :
    AllAllowed (step decode) (fun m entry => m.Upholds (step decode m entry))
        (new now) log ↔
      AllAllowed (step decode) (DataFits decode) (new now) log := by
  refine allAllowed_iff WellFormed
    (fun entry _ m hwell => upholds_step_iff decode hwell entry)
    (fun entry _ m hwell hfits =>
      ((upholds_step_iff decode hwell entry).mpr hfits).1) ?_
  intro id partition hfind
  cases hfind

/-- A topic with one partition on two brokers, which broker 9 is then to lead
in an epoch that was over before it began. -/
def overruled : List (Operation Nat) :=
  let orders : Utf8Text := ⟨textBytes "orders", by decide⟩
  [.createTopic orders 1 2 ⟨0, 0, 0, 0, 0, orders⟩,
    .createPartition ⟨orders, 0, 1, [1, 2], [1, 2], [], 0, 0, 0⟩,
    .updateLeader orders 0 9 0]

/-- The metadata after some of these operations, each applied at its place in
the log. -/
def overruledAfter (entries : List (Committed Nat)) : ClusterMetadata Nat :=
  runSteps (step fun data => overruled[data.length]?) (new 0) entries

/-- A broker that is no replica becomes the leader, and the epoch falls. -/
theorem not_upholds_overruled :
    ¬ (overruledAfter [(fun _ => 1, []), (fun _ => 2, [0])]).Upholds (overruledAfter
          [(fun _ => 1, []), (fun _ => 2, [0]), (fun _ => 3, [0, 0])]) ∧
      ((overruledAfter [(fun _ => 1, []), (fun _ => 2, [0])]).partitions.entries.map
        fun entry => (entry.2.leader, entry.2.replicas, entry.2.leaderEpoch)) =
        [(1, [1, 2], 1)] ∧
      ((overruledAfter [(fun _ => 1, []), (fun _ => 2, [0]),
          (fun _ => 3, [0, 0])]).partitions.entries.map
        fun entry => (entry.2.leader, entry.2.replicas, entry.2.leaderEpoch)) =
        [(9, [1, 2], 0)] := by
  refine ⟨?_, by decide +kernel, by decide +kernel⟩
  rintro ⟨hwell, -⟩
  have hall : ∀ entry ∈ (overruledAfter [(fun _ => 1, []), (fun _ => 2, [0]),
      (fun _ => 3, [0, 0])]).partitions.entries,
      entry.2.leader = 0 ∨ entry.2.leader ∈ entry.2.replicas := by
    intro entry hentry
    exact (hwell entry.1 entry.2 ((mem_entries_iff _ _ _).mp hentry)).2.1
  revert hall
  decide +kernel

end ClusterMetadata

variable {τ : Type}

namespace Operation

def brokerIDs : Operation τ → List UInt64
  | .registerBroker broker => [broker.id]
  | .unregisterBroker brokerID | .updateBroker brokerID _ _ _ => [brokerID]
  | _ => []

def topicNames : Operation τ → List Utf8Text
  | .createTopic name _ _ _ | .deleteTopic name | .updateTopic name _ => [name]
  | _ => []

def deletedTopics : Operation τ → List Utf8Text
  | .deleteTopic name => [name]
  | _ => []

def partitionIDs : Operation τ → List Utf8Text
  | .createPartition partition | .updatePartition partition =>
    [partition.partitionID]
  | .updateLeader topic partition _ _ | .updateISR topic partition _
  | .updateReplicaList topic partition _ => [partitionID topic partition]
  | .batchCreatePartitions partitions =>
    partitions.map PartitionInfo.partitionID
  | _ => []

/-- Nothing changes but what is named, and the partitions of a deleted topic
go. -/
structure Confined (op : Operation τ) (m changed : ClusterMetadata τ) : Prop where
  brokers : ∀ id ∉ op.brokerIDs, changed.brokers.find? id = m.brokers.find? id
  topics : ∀ name ∉ op.topicNames, changed.topics.find? name = m.topics.find? name
  partitions : ∀ id ∉ op.partitionIDs, changed.partitions.find? id =
    (m.partitions.find? id).filter fun partition =>
      partition.topic ∉ op.deletedTopics

/-- A batch comes on top of the partitions that are there. -/
def Adds (m changed : ClusterMetadata τ) : Operation τ → Prop
  | .batchCreatePartitions partitions =>
    changed.partitions.entries.length =
        m.partitions.entries.length + partitions.length ∧
      ∀ id old, m.partitions.find? id = some old →
        changed.partitions.find? id = some old
  | _ => True

end Operation

namespace ClusterMetadata

variable {m changed : ClusterMetadata τ} {clock : Nat → τ} {op : Operation τ}

-- Each operation either fails or ends in one insertion, removal or batch of
-- writes to one of the maps, and a look-up elsewhere passes it by.
theorem confined_applyOperation
    (hok : m.applyOperation clock op = (changed, .ok ())) :
    changed.version = m.version + 1 ∧ op.Confined m changed := by
  have hkept (found : Option (PartitionInfo τ)) :
      found.filter (fun _ => true) = found := by
    cases found <;> rfl
  cases op
  all_goals
    simp only [applyOperation, applyRegisterBroker, applyUnregisterBroker,
      applyUpdateBroker, applyCreateTopic, applyDeleteTopic, applyUpdateTopic,
      applyCreatePartition, applyUpdatePartition, applyUpdateLeader,
      applyUpdateISR, applyUpdateReplicaList, changePartition,
      applyBatchCreatePartitions] at hok
    split at hok <;> cases hok
    refine ⟨rfl, fun id hid => ?_, fun id hid => ?_, fun id hid => ?_⟩
  all_goals
    simp_all [modified, Operation.brokerIDs, Operation.topicNames,
      Operation.deletedTopics, Operation.partitionIDs, find?_insert,
      find?_erase, find?_filter, find?_writes_batch,
      eq_comm (a := id)]

theorem adds_applyOperation_iff
    (hok : m.applyOperation clock op = (changed, .ok ())) :
    op.Adds m changed ↔ op.partitionIDs.Nodup := by
  cases op with
  | batchCreatePartitions partitions =>
    simp only [applyOperation, applyBatchCreatePartitions] at hok
    split at hok <;> cases hok
    rename_i hexisting
    rw [existing?_eq_none_iff] at hexisting
    have hkeys : (partitions.map fun partition =>
        (partition.partitionID, created (clock 0) partition)).map Prod.fst =
        partitions.map PartitionInfo.partitionID := by simp
    have hlength := (m.partitions.length_writes (partitions.map fun partition =>
      (partition.partitionID, created (clock 0) partition))).2
    rw [hkeys, List.length_map] at hlength
    refine ⟨fun hadds => (hlength.mp hadds.1).1, fun hnodup => ⟨hlength.mpr
      ⟨hnodup, List.forall_mem_map.mpr hexisting⟩, fun id old hold => ?_⟩⟩
    refine (find?_writes_batch (fun hmem => ?_) (clock 0)).trans hold
    obtain ⟨partition, hpartition, rfl⟩ := List.mem_map.mp hmem
    simp [hexisting partition hpartition] at hold
  | _ => simp [Operation.Adds, Operation.partitionIDs]

variable (decode : Bytes → Option (Operation τ))

/-- A rejected operation changes nothing, and an accepted one does what it is
for and no more. -/
def AllOrNothing (m : ClusterMetadata τ) (clock : Nat → τ) (data : Bytes) :
    Prop :=
  match decode data, m.apply decode clock data with
  | some op, (changed, .ok _) =>
    changed.version.toNat = m.version.toNat + 1 ∧ op.Confined m changed ∧
      op.Adds m changed
  | none, (_, .ok _) => False
  | _, (changed, .error _) => changed = m

/-- What an operation creates is not there yet, and what it changes or removes
is there. -/
def Accepts (m : ClusterMetadata τ) : Operation τ → Prop
  | .registerBroker broker => m.brokers.find? broker.id = none
  | .unregisterBroker brokerID | .updateBroker brokerID _ _ _ =>
    m.brokers.find? brokerID ≠ none
  | .createTopic name _ _ _ => m.topics.find? name = none
  | .deleteTopic name | .updateTopic name _ => m.topics.find? name ≠ none
  | .createPartition partition =>
    m.partitions.find? partition.partitionID = none
  | .batchCreatePartitions partitions => ∀ partition ∈ partitions,
      m.partitions.find? partition.partitionID = none
  | .updatePartition partition =>
    m.partitions.find? partition.partitionID ≠ none
  | .updateLeader topic partition _ _ | .updateISR topic partition _
  | .updateReplicaList topic partition _ =>
    m.partitions.find? (partitionID topic partition) ≠ none

theorem applyOperation_cases (m : ClusterMetadata τ) (clock : Nat → τ)
    (op : Operation τ) :
    (m.Accepts op ∧ ∃ changed, m.applyOperation clock op = (changed, .ok ())) ∨
      (¬ m.Accepts op ∧ ∃ err, m.applyOperation clock op = (m, .error err)) := by
  cases op
  all_goals
    simp only [applyOperation, applyRegisterBroker, applyUnregisterBroker,
      applyUpdateBroker, applyCreateTopic, applyDeleteTopic, applyUpdateTopic,
      applyCreatePartition, applyUpdatePartition, applyUpdateLeader,
      applyUpdateISR, applyUpdateReplicaList, changePartition,
      applyBatchCreatePartitions, Accepts, ← existing?_eq_none_iff]
    split <;> simp_all

/-- What is accepted must find a next version and name no partition twice. -/
theorem allOrNothing_iff (m : ClusterMetadata τ) (clock : Nat → τ) (data : Bytes) :
    m.AllOrNothing decode clock data ↔ ∀ op ∈ decode data, m.Accepts op →
        m.version.toNat + 1 < 2 ^ 64 ∧ op.partitionIDs.Nodup := by
  unfold AllOrNothing apply
  cases hdecode : decode data with
  | none => simp
  | some op =>
    rcases m.applyOperation_cases clock op with
      ⟨haccepts, changed, hok⟩ | ⟨hrefuses, err, herror⟩
    · obtain ⟨hversion, hconfined⟩ := confined_applyOperation hok
      have hnext : changed.version.toNat = m.version.toNat + 1 ↔
          m.version.toNat + 1 < 2 ^ 64 := by
        rw [hversion]
        simp
      simp [hok, hnext, hconfined, adds_applyOperation_iff hok, haccepts]
    · simp [herror, hrefuses]

def firstPartition : PartitionInfo Unit :=
  ⟨⟨textBytes "t", by decide⟩, 0, 1, [1], [1], [], 0, (), ()⟩

/-- A batch that lists a partition twice succeeds and adds it once. -/
theorem not_allOrNothing_twice : ¬ (new ()).AllOrNothing
      (fun _ => some (.batchCreatePartitions [firstPartition, firstPartition]))
      (fun _ => ()) [] :=
  fun hall => absurd hall.2.2.1 (by decide +kernel)

variable (m)

theorem step_eq_or_version (entry : Committed τ) : m.step decode entry = m ∨
      (m.step decode entry).version = m.version + 1 := by
  unfold step apply
  cases decode entry.2 with
  | none => exact Or.inl rfl
  | some op =>
    dsimp only
    rcases m.applyOperation_cases entry.1 op with
      ⟨_, changed, hok⟩ | ⟨_, err, herror⟩
    · rw [hok]
      exact Or.inr (confined_applyOperation hok).1
    · exact Or.inl (congrArg Prod.fst herror)

/-- The version counts the operations that were accepted. -/
theorem version_runSteps (entries : List (Committed τ)) : ∃ changes ≤ entries.length,
      (runSteps (step decode) m entries).version.toNat =
        (m.version.toNat + changes) % 2 ^ 64 ∧
      (changes = 0 → runSteps (step decode) m entries = m) := by
  induction entries generalizing m with
  | nil =>
    exact ⟨0, le_rfl, (Nat.mod_eq_of_lt m.version.toNat_lt).symm, fun _ => rfl⟩
  | cons entry entries ih =>
    obtain ⟨changes, hle, hversion, hsame⟩ := ih (m.step decode entry)
    rcases m.step_eq_or_version decode entry with hstep | hstep
    · rw [hstep] at hversion hsame
      refine ⟨changes, Nat.le_succ_of_le hle, ?_⟩
      simpa only [runSteps, List.foldl_cons, hstep] using ⟨hversion, hsame⟩
    · refine ⟨changes + 1, Nat.succ_le_succ hle, hversion.trans ?_, by simp⟩
      rw [hstep, UInt64.toNat_add, UInt64.toNat_one]
      omega

/-- Metadata of the same version is the same, unless so many operations came in
between that the version could wrap around. -/
theorem eq_or_version_ne (entries : List (Committed τ)) :
    let after := runSteps (step decode) m entries
    after = m ∨ after.version ≠ m.version ∨ 2 ^ 64 ≤ entries.length := by
  obtain ⟨changes, hle, hversion, hsame⟩ := m.version_runSteps decode entries
  by_cases hnone : changes = 0
  · exact Or.inl (hsame hnone)
  · right
    by_contra! hwrapped
    rw [hwrapped.1] at hversion
    have hbound := m.version.toNat_lt
    omega

end ClusterMetadata

end Streambus.Metadata
