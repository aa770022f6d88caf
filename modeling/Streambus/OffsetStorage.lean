/-
The committed offsets of consumer groups.  They are kept in a table by group,
topic and partition, and the whole table is written to a snapshot file after
every change; a write that fails before the snapshot was replaced is undone in
the table.
-/
import Streambus.OrderedMap
import Streambus.TextFormat

namespace Streambus.Group

open Option OrderedMap

/-- Times are in nanoseconds since 1970. -/
structure OffsetAndMetadata where
  offset : Int
  metadata : Bytes
  commitTime : Int
  expireTime : Int
  leaderEpoch : Int
deriving DecidableEq

abbrev PartitionOffsets := OrderedMap Int OffsetAndMetadata

abbrev TopicOffsets := OrderedMap Bytes PartitionOffsets

/-- The offsets by group, topic and partition.  No group and no topic is kept
without an offset. -/
structure OffsetTable where
  groups : OrderedMap Bytes TopicOffsets
  topics_ne : ∀ groupId, groups.find? groupId ≠ some ∅
  partitions_ne : ∀ groupId topics, groups.find? groupId = some topics →
    ∀ topic, topics.find? topic ≠ some ∅

/-- A group, a topic and a partition. -/
abbrev OffsetKey := Bytes × Bytes × Int

namespace OffsetTable

instance : DecidableEq OffsetTable := fun left right =>
  decidable_of_iff (left.groups = right.groups) (by
    cases left
    cases right
    simp)

def empty : OffsetTable := ⟨∅, by simp, by simp⟩

def topics (table : OffsetTable) (groupId : Bytes) : TopicOffsets :=
  (table.groups.find? groupId).getD ∅

def partitions (table : OffsetTable) (groupId topic : Bytes) :
    PartitionOffsets :=
  ((table.topics groupId).find? topic).getD ∅

/-- The stored offset of a partition. -/
def lookup (table : OffsetTable) (key : OffsetKey) : Option OffsetAndMetadata :=
  (table.partitions key.1 key.2.1).find? key.2.2

variable (table : OffsetTable)

theorem topics_partitions_ne (groupId topic : Bytes) :
    (table.topics groupId).find? topic ≠ some ∅ := by
  unfold topics
  cases hgroup : table.groups.find? groupId with
  | none => simp
  | some topics => exact table.partitions_ne groupId topics hgroup topic

/-- Replace the topics of a group. -/
def setGroup (table : OffsetTable) (groupId : Bytes) (topics : TopicOffsets)
    (hne : topics ≠ ∅) (hpartitions : ∀ topic, topics.find? topic ≠ some ∅) :
    OffsetTable where
  groups := table.groups.insert groupId topics
  topics_ne probe := by
    rw [find?_insert]
    split
    · exact fun heq => hne (Option.some.inj heq)
    · exact table.topics_ne probe
  partitions_ne probe found hfound := by
    rw [find?_insert] at hfound
    split at hfound
    · rw [← Option.some.inj hfound]
      exact hpartitions
    · exact table.partitions_ne probe found hfound

def deleteGroup (table : OffsetTable) (groupId : Bytes) : OffsetTable where
  groups := table.groups.erase groupId
  topics_ne probe := by
    rw [find?_erase]
    split
    · simp
    · exact table.topics_ne probe
  partitions_ne probe found hfound := by
    rw [find?_erase] at hfound
    split at hfound
    · cases hfound
    · exact table.partitions_ne probe found hfound

/-- Put back the topics that a group had. -/
def restoreGroup (table before : OffsetTable) (groupId : Bytes) : OffsetTable :=
  match hgroup : before.groups.find? groupId with
  | none => table
  | some topics =>
    table.setGroup groupId topics (fun heq => before.topics_ne groupId (heq ▸ hgroup))
      (before.partitions_ne groupId topics hgroup)

variable {topics : TopicOffsets}

theorem insert_partitions_ne (htopics : ∀ topic, topics.find? topic ≠ some ∅)
    {topic : Bytes} {partitions : PartitionOffsets} (hne : partitions ≠ ∅)
    (probe : Bytes) :
    (topics.insert topic partitions).find? probe ≠ some ∅ := by
  rw [find?_insert]
  split
  · exact fun heq => hne (Option.some.inj heq)
  · exact htopics probe

/-- Store an offset. -/
def put (table : OffsetTable) (key : OffsetKey) (offset : OffsetAndMetadata) :
    OffsetTable :=
  let partitions := (table.partitions key.1 key.2.1).insert key.2.2 offset
  let topics := (table.topics key.1).insert key.2.1 partitions
  table.setGroup key.1 topics (insert_ne_empty _ _ _)
    (insert_partitions_ne (table.topics_partitions_ne key.1) (insert_ne_empty _ _ _))

/-- The topics of a group without an offset, pruned of an empty topic. -/
def prunedTopics (topics : TopicOffsets) (topic : Bytes)
    (partitions : PartitionOffsets) : TopicOffsets :=
  if partitions = ∅ then topics.erase topic
  else topics.insert topic partitions

theorem prunedTopics_ne (htopics : ∀ topic, topics.find? topic ≠ some ∅)
    (topic : Bytes) (partitions : PartitionOffsets) (probe : Bytes) :
    (prunedTopics topics topic partitions).find? probe ≠ some ∅ := by
  unfold prunedTopics
  split
  · rw [find?_erase]
    split
    · simp
    · exact htopics probe
  next hne => exact insert_partitions_ne htopics hne probe

/-- Drop an offset, and the topic and the group if they have no other. -/
def remove (table : OffsetTable) (key : OffsetKey) : OffsetTable :=
  match hgroup : table.groups.find? key.1 with
  | none => table
  | some topics =>
    match topics.find? key.2.1 with
    | none => table
    | some partitions =>
      let pruned := prunedTopics topics key.2.1 (partitions.erase key.2.2)
      if hempty : pruned = ∅ then table.deleteGroup key.1
      else table.setGroup key.1 pruned hempty
        (prunedTopics_ne (table.partitions_ne key.1 topics hgroup) _ _)

theorem find?_groups (groupId : Bytes) : table.groups.find? groupId =
      if table.topics groupId = ∅ then none
      else some (table.topics groupId) := by
  unfold topics
  cases hgroup : table.groups.find? groupId with
  | none => rfl
  | some topics =>
    have hne : topics ≠ ∅ := fun heq =>
      table.topics_ne groupId (heq ▸ hgroup)
    simp [hne]

theorem find?_topics (groupId topic : Bytes) : (table.topics groupId).find? topic =
      if table.partitions groupId topic = ∅ then none
      else some (table.partitions groupId topic) := by
  have hpruned := table.topics_partitions_ne groupId topic
  unfold partitions
  cases htopic : (table.topics groupId).find? topic with
  | none => rfl
  | some partitions =>
    have hne : partitions ≠ ∅ := fun heq => hpruned (heq ▸ htopic)
    simp [hne]

theorem ext_lookup {left right : OffsetTable}
    (hlookup : ∀ key, left.lookup key = right.lookup key) : left = right := by
  have hpartitions : ∀ groupId topic,
      left.partitions groupId topic = right.partitions groupId topic := by
    intro groupId topic
    apply ext_find?
    intro partition
    exact hlookup (groupId, topic, partition)
  have htopics : ∀ groupId, left.topics groupId = right.topics groupId := by
    intro groupId
    apply ext_find?
    intro topic
    rw [find?_topics, find?_topics, hpartitions]
  have hgroups : left.groups = right.groups := by
    apply ext_find?
    intro groupId
    rw [find?_groups, find?_groups, htopics]
  cases left
  cases right
  cases hgroups
  rfl

theorem topics_setGroup (groupId probe : Bytes) (hne : topics ≠ ∅)
    (hpartitions : ∀ topic, topics.find? topic ≠ some ∅) :
    (table.setGroup groupId topics hne hpartitions).topics probe =
      if groupId = probe then topics else table.topics probe := by
  simp only [OffsetTable.topics, setGroup, find?_insert]
  split
  · rfl
  · rfl

theorem topics_deleteGroup (groupId probe : Bytes) :
    (table.deleteGroup groupId).topics probe =
      if groupId = probe then ∅ else table.topics probe := by
  simp only [topics, deleteGroup, find?_erase]
  split
  · rfl
  · rfl

theorem lookup_deleteGroup (groupId : Bytes) (key : OffsetKey) :
    (table.deleteGroup groupId).lookup key =
      if groupId = key.1 then none else table.lookup key := by
  simp only [lookup, partitions, topics_deleteGroup]
  split
  · rfl
  · rfl

/-- The offsets of a table one of whose groups was replaced. -/
theorem lookup_setGroup (groupId : Bytes) (hne : topics ≠ ∅)
    (hpartitions : ∀ topic, topics.find? topic ≠ some ∅) (key : OffsetKey) :
    (table.setGroup groupId topics hne hpartitions).lookup key =
      if groupId = key.1 then
        ((topics.find? key.2.1).getD ∅).find? key.2.2
      else table.lookup key := by
  simp only [lookup, partitions, topics_setGroup]
  split
  · rfl
  · rfl

theorem lookup_put (key probe : OffsetKey) (offset : OffsetAndMetadata) :
    (table.put key offset).lookup probe =
      if key = probe then some offset else table.lookup probe := by
  obtain ⟨groupId, topic, partition⟩ := key
  obtain ⟨probeGroup, probeTopic, probePartition⟩ := probe
  rw [put, lookup_setGroup]
  simp only [Prod.mk.injEq]
  by_cases hgroup : groupId = probeGroup
  · subst hgroup
    by_cases htopic : topic = probeTopic
    · subst htopic
      simp only [↓reduceIte, find?_insert_self, getD_some, find?_insert, true_and]
      rfl
    · simp only [↓reduceIte, find?_insert, htopic, false_and, and_false]
      rfl
  · simp only [hgroup, ↓reduceIte, false_and]

theorem find?_prunedTopics (topics : TopicOffsets) (topic probe : Bytes)
    (partitions : PartitionOffsets) :
    ((prunedTopics topics topic partitions).find? probe).getD ∅ =
      if topic = probe then partitions
      else (topics.find? probe).getD ∅ := by
  unfold prunedTopics
  split
  next hempty =>
    rw [find?_erase]
    split
    · rw [hempty]
      rfl
    · rfl
  · rw [find?_insert]
    split
    · rfl
    · rfl

theorem topics_remove (key : OffsetKey) (groupId : Bytes) :
    (table.remove key).topics groupId =
      if key.1 = groupId then
        prunedTopics (table.topics key.1) key.2.1
          ((table.partitions key.1 key.2.1).erase key.2.2)
      else table.topics groupId := by
  unfold remove
  split
  next hgroup =>
    have htopics : table.topics key.1 = ∅ := by
      rw [topics, hgroup, getD_none]
    split
    · rename_i heq
      rw [← heq, partitions, htopics]
      rfl
    · rfl
  next found hgroup =>
    have htopics : table.topics key.1 = found := by
      rw [topics, hgroup, getD_some]
    split
    · rename_i htopic
      have hpartitions : table.partitions key.1 key.2.1 = ∅ := by
        rw [partitions, htopics, htopic, getD_none]
      split
      · rename_i heq
        rw [hpartitions, ← heq, htopics]
        exact (erase_of_find?_eq_none htopic).symm
      · rfl
    · rename_i kept htopic
      have hpartitions : table.partitions key.1 key.2.1 = kept := by
        rw [partitions, htopics, htopic, getD_some]
      rw [hpartitions, htopics]
      dsimp only
      split
      · rename_i hempty
        rw [topics_deleteGroup, hempty]
      · exact topics_setGroup table key.1 groupId _ _

theorem lookup_remove (key probe : OffsetKey) : (table.remove key).lookup probe =
      if key = probe then none else table.lookup probe := by
  obtain ⟨groupId, topic, partition⟩ := key
  obtain ⟨probeGroup, probeTopic, probePartition⟩ := probe
  simp only [lookup, partitions, topics_remove, Prod.mk.injEq]
  by_cases hgroup : groupId = probeGroup
  · subst hgroup
    simp only [↓reduceIte, find?_prunedTopics, true_and]
    by_cases htopic : topic = probeTopic
    · subst htopic
      simp only [↓reduceIte, find?_erase, true_and]
    · simp only [htopic, ↓reduceIte, false_and]
  · simp only [hgroup, ↓reduceIte, false_and]

theorem topics_restoreGroup (table before : OffsetTable)
    (groupId probe : Bytes) (habsent : table.topics groupId = ∅) :
    (table.restoreGroup before groupId).topics probe =
      if groupId = probe then before.topics probe
      else table.topics probe := by
  unfold restoreGroup
  split
  next hgroup =>
    split
    · rename_i heq
      rw [← heq, habsent, topics, hgroup, getD_none]
    · rfl
  next found hgroup =>
    rw [topics_setGroup]
    split
    · rename_i heq
      rw [← heq, topics, hgroup, getD_some]
    · rfl

/-- The offsets of the table, group by group and topic by topic. -/
def entries (table : OffsetTable) : List (OffsetKey × OffsetAndMetadata) :=
  table.groups.entries.flatMap fun group =>
    group.2.entries.flatMap fun topic =>
      topic.2.entries.map fun entry =>
        ((group.1, topic.1, entry.1), entry.2)

theorem mem_entries_iff (key : OffsetKey) (offset : OffsetAndMetadata) :
    (key, offset) ∈ table.entries ↔ table.lookup key = some offset := by
  obtain ⟨groupId, topic, partition⟩ := key
  simp only [entries, List.mem_flatMap, List.mem_map, Prod.mk.injEq]
  constructor
  · rintro ⟨⟨_, topics⟩, hgroup, ⟨_, partitions⟩, htopic, ⟨_, _⟩, hentry,
      ⟨rfl, rfl, rfl⟩, rfl⟩
    rw [OrderedMap.mem_entries_iff] at hgroup htopic hentry
    simp only [lookup, OffsetTable.partitions, OffsetTable.topics, hgroup,
      htopic, hentry, getD_some]
  · intro hlookup
    simp only [lookup, partitions, topics] at hlookup
    cases hgroup : table.groups.find? groupId with
    | none => simp [hgroup] at hlookup
    | some topics =>
      cases htopic : topics.find? topic with
      | none => simp [hgroup, htopic] at hlookup
      | some partitions =>
        simp only [hgroup, htopic, getD_some] at hlookup
        exact ⟨(groupId, topics), (OrderedMap.mem_entries_iff _ _ _).mpr
          hgroup, (topic, partitions), (OrderedMap.mem_entries_iff _ _
            _).mpr htopic, (partition, offset),
          (OrderedMap.mem_entries_iff _ _ _).mpr hlookup,
          ⟨rfl, rfl, rfl⟩, rfl⟩

/-- The table as a store with keyed writes. -/
def keyed : Keyed OffsetTable OffsetKey OffsetAndMetadata where
  find := lookup
  write table entry := table.put entry.1 entry.2
  find_write table entry probe := table.lookup_put entry.1 probe entry.2

end OffsetTable

/-- The time that Go's zero value stands for. -/
def zeroTime : Int := -62135596800000000000

/-- An offset as it is written to the snapshot. -/
structure PersistedOffset where
  offset : Int
  metadata : Utf8Text
  commitTimeNs : Int64
  expireTimeNs : Int64
  leaderEpoch : Int
  groupId : Utf8Text
  topic : Utf8Text
  partitionIndex : Int

structure OffsetSnapshot where
  version : Int
  offsets : List PersistedOffset

def offsetSnapshotVersion : Int := 1

/-- What is at the path of the snapshot. -/
inductive SnapshotFile where
  | missing
  | empty
  | malformed
  | snapshot (content : OffsetSnapshot)

inductive LoadError where
  | parsing
  | unsupportedVersion (version : Int)
deriving DecidableEq

/-- Nanoseconds since 1970 in 64 bits. -/
def unixNano (time : Int) : Int64 := Int64.ofInt time

/-- The zero time is stored as zero nanoseconds. -/
def persistExpiry (time : Int) : Int64 :=
  if time = zeroTime then 0 else unixNano time

def restoreExpiry (nanoseconds : Int64) : Int :=
  if nanoseconds ≠ 0 then nanoseconds.toInt else zeroTime

def persist (key : OffsetKey) (offset : OffsetAndMetadata) : PersistedOffset where
  offset := offset.offset
  metadata := .encode offset.metadata
  commitTimeNs := unixNano offset.commitTime
  expireTimeNs := persistExpiry offset.expireTime
  leaderEpoch := offset.leaderEpoch
  groupId := .encode key.1
  topic := .encode key.2.1
  partitionIndex := key.2.2

def restore (entry : PersistedOffset) : OffsetKey × OffsetAndMetadata :=
  ((entry.groupId.bytes, entry.topic.bytes, entry.partitionIndex),
    ⟨entry.offset, entry.metadata.bytes, entry.commitTimeNs.toInt,
      restoreExpiry entry.expireTimeNs, entry.leaderEpoch⟩)

/-- The table of a snapshot file. -/
def load : SnapshotFile → Except LoadError OffsetTable
  | .missing => .ok .empty
  | .empty => .ok .empty
  | .malformed => .error .parsing
  | .snapshot content =>
    if content.version ≠ offsetSnapshotVersion then
      .error (.unsupportedVersion content.version)
    else
      .ok (OffsetTable.keyed.writes .empty (content.offsets.map restore))

/-- An order in which the entries of a map are visited. -/
structure VisitOrder (α : Type) where
  visit : List α → List α
  perm : ∀ entries, (visit entries).Perm entries

def VisitOrder.sorted {α : Type} : VisitOrder α :=
  ⟨id, fun _ => List.Perm.refl _⟩

abbrev TableOrder := VisitOrder (OffsetKey × OffsetAndMetadata)

/-- How the write of a snapshot ends.  A write that fails after the rename has
replaced the file. -/
inductive FlushOutcome where
  | failedBefore
  | failedAfter
  | succeeded
deriving DecidableEq

def FlushOutcome.committed : FlushOutcome → Bool
  | .failedBefore => false
  | .failedAfter => true
  | .succeeded => true

/-- An error is returned. -/
def FlushOutcome.fails : FlushOutcome → Bool
  | .failedBefore => true
  | .failedAfter => true
  | .succeeded => false

structure FileOffsetStorage where
  offsets : OffsetTable
  file : SnapshotFile

namespace FileOffsetStorage

variable (storage : FileOffsetStorage)

/-- Write the table to the file. -/
def flush (order : TableOrder) (outcome : FlushOutcome) : FileOffsetStorage :=
  if outcome.committed then
    let entries := (order.visit storage.offsets.entries).map fun entry =>
      persist entry.1 entry.2
    { storage with file := .snapshot ⟨offsetSnapshotVersion, entries⟩ }
  else storage

/-- Store an offset, and whether that failed. -/
def storeOffset (key : OffsetKey) (offset : OffsetAndMetadata)
    (order : TableOrder) (outcome : FlushOutcome) : FileOffsetStorage × Bool :=
  let previous := storage.offsets.lookup key
  let written := { storage with offsets := storage.offsets.put key offset }
  let flushed := written.flush order outcome
  if outcome.fails && !outcome.committed then
    match previous with
    | some previous =>
      ({ flushed with offsets := flushed.offsets.put key previous }, true)
    | none => ({ flushed with offsets := flushed.offsets.remove key }, true)
  else (flushed, outcome.fails)

/-- Drop all offsets of a group, and whether that failed. -/
def deleteOffsets (groupId : Bytes) (order : TableOrder) (outcome : FlushOutcome) :
    FileOffsetStorage × Bool :=
  let deleted := { storage with offsets := storage.offsets.deleteGroup groupId }
  let flushed := deleted.flush order outcome
  if outcome.fails && !outcome.committed then
    let offsets := flushed.offsets.restoreGroup storage.offsets groupId
    ({ flushed with offsets := offsets }, true)
  else (flushed, outcome.fails)

def fetchOffset (key : OffsetKey) : Option OffsetAndMetadata :=
  storage.offsets.lookup key

def fetchOffsets (groupId : Bytes) :
    TopicOffsets :=
  storage.offsets.topics groupId

end FileOffsetStorage

end Streambus.Group
