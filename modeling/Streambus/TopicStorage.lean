/-
Runs of a broker over its data directory.  Producing to a topic or fetching
from it creates the topic if there is none.  The names of topics come from the
wire as they are: a name that leads to another directory takes its topic there,
and a topic without partitions leaves nothing behind.
-/
import Streambus.Partition
import Streambus.TopicDirectories

namespace Streambus.Server

open List OrderedMap

inductive TopicRequest
  | produce (topic : Bytes) (partitionId : UInt32) (messages : List ProtocolMessage)
  | fetch (topic : Bytes) (partitionId maxBytes : UInt32)
  | getOffset (topic : Bytes)
  | createTopic (topic : Bytes) (numPartitions : UInt32)
  | deleteTopic (topic : Bytes)
  | listTopics
  | healthCheck
  | unknown
deriving DecidableEq

/-- Responses about a topic that was created or deleted, and all others. -/
inductive TopicResponse
  | created (topic : Bytes)
  | deleted (topic : Bytes)
  | other
deriving DecidableEq

namespace TopicManager

variable {ν : Type} (empty : ν) (append : List ProtocolMessage → ν → ν)

def topicExists (tm : TopicManager ν) (topic : Bytes) : Bool :=
  (tm.topics.find? topic).isSome

/-- `append` is what a batch makes of a log. -/
def handle (tm : TopicManager ν) : TopicRequest → TopicManager ν × TopicResponse
  | .produce topic partitionId messages =>
    (tm.handleProduce empty topic partitionId (append messages), .other)
  | .fetch topic _ _ => (tm.handleFetch empty topic, .other)
  | .createTopic topic numPartitions =>
    match tm.createTopic empty topic numPartitions with
    | (tm, none) => (tm, .created topic)
    | (tm, some _) => (tm, .other)
  | .deleteTopic topic =>
    match tm.deleteTopic topic with
    | (tm, true) => (tm, .deleted topic)
    | (tm, false) => (tm, .other)
  | .getOffset _ | .listTopics | .healthCheck | .unknown => (tm, .other)

variable (tm : TopicManager ν) {topic : Bytes}

theorem handle_createTopic_fst (topic : Bytes) (numPartitions : UInt32) :
    (tm.handle empty append (.createTopic topic numPartitions)).1 =
      (tm.createTopic empty topic numPartitions).1 := by
  unfold handle
  dsimp only
  split <;> rename_i heq <;> rw [heq]

theorem handle_createTopic_of_none {tm : TopicManager ν} {numPartitions : UInt32}
    (hmade : (tm.createTopic empty topic numPartitions).2 = none) :
    (tm.handle empty append (.createTopic topic numPartitions)).2 =
      .created topic := by
  unfold handle
  dsimp only
  split
  · rfl
  next heq =>
    rw [heq] at hmade
    nomatch hmade

theorem handle_deleteTopic_fst (topic : Bytes) :
    (tm.handle empty append (.deleteTopic topic)).1 = (tm.deleteTopic topic).1 := by
  unfold handle
  dsimp only
  split <;> rename_i heq <;> rw [heq]

theorem handle_deleteTopic_snd (topic : Bytes) :
    (tm.handle empty append (.deleteTopic topic)).2 =
      if tm.topicExists topic then .deleted topic else .other := by
  unfold handle deleteTopic topicExists
  dsimp only
  cases tm.topics.find? topic <;> simp

@[simp] theorem topics_createPartition (topic : Bytes) (partitionId : Nat) :
    (tm.createPartition empty topic partitionId).1.topics = tm.topics := by
  unfold createPartition
  dsimp only
  split <;> rfl

@[simp] theorem topics_createPartitions (topic : Bytes) (ids : List Nat)
    (partitions : OrderedMap Nat Path) :
    (createPartitions empty topic ids tm partitions).1.topics = tm.topics := by
  induction ids generalizing tm partitions with
  | nil => rfl
  | cons partitionId rest ih =>
    have hfirst := topics_createPartition empty tm topic partitionId
    rw [createPartitions]
    split
    next made hmade =>
      rw [hmade] at hfirst
      exact hfirst
    next made dir hmade =>
      rw [hmade] at hfirst
      rw [ih]
      exact hfirst

theorem length_createPartitions (topic : Bytes) (start count : Nat)
    (partitions made : OrderedMap Nat Path)
    (hbelow : ∀ entry ∈ partitions.entries, entry.1 < start)
    (hmade : (createPartitions empty topic (List.range' start count) tm
      partitions).2 = .ok made) :
    made.entries.length = partitions.entries.length + count := by
  induction count generalizing start tm partitions with
  | zero =>
    injection hmade with hmade
    rw [hmade, Nat.add_zero]
  | succ count ih =>
    rw [range'_succ, createPartitions] at hmade
    split at hmade
    · cases hmade
    next after dir hfirst =>
      have hentries := partitions.entries_insert_of_keys_lt dir hbelow
      have hlater : ∀ entry ∈ (partitions.insert start dir).entries,
          entry.1 < start + 1 := by
        intro entry hentry
        rw [hentries] at hentry
        rcases mem_append.mp hentry with hold | hnew
        · exact Nat.lt_succ_of_lt (hbelow entry hold)
        · rw [mem_singleton.mp hnew]
          exact Nat.lt_succ_self start
      rw [ih after (start + 1) _ hlater hmade, hentries, length_append]
      simp only [length_singleton]
      omega

/-- What creating a topic makes of the table: nothing if the topic is there,
and otherwise the topic with as many partitions as asked for, or nothing if
one of them could not be made. -/
theorem createTopic_cases (name : Bytes) (numPartitions : UInt32) :
    (∃ existing, tm.topics.find? name = some existing ∧
      (tm.createTopic empty name numPartitions).1 = tm ∧
      ((tm.createTopic empty name numPartitions).2 = none ↔
        existing.entries.length = numPartitions.toNat)) ∨
    (tm.topics.find? name = none ∧
      (tm.createTopic empty name numPartitions).1.topics = tm.topics ∧
      (tm.createTopic empty name numPartitions).2 ≠ none) ∨
    (tm.topics.find? name = none ∧
      (tm.createTopic empty name numPartitions).2 = none ∧
      ∃ partitions, (tm.createTopic empty name numPartitions).1.topics =
          tm.topics.insert name partitions ∧
        partitions.entries.length = numPartitions.toNat) := by
  unfold createTopic
  cases hfind : tm.topics.find? name with
  | some existing =>
    refine Or.inl ⟨existing, rfl, ?_⟩
    dsimp only
    split_ifs with hcount
    · exact ⟨rfl, by simpa using hcount⟩
    · exact ⟨rfl, by simpa using hcount⟩
  | none =>
    refine Or.inr ?_
    have htopics := topics_createPartitions empty tm name
      (List.range numPartitions.toNat) ∅
    have hlength := fun made => length_createPartitions empty tm name 0
      numPartitions.toNat ∅ made (by simp)
    rw [← range_eq_range'] at hlength
    generalize createPartitions empty name
      (List.range numPartitions.toNat) tm ∅ = result at htopics hlength
    obtain ⟨after, made⟩ := result
    cases made with
    | error err => exact Or.inl ⟨rfl, htopics, nofun⟩
    | ok partitions =>
      refine Or.inr ⟨rfl, rfl, partitions, ?_, ?_⟩
      · dsimp only at htopics ⊢
        rw [htopics]
      · simpa using hlength partitions rfl

/-- Opening a topic to produce or fetch leaves it as it is if it is there. -/
theorem topics_ensureTopic_of_some {tm : TopicManager ν}
    {existing : OrderedMap Nat Path}
    (hfind : tm.topics.find? topic = some existing) :
    tm.ensureTopic empty topic = (tm, none) := by
  rw [ensureTopic, hfind]
  rfl

theorem topics_ensureTopic_of_none {tm : TopicManager ν}
    (hfind : tm.topics.find? topic = none) :
    tm.ensureTopic empty topic = tm.createTopic empty topic 1 := by
  rw [ensureTopic, hfind]
  rfl

/-- Opening a topic adds at most that topic. -/
theorem topics_ensureTopic_cases (topic : Bytes) :
    (tm.ensureTopic empty topic).1.topics = tm.topics ∨
      tm.topics.find? topic = none ∧ ∃ partitions,
        (tm.ensureTopic empty topic).1.topics =
          tm.topics.insert topic partitions := by
  cases hfind : tm.topics.find? topic with
  | some existing =>
    rw [topics_ensureTopic_of_some empty hfind]
    exact Or.inl rfl
  | none =>
    rw [topics_ensureTopic_of_none empty hfind]
    rcases createTopic_cases empty tm topic 1 with
      ⟨existing, hsome, -⟩ | ⟨-, hsame, -⟩ | ⟨-, -, partitions, hmade, -⟩
    · rw [hfind] at hsome
      nomatch hsome
    · exact Or.inl hsame
    · exact Or.inr ⟨rfl, partitions, hmade⟩

@[simp] theorem topics_handleProduce (topic : Bytes) (partitionId : UInt32)
    (write : ν → ν) :
    (tm.handleProduce empty topic partitionId write).topics =
      (tm.ensureTopic empty topic).1.topics := by
  unfold handleProduce
  split
  next after err hensure => rw [hensure]
  next after hensure =>
    rw [hensure]
    split <;> rfl

theorem topics_deleteTopic (name : Bytes) :
    (tm.deleteTopic name).1.topics = tm.topics.erase name := by
  unfold deleteTopic
  cases hfind : tm.topics.find? name with
  | none => exact (erase_of_find?_eq_none hfind).symm
  | some existing => rfl

/-- Creating a topic makes that topic, if it makes any. -/
theorem topicExists_createTopic (name : Bytes) (numPartitions : UInt32)
    (topic : Bytes) :
    (tm.createTopic empty name numPartitions).1.topicExists topic = true ↔
      tm.topicExists topic = true ∨ topic = name ∧
        (tm.createTopic empty name numPartitions).2 = none := by
  unfold topicExists
  rcases createTopic_cases empty tm name numPartitions with
    ⟨existing, hfind, hsame, -⟩ | ⟨-, hsame, hfailed⟩ |
    ⟨-, hmade, partitions, htopics, -⟩
  · rw [hsame]
    refine ⟨Or.inl, ?_⟩
    rintro (hold | ⟨rfl, -⟩)
    · exact hold
    · rw [hfind]
      rfl
  · rw [hsame]
    refine ⟨Or.inl, ?_⟩
    rintro (hold | ⟨-, hmade⟩)
    · exact hold
    · exact absurd hmade hfailed
  · rw [htopics, find?_insert]
    by_cases htopic : name = topic
    · subst htopic
      simp [hmade]
    · simp [htopic, Ne.symm htopic]

theorem topicExists_ensureTopic (name topic : Bytes) :
    (tm.ensureTopic empty name).1.topicExists topic = true ↔
      tm.topicExists topic = true ∨ topic = name ∧
        (tm.createTopic empty name 1).2 = none := by
  cases hfind : tm.topics.find? name with
  | some existing =>
    rw [topics_ensureTopic_of_some empty hfind]
    refine ⟨Or.inl, ?_⟩
    rintro (hold | ⟨rfl, -⟩)
    · exact hold
    · rw [topicExists, hfind]
      rfl
  | none =>
    rw [topics_ensureTopic_of_none empty hfind]
    exact topicExists_createTopic empty tm name 1 topic

theorem topicExists_deleteTopic (name topic : Bytes) :
    (tm.deleteTopic name).1.topicExists topic = true ↔
      tm.topicExists topic = true ∧ topic ≠ name := by
  unfold topicExists
  rw [topics_deleteTopic, find?_erase]
  by_cases htopic : name = topic
  · simp [htopic]
  · simp [htopic, Ne.symm htopic]

end TopicManager

open List

variable {ν : Type}

/-- What reaches the topics: requests, with what a produce request makes of a
log, and restarts. -/
inductive TopicOp (ν : Type)
  | createTopic (name : Bytes) (numPartitions : UInt32)
  | deleteTopic (name : Bytes)
  | produce (topic : Bytes) (partitionId : UInt32) (write : ν → ν)
  | fetch (topic : Bytes)
  | restart

namespace TopicManager

variable (empty : ν)

def step (tm : TopicManager ν) : TopicOp ν → TopicManager ν
  | .createTopic name numPartitions =>
    (tm.createTopic empty name numPartitions).1
  | .deleteTopic name => (tm.deleteTopic name).1
  | .produce topic partitionId write =>
    tm.handleProduce empty topic partitionId write
  | .fetch topic => tm.handleFetch empty topic
  | .restart => tm.restart empty

/-- None of the characters `*`, `?`, `[` and `\` of a pattern. -/
def Literal (name : Bytes) : Prop :=
  ∀ byte ∈ name, byte ∉ textBytes "*?[\\"
deriving Decidable

/-- A topic that is created has a single name, without pattern characters, and
a partition. -/
def Plain (tm : TopicManager ν) : TopicOp ν → Prop
  | .createTopic name numPartitions => tm.topics.find? name = none →
    (SingleName name ∧ Literal name) ∧ 0 < numPartitions.toNat
  | .produce topic _ _ | .fetch topic =>
    tm.topics.find? topic = none → SingleName topic ∧ Literal topic
  | .deleteTopic _ => True
  | .restart => True

instance (tm : TopicManager ν) (op : TopicOp ν) : Decidable (tm.Plain op) := by
  cases op <;> unfold Plain <;> infer_instance

/-- A file system whose storage directory can be made, has nothing in it and
has no pattern characters in its path. -/
structure Vacant (tree : FileTree ν) (storageDir : Path) : Prop where
  literal : ∀ name ∈ storageDir, Literal name
  made : (tree.mkdirAll storageDir).1.HasDirs storageDir
  nothing : ∀ name rest,
    (tree.mkdirAll storageDir).1.find? (storageDir ++ name :: rest) = none

/-- The directory of a partition of a topic. -/
def HasPartition (tm : TopicManager ν) (name : Bytes) (dir : Path) : Prop :=
  ∃ partitionId, tm.getPartition name partitionId = some dir

/-- Nothing but what is strictly below the storage directory differs. -/
def SameOutside (storageDir : Path) (tree other : FileTree ν) : Prop :=
  ∀ path, (storageDir <+: path → path = storageDir) →
    tree.find? path = other.find? path

/-- Topics own disjoint storage inside the storage directory of a file system,
and a restart finds them all. -/
structure DisjointStorage (base : FileTree ν) (tm : TopicManager ν) : Prop where
  inside : SameOutside tm.storageDir tm.tree base
  disjoint : ∀ name other dir, name ≠ other → tm.HasPartition name dir →
    ¬ tm.HasPartition other dir
  deletes : ∀ name, SameOutside tm.storageDir (tm.deleteTopic name).1.tree tm.tree
  spares : ∀ name other dir, name ≠ other → tm.HasPartition other dir →
    ∀ path, dir <+: path →
      (tm.deleteTopic name).1.tree.find? path = tm.tree.find? path
  restarts : tm.restart empty = tm

end TopicManager

namespace TopicManager.Refines

variable (empty : ν) {base : FileTree ν} {tm : TopicManager ν}
  {contents : TopicContents ν}

theorem hasPartition (hrefines : tm.Refines base contents) {name : Bytes}
    {dir : Path} (hpartition : tm.HasPartition name dir) :
    ∃ sub, dir = tm.storageDir ++ [name, sub] := by
  obtain ⟨id, hdir⟩ := hpartition
  obtain ⟨dirs, hdirs, hfound⟩ := Option.bind_eq_some_iff.mp hdir
  rw [hrefines.find?_topics] at hdirs
  obtain ⟨partitions, -, rfl⟩ := Option.map_eq_some_iff.mp hdirs
  rw [find?_partitionDirs] at hfound
  obtain ⟨log, -, rfl⟩ := Option.map_eq_some_iff.mp hfound
  exact ⟨partitionName id, rfl⟩

theorem sameOutside (hrefines : tm.Refines base contents) :
    SameOutside tm.storageDir tm.tree base := by
  intro path hpath
  apply hrefines.holds.outside
  intro name hbelow
  have heq := hpath ((prefix_append _ _).trans hbelow)
  have hlength := hbelow.length_le
  rw [heq] at hlength
  simp at hlength

theorem deleteTopic_storageDir (tm : TopicManager ν) (name : Bytes) :
    (tm.deleteTopic name).1.storageDir = tm.storageDir := by
  unfold TopicManager.deleteTopic
  split <;> rfl

theorem disjointStorage (hrefines : tm.Refines base contents)
    (hbase : base.HasDirs tm.storageDir) : DisjointStorage empty base tm where
  inside := hrefines.sameOutside
  disjoint := by
    intro name other dir hne hname hother
    obtain ⟨sub, rfl⟩ := hrefines.hasPartition hname
    obtain ⟨sub', heq⟩ := hrefines.hasPartition hother
    exact hne (List.cons.inj (append_cancel_left heq)).1
  deletes := by
    intro name path hpath
    have hafter := (hrefines.deleteTopic name).sameOutside
    rw [deleteTopic_storageDir] at hafter
    rw [hafter path hpath, hrefines.sameOutside path hpath]
  spares := by
    intro name other dir hne hother path hpath
    obtain ⟨sub, rfl⟩ := hrefines.hasPartition hother
    unfold TopicManager.deleteTopic
    split
    · rfl
    next dirs hdirs =>
      rw [hrefines.find?_topics] at hdirs
      obtain ⟨partitions, hname, -⟩ := Option.map_eq_some_iff.mp hdirs
      obtain ⟨rest, rfl⟩ := hpath
      rw [joinPath_of_singleName (hrefines.single name partitions hname),
        FileTree.find?_removeAll, if_neg]
      rw [append_assoc, cons_append, Holds.prefix_iff]
      exact hne
  restarts := hrefines.restart_eq empty hbase

variable {topic : Bytes} (hrefines : tm.Refines base contents)
  (hbase : base.HasDirs tm.storageDir)

include hrefines hbase

theorem ensureTopic (hsingle : tm.topics.find? topic = none → SingleName topic) :
    ∃ after, (tm.ensureTopic empty topic).1.Refines base after ∧
      (tm.ensureTopic empty topic).1.storageDir = tm.storageDir := by
  unfold TopicManager.ensureTopic
  split
  · exact ⟨contents, hrefines, rfl⟩
  · exact hrefines.createTopic empty hbase fun hnone =>
      ⟨hsingle hnone, by decide⟩

theorem handleProduce (hsingle : tm.topics.find? topic = none → SingleName topic)
    (partitionId : UInt32) (write : ν → ν) :
    ∃ after, (tm.handleProduce empty topic partitionId write).Refines base after ∧
      (tm.handleProduce empty topic partitionId write).storageDir =
        tm.storageDir := by
  obtain ⟨after, hafter, hdir⟩ := hrefines.ensureTopic empty hbase hsingle
  unfold TopicManager.handleProduce
  split
  next heq =>
    rw [heq] at hafter hdir
    exact ⟨after, hafter, hdir⟩
  next heq =>
    rw [heq] at hafter hdir
    split
    · exact ⟨after, hafter, hdir⟩
    · rename_i hpartition
      obtain ⟨written, hwritten⟩ := hafter.writeLog hpartition write
      exact ⟨written, hwritten, hdir⟩

theorem step {op : TopicOp ν} (hplain : tm.Plain op) :
    ∃ after, (tm.step empty op).Refines base after ∧
      (tm.step empty op).storageDir = tm.storageDir := by
  cases op with
  | createTopic name numPartitions =>
    exact hrefines.createTopic empty hbase fun hnone =>
      ⟨(hplain hnone).1.1, (hplain hnone).2⟩
  | deleteTopic name =>
    exact ⟨_, hrefines.deleteTopic name, deleteTopic_storageDir tm name⟩
  | produce topic partitionId write =>
    exact hrefines.handleProduce empty hbase (fun hnone => (hplain hnone).1)
      partitionId write
  | fetch topic =>
    exact hrefines.ensureTopic empty hbase fun hnone => (hplain hnone).1
  | restart =>
    rw [TopicManager.step, hrefines.restart_eq empty hbase]
    exact ⟨contents, hrefines, rfl⟩

end TopicManager.Refines

namespace TopicManager

variable (empty : ν)

/-- A manager over a vacant directory has no topics. -/
theorem refines_new {tree : FileTree ν} {storageDir : Path}
    (hvacant : Vacant tree storageDir) :
    newTopicManager empty tree storageDir =
        ⟨(tree.mkdirAll storageDir).1, storageDir, ∅⟩ ∧
      Refines (tree.mkdirAll storageDir).1
        ⟨(tree.mkdirAll storageDir).1, storageDir, ∅⟩ ∅ := by
  have hnone : (tree.mkdirAll storageDir).1.subdirs storageDir = [] := by
    apply eq_nil_iff_forall_not_mem.mpr
    intro name hname
    obtain ⟨held, hheld⟩ := FileTree.mem_subdirs.mp hname
    exact nomatch (hvacant.nothing name []).symm.trans hheld
  constructor
  · rw [newTopicManager, hnone]
    rfl
  · exact {
      holds := {
        outside := fun _ _ => rfl
        topic := fun name => hvacant.nothing name []
        partition := fun name sub => by
          rw [hvacant.nothing name [sub]]
          cases partitionOf? sub <;> rfl
        deeper := fun name sub more rest =>
          hvacant.nothing name (sub :: more :: rest) }
      single := fun _ _ hname => nomatch hname
      nonempty := fun _ _ hname => nomatch hname
      bounded := fun _ _ _ hlog => nomatch hlog
      topics := rfl }

/-- A storage directory in an empty file system. -/
def dataDir : Path := [textBytes "topics"]

theorem vacant_dataDir : Vacant (∅ : FileTree Nat) dataDir := by
  have hmade : (FileTree.mkdirAll (∅ : FileTree Nat) dataDir).1 =
      OrderedMap.insert ∅ dataDir (.dir none) := by
    decide +kernel
  constructor
  · decide +kernel
  · intro front hfront hne
    obtain rfl : front = dataDir :=
      (prefix_cons_iff.mp hfront).elim (fun hnil => absurd hnil hne)
        (fun ⟨rest, heq, hrest⟩ => by
          rw [heq, prefix_nil.mp hrest]
          rfl)
    exact ⟨none, by rw [hmade, OrderedMap.find?_insert_self]⟩
  · intro name rest
    rw [hmade, OrderedMap.find?_insert_of_ne]
    · rfl
    · simp [dataDir]

/-- Two topics come, one of them with a record, and one goes. -/
def served : List (TopicOp Nat) :=
  [.createTopic (textBytes "a") 2, .produce (textBytes "b") 0 (· + 1),
    .restart, .deleteTopic (textBytes "a"), .fetch (textBytes "b")]

/-- A topic whose name leads out of the storage directory. -/
def escaped : List (TopicOp Nat) := [.createTopic (textBytes "..") 1]

end TopicManager

end Streambus.Server
