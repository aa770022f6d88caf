/-
The topics of a broker on disk.  A topic is a directory named after it in the
storage directory, with a directory for each of its partitions.  Where every
topic has a single name and a partition, the file system below the storage
directory is exactly a map from topics and partitions to what their logs hold.
-/
import Mathlib.Data.List.TakeWhile
import Streambus.FileTree
import Streambus.TextFormat

namespace Streambus.Server

def partitionPrefix : Bytes := textBytes "partition-"

def partitionName (partitionId : Nat) : Bytes :=
  partitionPrefix ++ formatNat partitionId

/-- The digits behind the prefix, up to the first byte that is none. -/
def partitionId? (name : Bytes) : Option Nat :=
  if partitionPrefix.isPrefixOf name then
    (parseNat ((name.drop partitionPrefix.length).takeWhile fun byte =>
      (parseDigit byte).isSome)).filter fun number => number < 2 ^ 32
  else none

/-- The directories of the partitions of each topic. -/
abbrev TopicTable := OrderedMap Bytes (OrderedMap Nat Path)

/-- The file system and a topic manager on it. -/
structure TopicManager (ν : Type) where
  tree : FileTree ν
  storageDir : Path
  topics : TopicTable
deriving DecidableEq

inductive CreateTopicError
  | alreadyExists (existingPartitions numPartitions : Nat)
  | partitionFailed (partitionId : Nat)
deriving DecidableEq

namespace TopicManager

variable {ν : Type} (empty : ν)

/-- Open the log of a directory, or start one there.  The files of a log are
looked up by a pattern that begins with the directory's path, which stands for
this directory alone as long as the path has no pattern characters. -/
def newLog (tree : FileTree ν) (dir : Path) : FileTree ν :=
  match tree.find? dir with
  | some (.dir none) => tree.insert dir (.dir (some empty))
  | _ => tree

/-- The partitions of a topic that has a directory. -/
def loadTopic (tree : FileTree ν) (topicDir : Path) :
    FileTree ν × OrderedMap Nat Path :=
  let found := (tree.subdirs topicDir).filterMap fun name =>
    (partitionId? name).map fun partitionId =>
      (partitionId, topicDir ++ [name])
  (found.foldl (fun tree entry => newLog empty tree entry.2) tree,
    OrderedMap.ofEntries found)

def loadTopics (storageDir : Path) :
    List Bytes → FileTree ν × TopicTable → FileTree ν × TopicTable
  | [], loaded => loaded
  | name :: names, (tree, topics) =>
    let (tree, partitions) := loadTopic empty tree (storageDir ++ [name])
    loadTopics storageDir names
      (tree, if partitions = ∅ then topics else topics.insert name partitions)

def newTopicManager (tree : FileTree ν) (storageDir : Path) : TopicManager ν :=
  let made := (tree.mkdirAll storageDir).1
  let (tree, topics) := loadTopics empty storageDir
    (made.subdirs storageDir) (made, ∅)
  ⟨tree, storageDir, topics⟩

def createPartition (tm : TopicManager ν) (topic : Bytes)
    (partitionId : Nat) : TopicManager ν × Option Path :=
  let partitionDir := joinPath tm.storageDir topic ++ [partitionName partitionId]
  match tm.tree.mkdirAll partitionDir with
  | (tree, false) => ({ tm with tree }, none)
  | (tree, true) =>
    ({ tm with tree := newLog empty tree partitionDir }, some partitionDir)

def createPartitions (topic : Bytes) :
    List Nat → TopicManager ν → OrderedMap Nat Path →
      TopicManager ν × Except CreateTopicError (OrderedMap Nat Path)
  | [], tm, partitions => (tm, .ok partitions)
  | partitionId :: rest, tm, partitions =>
    match tm.createPartition empty topic partitionId with
    | (tm, none) => (tm, .error (.partitionFailed partitionId))
    | (tm, some partitionDir) =>
      createPartitions topic rest tm (partitions.insert partitionId partitionDir)

def createTopic (tm : TopicManager ν) (name : Bytes)
    (numPartitions : UInt32) : TopicManager ν × Option CreateTopicError :=
  match tm.topics.find? name with
  | some existing =>
    if existing.entries.length ≠ numPartitions.toNat then
      (tm, some (.alreadyExists existing.entries.length numPartitions.toNat))
    else (tm, none)
  | none =>
    match createPartitions empty name (List.range numPartitions.toNat) tm ∅ with
    | (tm, .error err) => (tm, some err)
    | (tm, .ok partitions) =>
      ({ tm with topics := tm.topics.insert name partitions }, none)

/-- A topic that is not there is an error. -/
def deleteTopic (tm : TopicManager ν) (name : Bytes) : TopicManager ν × Bool :=
  match tm.topics.find? name with
  | none => (tm, false)
  | some _ =>
    ({ tm with
        tree := tm.tree.removeAll (joinPath tm.storageDir name)
        topics := tm.topics.erase name }, true)

def getPartition (tm : TopicManager ν) (topic : Bytes) (partitionId : Nat) :
    Option Path :=
  (tm.topics.find? topic).bind fun partitions => partitions.find? partitionId

/-- The topic of a produce or fetch request, created if there is none. -/
def ensureTopic (tm : TopicManager ν) (topic : Bytes) :
    TopicManager ν × Option CreateTopicError :=
  if (tm.topics.find? topic).isSome then (tm, none)
  else tm.createTopic empty topic 1

/-- What a partition's log writes goes to its directory.  Where the directory
is gone, the files it writes to have no name any more. -/
def writeLog (tree : FileTree ν) (dir : Path) (write : ν → ν) : FileTree ν :=
  match tree.find? dir with
  | some (.dir (some log)) => tree.insert dir (.dir (some (write log)))
  | _ => tree

/-- The topics as a produce request leaves them.  A request without messages
takes the broker down at this point, when its topic has been created. -/
def handleProduce (tm : TopicManager ν) (topic : Bytes)
    (partitionId : UInt32) (write : ν → ν) : TopicManager ν :=
  match tm.ensureTopic empty topic with
  | (tm, some _) => tm
  | (tm, none) =>
    match tm.getPartition topic partitionId.toNat with
    | none => tm
    | some dir => { tm with tree := writeLog tm.tree dir write }

/-- Reading changes nothing on disk. -/
def handleFetch (tm : TopicManager ν) (topic : Bytes) : TopicManager ν :=
  (tm.ensureTopic empty topic).1

def restart (tm : TopicManager ν) : TopicManager ν :=
  newTopicManager empty tm.tree tm.storageDir

end TopicManager

open FileTree List Option OrderedMap

theorem parseDigit_digitByte_isSome {digit : Nat} (hdigit : digit < 10) :
    (parseDigit (digitByte digit)).isSome = true := by
  rw [parseDigit_digitByte hdigit]
  rfl

variable {partitionId : Nat}

theorem partitionId?_partitionName (hbound : partitionId < 2 ^ 32) :
    partitionId? (partitionName partitionId) = some partitionId := by
  have hprefix : partitionPrefix.isPrefixOf (partitionName partitionId) =
      true :=
    List.isPrefixOf_iff_prefix.mpr (prefix_append _ _)
  have hdigits : (formatNat partitionId).takeWhile
      (fun byte => (parseDigit byte).isSome) = formatNat partitionId := by
    obtain ⟨digits, -, hdigits, -, hformat⟩ := formatNat_eq_map partitionId
    rw [hformat, takeWhile_eq_self_iff]
    intro byte hbyte
    obtain ⟨digit, hdigit, rfl⟩ := mem_map.mp hbyte
    exact parseDigit_digitByte_isSome (hdigits digit hdigit)
  rw [partitionId?, partitionName, drop_left, hdigits, parseNat_formatNat]
  simpa [Option.filter] using hbound

theorem formatNat_length_le {number : Nat} (hbound : number < 2 ^ 32) :
    (formatNat number).length ≤ 10 := by
  unfold formatNat
  split
  · exact (by decide : 1 ≤ 10)
  · rw [length_map, length_reverse]
    apply (Nat.digits_length_le_iff (by decide) number).mpr
    exact hbound.trans (by norm_num)

theorem legalName_partitionName (hbound : partitionId < 2 ^ 32) :
    legalName (partitionName partitionId) = true := by
  have hlength := formatNat_length_le hbound
  obtain ⟨digits, -, hdigits, -, hformat⟩ := formatNat_eq_map partitionId
  have hzero : 0 ∉ formatNat partitionId := by
    rw [hformat]
    intro hmem
    obtain ⟨digit, hdigit, hbyte⟩ := mem_map.mp hmem
    have hnat := digitByte_toNat (hdigits digit hdigit)
    rw [hbyte] at hnat
    change 0 = 48 + digit at hnat
    omega
  have hprefix : 0 ∉ partitionPrefix := by decide
  have hplen : partitionPrefix.length = 10 := by decide
  simp only [legalName, partitionName, Bool.and_eq_true, decide_eq_true_eq,
    length_append, hplen, Bool.not_eq_true', ← Bool.not_eq_true,
    contains_iff_mem, mem_append]
  exact ⟨by omega, fun hmem => hmem.elim hprefix hzero⟩

/-- The partition whose directory has a name. -/
def partitionOf? (name : Bytes) : Option Nat :=
  (partitionId? name).filter fun partitionId =>
    partitionName partitionId = name

theorem partitionOf?_eq_some {name : Bytes} : partitionOf? name = some partitionId ↔
      partitionId? name = some partitionId ∧ partitionName partitionId = name := by
  rw [partitionOf?, filter_eq_some_iff, decide_eq_true_eq]

theorem partitionOf?_partitionName (hbound : partitionId < 2 ^ 32) :
    partitionOf? (partitionName partitionId) = some partitionId :=
  partitionOf?_eq_some.mpr ⟨partitionId?_partitionName hbound, rfl⟩

variable {ν : Type}

/-- What the logs hold. -/
abbrev TopicContents (ν : Type) := OrderedMap Bytes (OrderedMap Nat ν)

def TopicContents.get? (contents : TopicContents ν) (name : Bytes)
    (partitionId : Nat) : Option ν :=
  (contents.find? name).bind fun partitions => partitions.find? partitionId

/-- Below the storage directory a tree has the topics and their logs and
nothing else, and everywhere else it is as it was. -/
structure Holds (base : FileTree ν) (storageDir : Path)
    (contents : TopicContents ν) (tree : FileTree ν) : Prop where
  outside : ∀ path, (∀ name, ¬ storageDir ++ [name] <+: path) →
    tree.find? path = base.find? path
  topic : ∀ name, tree.find? (storageDir ++ [name]) =
    (contents.find? name).map fun _ => .dir none
  partition : ∀ name sub, tree.find? (storageDir ++ [name, sub]) =
    ((partitionOf? sub).bind (contents.get? name)).map fun log =>
      .dir (some log)
  deeper : ∀ name sub more rest,
    tree.find? (storageDir ++ name :: sub :: more :: rest) = none

namespace Holds

variable {base tree : FileTree ν} {storageDir : Path}
  {contents : TopicContents ν}

theorem hasDirs (hholds : Holds base storageDir contents tree)
    (hbase : base.HasDirs storageDir) : tree.HasDirs storageDir := by
  intro front hfront hne
  rw [hholds.outside front]
  · exact hbase front hfront hne
  · intro name hbelow
    have hlength := (hbelow.trans hfront).length_le
    simp at hlength

theorem prefix_iff {name other : Bytes} {rest : Path} :
    storageDir ++ [name] <+: storageDir ++ other :: rest ↔ name = other := by
  rw [prefix_append_right_inj, cons_prefix_cons]
  exact and_iff_left (List.nil_prefix)

theorem ne_of_outside {path : Path}
    (hpath : ∀ name, ¬ storageDir ++ [name] <+: path) (name : Bytes)
    (rest : Path) : storageDir ++ name :: rest ≠ path := by
  rintro rfl
  exact hpath name (prefix_iff.mpr rfl)

theorem insert_topic (hholds : Holds base storageDir contents tree)
    {name : Bytes} (hnew : contents.find? name = none) :
    Holds base storageDir (contents.insert name ∅)
      (tree.insert (storageDir ++ [name]) (.dir none)) where
  outside path hpath := by
    rw [find?_insert_of_ne _ (ne_of_outside hpath name [])]
    exact hholds.outside path hpath
  topic other := by
    rw [find?_insert, find?_insert, hholds.topic]
    simp only [append_cancel_left_eq, List.cons.injEq, and_true]
    split <;> rfl
  partition other sub := by
    rw [find?_insert_of_ne _ (by simp), hholds.partition]
    congr 2
    funext partitionId
    rw [TopicContents.get?, TopicContents.get?, find?_insert]
    split
    next heq =>
      rw [← heq, hnew]
      rfl
    · rfl
  deeper other sub more rest := by
    rw [find?_insert_of_ne _ (by simp)]
    exact hholds.deeper other sub more rest

theorem set_partition (hholds : Holds base storageDir contents tree)
    {name : Bytes} {partitions : OrderedMap Nat ν}
    (hname : contents.find? name = some partitions) {partitionId : Nat}
    (hbound : partitionId < 2 ^ 32) (log : ν) {after : FileTree ν}
    (hafter : ∀ path, after.find? path =
      if storageDir ++ [name, partitionName partitionId] = path
      then some (.dir (some log)) else tree.find? path) :
    Holds base storageDir
      (contents.insert name (partitions.insert partitionId log)) after where
  outside path hpath := by
    rw [hafter, if_neg (ne_of_outside hpath name _)]
    exact hholds.outside path hpath
  topic other := by
    rw [hafter, if_neg (by simp), hholds.topic, find?_insert]
    split
    next heq =>
      rw [← heq, hname]
      rfl
    · rfl
  partition other sub := by
    have hget : ∀ id, TopicContents.get?
        (contents.insert name (partitions.insert partitionId log)) other id =
          if name = other ∧ partitionId = id then some log
          else contents.get? other id := by
      intro id
      rw [TopicContents.get?, TopicContents.get?, find?_insert]
      by_cases hother : name = other
      · subst hother
        rw [if_pos rfl, hname, bind_some, bind_some, find?_insert]
        simp only [true_and]
      · rw [if_neg hother, if_neg (fun hboth => hother hboth.1)]
    rw [hafter, hholds.partition]
    simp only [append_cancel_left_eq, List.cons.injEq, and_true]
    split
    next heq =>
      rw [← heq.2, partitionOf?_partitionName hbound, bind_some, hget,
        if_pos ⟨heq.1, rfl⟩]
      rfl
    next hne =>
      cases hsub : partitionOf? sub with
      | none => rfl
      | some id =>
        rw [bind_some, bind_some, hget, if_neg]
        rintro ⟨heq, rfl⟩
        exact hne ⟨heq, (partitionOf?_eq_some.mp hsub).2⟩
  deeper other sub more rest := by
    rw [hafter, if_neg (by simp)]
    exact hholds.deeper other sub more rest

theorem remove_topic (hholds : Holds base storageDir contents tree) (name : Bytes) :
    Holds base storageDir (contents.erase name)
      (tree.removeAll (storageDir ++ [name])) where
  outside path hpath := by
    rw [find?_removeAll, if_neg (hpath name)]
    exact hholds.outside path hpath
  topic other := by
    rw [find?_removeAll, find?_erase, hholds.topic]
    simp only [prefix_iff]
    split <;> rfl
  partition other sub := by
    rw [find?_removeAll, hholds.partition]
    simp only [prefix_iff]
    split
    next heq =>
      cases partitionOf? sub with
      | none => rfl
      | some id =>
        rw [bind_some, TopicContents.get?, find?_erase, if_pos heq]
        rfl
    next hne =>
      congr 2
      funext id
      rw [TopicContents.get?, TopicContents.get?, find?_erase, if_neg hne]
  deeper other sub more rest := by
    rw [find?_removeAll, hholds.deeper]
    exact ite_self none

end Holds

/-- The directories of a topic's partitions. -/
def partitionDirs (storageDir : Path) (name : Bytes)
    (partitions : OrderedMap Nat ν) : OrderedMap Nat Path :=
  partitions.mapValues fun partitionId _ =>
    storageDir ++ [name, partitionName partitionId]

theorem find?_partitionDirs (storageDir : Path) (name : Bytes)
    (partitions : OrderedMap Nat ν) (partitionId : Nat) :
    (partitionDirs storageDir name partitions).find? partitionId =
      (partitions.find? partitionId).map fun _ =>
        storageDir ++ [name, partitionName partitionId] :=
  find?_mapValues _ _ _

theorem partitionDirs_insert (storageDir : Path) (name : Bytes)
    (partitions : OrderedMap Nat ν) (partitionId : Nat) (log : ν) :
    partitionDirs storageDir name (partitions.insert partitionId log) =
      (partitionDirs storageDir name partitions).insert partitionId
        (storageDir ++ [name, partitionName partitionId]) := by
  apply ext_find?
  intro id
  rw [find?_partitionDirs, find?_insert, find?_insert, find?_partitionDirs]
  split
  next heq =>
    rw [← heq]
    rfl
  · rfl

namespace TopicManager

variable (empty : ν) {base : FileTree ν}

theorem find?_newLog_of_made {tree : FileTree ν} {dir : Path}
    (hmade : tree.find? dir = some (.dir none)) (path : Path) :
    (newLog empty tree dir).find? path =
      if dir = path then some (.dir (some empty)) else tree.find? path := by
  rw [newLog, hmade]
  by_cases hpath : dir = path <;> simp [find?_insert, hpath]

theorem newLog_of_held {tree : FileTree ν} {dir : Path} {log : ν}
    (hheld : tree.find? dir = some (.dir (some log))) :
    newLog empty tree dir = tree := by
  rw [newLog, hheld]

variable {name : Bytes}

/-- A new partition of a topic whose directory is there. -/
theorem createPartition_of_topic {tm : TopicManager ν} {contents : TopicContents ν}
    (hholds : Holds base tm.storageDir contents tm.tree)
    (hbase : base.HasDirs tm.storageDir) (hsingle : SingleName name)
    {partitions : OrderedMap Nat ν}
    (hname : contents.find? name = some partitions) {partitionId : Nat}
    (hbound : partitionId < 2 ^ 32)
    (hnew : partitions.find? partitionId = none) :
    ∃ tree, tm.createPartition empty name partitionId = ({ tm with tree },
          some (tm.storageDir ++ [name, partitionName partitionId])) ∧
      Holds base tm.storageDir
        (contents.insert name (partitions.insert partitionId empty)) tree := by
  have htopic := hholds.topic name
  rw [hname] at htopic
  have hpart := hholds.partition name (partitionName partitionId)
  rw [partitionOf?_partitionName hbound, bind_some, TopicContents.get?,
    hname, bind_some, hnew] at hpart
  have hmade : tm.tree.mkdirAll (tm.storageDir ++ [name, partitionName partitionId]) =
      (tm.tree.insert (tm.storageDir ++ [name, partitionName partitionId])
        (.dir none), true) := by
    rw [mkdirAll_append (hholds.hasDirs hbase), FileTree.makeDirs, htopic]
    simp only [map_some, FileTree.makeDirs, append_assoc, cons_append,
      nil_append, hpart, map_none, legalName_partitionName hbound, if_true]
  rw [createPartition, joinPath_of_singleName hsingle, append_assoc,
    singleton_append, hmade]
  refine ⟨_, rfl, hholds.set_partition hname hbound empty fun path => ?_⟩
  rw [find?_newLog_of_made empty (find?_insert_self _ _ _), find?_insert]
  split <;> rfl

/-- The first partition of a new topic brings the topic's directory with
it. -/
theorem createPartition_of_new {tm : TopicManager ν} {contents : TopicContents ν}
    (hholds : Holds base tm.storageDir contents tm.tree)
    (hbase : base.HasDirs tm.storageDir) (hsingle : SingleName name)
    (hname : contents.find? name = none) (hlegal : legalName name = true)
    (partitionId : Nat) :
    tm.createPartition empty name partitionId = createPartition empty
        { tm with
          tree := tm.tree.insert (tm.storageDir ++ [name]) (.dir none) }
        name partitionId := by
  have htopic := hholds.topic name
  rw [hname] at htopic
  have hdirs := (hholds.insert_topic hname).hasDirs hbase
  rw [createPartition, createPartition, joinPath_of_singleName hsingle,
    append_assoc, singleton_append, mkdirAll_append (hholds.hasDirs hbase),
    mkdirAll_append hdirs, makeDirs_insert htopic hlegal]

/-- A name that no directory takes makes nothing. -/
theorem createPartition_of_illegal {tm : TopicManager ν} {contents : TopicContents ν}
    (hholds : Holds base tm.storageDir contents tm.tree)
    (hbase : base.HasDirs tm.storageDir) (hsingle : SingleName name)
    (hname : contents.find? name = none) (hlegal : legalName name = false)
    (partitionId : Nat) :
    tm.createPartition empty name partitionId = (tm, none) := by
  have htopic := hholds.topic name
  rw [hname] at htopic
  have hmake : tm.tree.mkdirAll (tm.storageDir ++ [name, partitionName partitionId]) =
        (tm.tree, false) := by
    rw [mkdirAll_append (hholds.hasDirs hbase), FileTree.makeDirs, htopic]
    simp only [map_none, hlegal, Bool.false_eq_true, if_false]
  rw [createPartition, joinPath_of_singleName hsingle, append_assoc,
    singleton_append, hmake]

/-- The loop over the partitions of a topic whose directory is there. -/
theorem createPartitions_of_topic (hsingle : SingleName name) {ids : List Nat}
    (hids : ids.Nodup) (hbound : ∀ id ∈ ids, id < 2 ^ 32) {tm : TopicManager ν}
    {contents : TopicContents ν} {partitions : OrderedMap Nat ν}
    (hholds : Holds base tm.storageDir contents tm.tree)
    (hbase : base.HasDirs tm.storageDir)
    (hname : contents.find? name = some partitions)
    (hnew : ∀ id ∈ ids, partitions.find? id = none) :
    ∃ tree after, createPartitions empty name ids tm
        (partitionDirs tm.storageDir name partitions) =
          ({ tm with tree }, .ok (partitionDirs tm.storageDir name after)) ∧
      Holds base tm.storageDir (contents.insert name after) tree ∧
      ∀ id, (after.find? id).isSome = true ↔
        (partitions.find? id).isSome = true ∨ id ∈ ids := by
  induction ids generalizing tm contents partitions with
  | nil =>
    refine ⟨tm.tree, partitions, rfl, ?_, by simp⟩
    rwa [insert_of_find?_eq_some hname]
  | cons id rest ih =>
    rw [nodup_cons] at hids
    obtain ⟨tree, hcreate, hmade⟩ := createPartition_of_topic empty hholds
      hbase hsingle hname (hbound id mem_cons_self)
      (hnew id mem_cons_self)
    obtain ⟨final, after, hloop, hafter, hfinds⟩ :=
      @ih hids.2 (fun other hother =>
          hbound other (mem_cons_of_mem id hother))
        { tm with tree } _ _ hmade hbase
        (find?_insert_self _ _ _) (by
          intro other hother
          have hne : id ≠ other := fun heq => hids.1 (heq ▸ hother)
          rw [find?_insert_of_ne _ hne]
          exact hnew other (mem_cons_of_mem id hother))
    refine ⟨final, after, ?_, ?_, ?_⟩
    · rw [createPartitions, hcreate]
      dsimp only
      rw [← partitionDirs_insert _ _ _ _ empty]
      exact hloop
    · rwa [insert_insert] at hafter
    · intro other
      rw [hfinds, find?_insert]
      by_cases hother : id = other
      · simp [hother]
      · simp [hother, Ne.symm hother]

/-- A manager whose topics are all on disk, each with a single name and at
least one partition, and all that is on disk. -/
structure Refines (base : FileTree ν) (tm : TopicManager ν)
    (contents : TopicContents ν) : Prop where
  holds : Holds base tm.storageDir contents tm.tree
  single : ∀ name partitions, contents.find? name = some partitions → SingleName name
  nonempty : ∀ name partitions, contents.find? name = some partitions → partitions ≠ ∅
  bounded : ∀ name partitionId log,
    contents.get? name partitionId = some log → partitionId < 2 ^ 32
  topics : tm.topics = contents.mapValues (partitionDirs tm.storageDir)

namespace Refines

variable {tm : TopicManager ν} {contents : TopicContents ν}

section

variable (hrefines : tm.Refines base contents)

include hrefines

theorem find?_topics (name : Bytes) : tm.topics.find? name =
      (contents.find? name).map (partitionDirs tm.storageDir name) := by
  rw [hrefines.topics]
  exact find?_mapValues _ _ _

/-- A topic is put in place of what was there under its name. -/
theorem insert {name : Bytes} (hsingle : SingleName name)
    {partitions : OrderedMap Nat ν} (hne : partitions ≠ ∅)
    (hbound : ∀ id log, partitions.find? id = some log → id < 2 ^ 32)
    {tree : FileTree ν}
    (hholds : Holds base tm.storageDir (contents.insert name partitions) tree) :
    Refines base ⟨tree, tm.storageDir,
        tm.topics.insert name (partitionDirs tm.storageDir name partitions)⟩
      (contents.insert name partitions) where
  holds := hholds
  single other others hother := by
    rw [find?_insert] at hother
    split at hother
    next heq => exact heq ▸ hsingle
    · exact hrefines.single other others hother
  nonempty other others hother := by
    rw [find?_insert] at hother
    split at hother
    · exact Option.some.inj hother ▸ hne
    · exact hrefines.nonempty other others hother
  bounded other id log hlog := by
    rw [TopicContents.get?, find?_insert] at hlog
    split at hlog
    · exact hbound id log hlog
    · exact hrefines.bounded other id log hlog
  topics := by
    apply ext_find?
    intro other
    rw [find?_mapValues, find?_insert, find?_insert, hrefines.find?_topics]
    split
    next heq =>
      rw [← heq]
      rfl
    · rfl

theorem createPartitions_new (hbase : base.HasDirs tm.storageDir) {name : Bytes}
    (hsingle : SingleName name) (hlegal : legalName name = true)
    (hnew : contents.find? name = none) {count : Nat} (hcount : 0 < count)
    (hsmall : count ≤ 2 ^ 32) :
    ∃ tree partitions, createPartitions empty name (List.range count) tm ∅ =
        ({ tm with tree }, .ok (partitionDirs tm.storageDir name partitions)) ∧
      Holds base tm.storageDir (contents.insert name partitions) tree ∧
      ∀ id, (partitions.find? id).isSome = true ↔ id < count := by
  obtain ⟨tree, partitions, hloop, hholds, hfinds⟩ :=
    @createPartitions_of_topic ν empty base name hsingle (List.range count)
      nodup_range
      (fun id hid => (mem_range.mp hid).trans_le hsmall)
      { tm with tree := tm.tree.insert (tm.storageDir ++ [name]) (.dir none) }
      (contents.insert name ∅) ∅ (hrefines.holds.insert_topic hnew) hbase
      (find?_insert_self _ _ _) (fun _ _ => rfl)
  refine ⟨tree, partitions, ?_, ?_, ?_⟩
  · obtain ⟨rest, rfl⟩ := Nat.exists_eq_add_of_lt hcount
    rw [range_succ_eq_map] at hloop ⊢
    rw [createPartitions] at hloop ⊢
    rw [createPartition_of_new empty hrefines.holds hbase hsingle hnew hlegal]
    exact hloop
  · rwa [insert_insert] at hholds
  · intro id
    rw [hfinds, mem_range]
    exact or_iff_right (by simp)

/-- A topic is there exactly if it is on disk. -/
theorem find?_topics_eq_none {name : Bytes} :
    tm.topics.find? name = none ↔ contents.find? name = none := by
  rw [hrefines.find?_topics, map_eq_none_iff]

/-- Creating a topic changes nothing that was there. -/
theorem createTopic (hbase : base.HasDirs tm.storageDir) {name : Bytes}
    {numPartitions : UInt32}
    (hsingle : tm.topics.find? name = none →
      SingleName name ∧ 0 < numPartitions.toNat) :
    ∃ after, (tm.createTopic empty name numPartitions).1.Refines base after ∧
      (tm.createTopic empty name numPartitions).1.storageDir = tm.storageDir := by
  unfold TopicManager.createTopic
  split
  · split
    · exact ⟨contents, hrefines, rfl⟩
    · exact ⟨contents, hrefines, rfl⟩
  next hfind =>
    obtain ⟨hname, hcount⟩ := hsingle hfind
    have hnew := hrefines.find?_topics_eq_none.mp hfind
    by_cases hlegal : legalName name = true
    · obtain ⟨tree, partitions, hloop, hholds, hids⟩ :=
        hrefines.createPartitions_new empty hbase hname hlegal hnew hcount
          numPartitions.toNat_lt.le
      rw [hloop]
      refine ⟨_, hrefines.insert hname ?_ ?_ hholds, rfl⟩
      · rintro rfl
        exact absurd ((hids 0).mpr hcount) (by simp)
      · intro id log hlog
        exact ((hids id).mp (isSome_of_eq_some hlog)).trans numPartitions.toNat_lt
    · obtain ⟨rest, hrest⟩ := Nat.exists_eq_add_of_lt hcount
      rw [hrest, range_succ_eq_map, createPartitions,
        createPartition_of_illegal empty hrefines.holds hbase hname hnew
          (Bool.eq_false_iff.mpr hlegal)]
      exact ⟨contents, hrefines, rfl⟩

theorem deleteTopic (name : Bytes) :
    (tm.deleteTopic name).1.Refines base (contents.erase name) := by
  unfold TopicManager.deleteTopic
  split
  next hfind =>
    rw [erase_of_find?_eq_none (hrefines.find?_topics_eq_none.mp hfind)]
    exact hrefines
  next dirs hfind =>
    have herase : ∀ other partitions,
        (contents.erase name).find? other = some partitions →
          contents.find? other = some partitions := by
      intro other partitions hother
      rw [find?_erase] at hother
      split at hother
      · cases hother
      · exact hother
    obtain ⟨partitions, hpartitions⟩ := ne_none_iff_exists'.mp
      (fun hnone => nomatch hfind.symm.trans
        (hrefines.find?_topics_eq_none.mpr hnone))
    rw [joinPath_of_singleName (hrefines.single name partitions hpartitions)]
    exact {
      holds := hrefines.holds.remove_topic name
      single := fun other others hother =>
        hrefines.single other others (herase other others hother)
      nonempty := fun other others hother =>
        hrefines.nonempty other others (herase other others hother)
      bounded := fun other id log hlog => by
        obtain ⟨others, hothers, hfound⟩ := bind_eq_some_iff.mp hlog
        apply hrefines.bounded other id log
        exact bind_eq_some_iff.mpr ⟨others, herase other others hothers, hfound⟩
      topics := by
        apply ext_find?
        intro other
        rw [find?_mapValues, find?_erase, find?_erase, hrefines.find?_topics]
        split <;> rfl }

/-- What is written to a partition stays in its directory. -/
theorem writeLog {topic : Bytes} {partitionId : Nat} {dir : Path}
    (hdir : tm.getPartition topic partitionId = some dir) (write : ν → ν) :
    ∃ after, Refines base
      { tm with tree := TopicManager.writeLog tm.tree dir write } after := by
  rw [getPartition, hrefines.find?_topics] at hdir
  obtain ⟨dirs, hdirs, hfound⟩ := bind_eq_some_iff.mp hdir
  obtain ⟨partitions, hname, rfl⟩ := map_eq_some_iff.mp hdirs
  rw [find?_partitionDirs] at hfound
  obtain ⟨log, hlog, rfl⟩ := map_eq_some_iff.mp hfound
  have hget : contents.get? topic partitionId = some log :=
    bind_eq_some_iff.mpr ⟨partitions, hname, hlog⟩
  have hbound := hrefines.bounded topic partitionId log hget
  have hheld := hrefines.holds.partition topic (partitionName partitionId)
  rw [partitionOf?_partitionName hbound, bind_some, hget] at hheld
  have hwritten : ∀ path, (TopicManager.writeLog tm.tree
      (tm.storageDir ++ [topic, partitionName partitionId]) write).find? path =
        if tm.storageDir ++ [topic, partitionName partitionId] = path
        then some (.dir (some (write log))) else tm.tree.find? path := by
    intro path
    rw [TopicManager.writeLog, hheld]
    by_cases hpath : tm.storageDir ++ [topic, partitionName partitionId] =
      path <;> simp [find?_insert, hpath]
  have hholds := hrefines.holds.set_partition hname hbound (write log) hwritten
  have hinsert := hrefines.insert (hrefines.single topic partitions hname)
    (insert_ne_empty _ _ _) (by
      intro id other hother
      rw [find?_insert] at hother
      split at hother
      next heq => exact heq ▸ hbound
      · exact hrefines.bounded topic id other
          (bind_eq_some_iff.mpr ⟨partitions, hname, hother⟩)) hholds
  have htopics : tm.topics.insert topic (partitionDirs tm.storageDir topic
      (partitions.insert partitionId (write log))) = tm.topics := by
    apply insert_of_find?_eq_some
    rw [hrefines.find?_topics, hname, map_some, partitionDirs_insert,
      insert_of_find?_eq_some]
    rw [find?_partitionDirs, hlog]
    rfl
  rw [htopics] at hinsert
  exact ⟨_, hinsert⟩

end

theorem mem_subdirs_storageDir (hrefines : tm.Refines base contents)
    {name : Bytes} : name ∈ tm.tree.subdirs tm.storageDir ↔
      ∃ partitions, contents.find? name = some partitions := by
  rw [mem_subdirs, hrefines.holds.topic]
  cases contents.find? name <;> simp

/-- The directories of a topic are those of its partitions. -/
theorem mem_subdirs_topic (hrefines : tm.Refines base contents)
    {name : Bytes} {partitions : OrderedMap Nat ν}
    (hname : contents.find? name = some partitions) {sub : Bytes} :
    sub ∈ tm.tree.subdirs (tm.storageDir ++ [name]) ↔
      ∃ partitionId log, partitionOf? sub = some partitionId ∧
        partitions.find? partitionId = some log := by
  rw [mem_subdirs, append_assoc, singleton_append, hrefines.holds.partition]
  cases partitionOf? sub with
  | none => simp
  | some id =>
    rw [bind_some, TopicContents.get?, hname]
    cases hlog : partitions.find? id <;> simp [hlog]

/-- What a topic's directory is scanned for. -/
def scanned (tm : TopicManager ν) (name : Bytes) : List (Nat × Path) :=
  (tm.tree.subdirs (tm.storageDir ++ [name])).filterMap fun sub =>
    (partitionId? sub).map fun partitionId =>
      (partitionId, tm.storageDir ++ [name] ++ [sub])

section

variable (hrefines : tm.Refines base contents)

include hrefines

variable {partitions : OrderedMap Nat ν}

theorem mem_scanned {name : Bytes}
    (hname : contents.find? name = some partitions) {partitionId : Nat}
    {dir : Path} : (partitionId, dir) ∈ scanned tm name ↔
      (∃ log, partitions.find? partitionId = some log) ∧
        dir = tm.storageDir ++ [name, partitionName partitionId] := by
  rw [scanned, mem_filterMap]
  constructor
  · rintro ⟨sub, hsub, hentry⟩
    obtain ⟨id, log, hid, hlog⟩ := (hrefines.mem_subdirs_topic hname).mp hsub
    obtain ⟨hparsed, rfl⟩ := partitionOf?_eq_some.mp hid
    rw [hparsed] at hentry
    cases hentry
    exact ⟨⟨log, hlog⟩, by simp⟩
  · rintro ⟨⟨log, hlog⟩, rfl⟩
    have hbound := hrefines.bounded name partitionId log
      (bind_eq_some_iff.mpr ⟨partitions, hname, hlog⟩)
    refine ⟨partitionName partitionId, ?_, ?_⟩
    · exact (hrefines.mem_subdirs_topic hname).mpr
        ⟨partitionId, log, partitionOf?_partitionName hbound, hlog⟩
    · rw [partitionId?_partitionName hbound]
      simp

/-- Loading a topic opens the logs that are there, and finds them all. -/
theorem loadTopic_eq {name : Bytes} (hname : contents.find? name = some partitions) :
    loadTopic empty tm.tree (tm.storageDir ++ [name]) =
      (tm.tree, partitionDirs tm.storageDir name partitions) := by
  apply Prod.ext
  · change (scanned tm name).foldl
      (fun tree entry => newLog empty tree entry.2) tm.tree = tm.tree
    have hopen : ∀ entry ∈ scanned tm name,
        newLog empty tm.tree entry.2 = tm.tree := by
      rintro ⟨id, dir⟩ hentry
      obtain ⟨⟨log, hlog⟩, rfl⟩ := (hrefines.mem_scanned hname).mp hentry
      have hget : contents.get? name id = some log :=
        bind_eq_some_iff.mpr ⟨partitions, hname, hlog⟩
      have hheld := hrefines.holds.partition name (partitionName id)
      rw [partitionOf?_partitionName (hrefines.bounded name id log hget),
        bind_some, hget] at hheld
      exact newLog_of_held empty hheld
    exact List.foldlRecOn (motive := fun tree => tree = tm.tree)
      (scanned tm name) _ rfl fun tree htree entry hentry =>
        htree.symm ▸ hopen entry hentry
  · change OrderedMap.writes ∅ (scanned tm name) = _
    apply ext_find?
    intro id
    rw [find?_partitionDirs]
    cases hlog : partitions.find? id with
    | none =>
      rw [find?_writes_of_notMem]
      · rfl
      · intro dir hdir
        obtain ⟨⟨log, hfound⟩, -⟩ := (hrefines.mem_scanned hname).mp hdir
        exact nomatch hlog.symm.trans hfound
    | some log =>
      apply find?_writes_of_mem
      · exact (hrefines.mem_scanned hname).mpr ⟨⟨log, hlog⟩, rfl⟩
      · intro dir hdir
        exact ((hrefines.mem_scanned hname).mp hdir).2

theorem loadTopics_eq {names : List Bytes} (hnames : ∀ name ∈ names, ∃ partitions,
      contents.find? name = some partitions) (topics : TopicTable) :
    loadTopics empty tm.storageDir names (tm.tree, topics) =
      (tm.tree, topics.writes (names.filterMap fun name =>
        (contents.find? name).map fun partitions =>
          (name, partitionDirs tm.storageDir name partitions))) := by
  induction names generalizing topics with
  | nil => rfl
  | cons name names ih =>
    obtain ⟨partitions, hname⟩ := hnames name mem_cons_self
    have hdirs : partitionDirs tm.storageDir name partitions ≠ ∅ := by
      intro hempty
      apply hrefines.nonempty name partitions hname
      apply ext_find?
      intro id
      have hnone := find?_partitionDirs tm.storageDir name partitions id
      rw [hempty] at hnone
      exact map_eq_none_iff.mp hnone.symm
    rw [loadTopics, hrefines.loadTopic_eq empty hname]
    dsimp only
    rw [if_neg hdirs, ih fun other hother =>
      hnames other (mem_cons_of_mem name hother),
      filterMap_cons, hname]
    rfl

/-- A restart finds every topic where it was. -/
theorem restart_eq (hbase : base.HasDirs tm.storageDir) : tm.restart empty = tm := by
  have hmade := mkdirAll_of_hasDirs (hrefines.holds.hasDirs hbase)
  have hload := hrefines.loadTopics_eq empty
    (fun name hname => hrefines.mem_subdirs_storageDir.mp hname) ∅
  unfold restart newTopicManager
  rw [hmade]
  dsimp only
  rw [hload]
  have htopics : OrderedMap.writes ∅
      ((tm.tree.subdirs tm.storageDir).filterMap fun name =>
        (contents.find? name).map fun partitions =>
          (name, partitionDirs tm.storageDir name partitions)) =
        tm.topics := by
    apply ext_find?
    intro name
    rw [hrefines.find?_topics]
    cases hname : contents.find? name with
    | none =>
      apply find?_writes_of_notMem
      intro dirs hdirs
      obtain ⟨other, -, hentry⟩ := mem_filterMap.mp hdirs
      obtain ⟨partitions, hother, heq⟩ := map_eq_some_iff.mp hentry
      rw [(Prod.mk.inj heq).1, hname] at hother
      cases hother
    | some partitions =>
      apply find?_writes_of_mem
      · refine mem_filterMap.mpr ⟨name, ?_, ?_⟩
        · exact hrefines.mem_subdirs_storageDir.mpr ⟨partitions, hname⟩
        · rw [hname]
          rfl
      · intro dirs hdirs
        obtain ⟨other, -, hentry⟩ := mem_filterMap.mp hdirs
        obtain ⟨found, hother, heq⟩ := map_eq_some_iff.mp hentry
        obtain ⟨rfl, rfl⟩ := Prod.mk.inj heq
        cases hname.symm.trans hother
        rfl
  rw [htopics]

end

end Refines

end TopicManager

end Streambus.Server
