/-
Committed offsets in memory and on disk.  As long as what is stored survives
the text format of the snapshot, the table is the one that loading the
snapshot gives, whatever writes fail and whenever they do.  A commit stores the
offsets whose writes reach the snapshot, in whatever order they are visited.
-/
import Streambus.GroupCoordinator

namespace Streambus.Group

open List OffsetTable Option OrderedMap

/-- A time that 64 bits of nanoseconds hold. -/
def TimeFits (time : Int) : Prop := -2 ^ 63 ≤ time ∧ time < 2 ^ 63
deriving Decidable

/-- An expiry time that the snapshot keeps: zero nanoseconds stand for no
time. -/
def ExpiryFits (time : Int) : Prop :=
  time = zeroTime ∨ TimeFits time ∧ time ≠ 0
deriving Decidable

/-- The names and the metadata are text, and the times have room. -/
@[mk_iff] structure Survives (key : OffsetKey) (offset : OffsetAndMetadata) : Prop where
  groupId : validUtf8 key.1 = true
  topic : validUtf8 key.2.1 = true
  metadata : validUtf8 offset.metadata = true
  commitTime : TimeFits offset.commitTime
  expireTime : ExpiryFits offset.expireTime

instance (key : OffsetKey) (offset : OffsetAndMetadata) :
    Decidable (Survives key offset) :=
  decidable_of_iff' _ (survives_iff key offset)

variable {time : Int} {table : OffsetTable}

theorem unixNano_toInt_iff : (unixNano time).toInt = time ↔ TimeFits time := by
  constructor
  · intro heq
    have hlow := (unixNano time).le_toInt
    have hhigh := (unixNano time).toInt_lt
    unfold TimeFits
    omega
  · intro hfits
    exact Int64.toInt_ofInt_of_le hfits.1 hfits.2

theorem unixNano_ne_zero (hfits : TimeFits time) (hne : time ≠ 0) :
    unixNano time ≠ 0 := by
  intro hzero
  have hint := unixNano_toInt_iff.mpr hfits
  rw [hzero] at hint
  exact hne hint.symm

theorem restoreExpiry_persistExpiry_iff :
    restoreExpiry (persistExpiry time) = time ↔ ExpiryFits time := by
  unfold restoreExpiry persistExpiry ExpiryFits
  by_cases hzero : time = zeroTime
  · simp [hzero]
  · simp only [hzero, ↓reduceIte, false_or]
    constructor
    · intro hback
      split at hback
      next hne =>
        refine ⟨unixNano_toInt_iff.mp hback, ?_⟩
        rintro rfl
        exact hne rfl
      · exact absurd hback.symm hzero
    · rintro ⟨hfits, hne⟩
      rw [if_pos (unixNano_ne_zero hfits hne)]
      exact unixNano_toInt_iff.mpr hfits

variable {offset : OffsetAndMetadata} {key : OffsetKey}

/-- Exactly such offsets are read back as they were. -/
theorem restore_persist_iff :
    restore (persist key offset) = (key, offset) ↔ Survives key offset := by
  obtain ⟨groupId, topic, partition⟩ := key
  obtain ⟨position, metadata, commitTime, expireTime, leaderEpoch⟩ := offset
  simp only [restore, persist, Utf8Text.encode, Prod.mk.injEq, and_true,
    OffsetAndMetadata.mk.injEq, true_and, replaceInvalid_eq_self_iff,
    unixNano_toInt_iff, restoreExpiry_persistExpiry_iff]
  constructor
  · rintro ⟨⟨hgroup, htopic⟩, hmetadata, hcommit, hexpire⟩
    exact ⟨hgroup, htopic, hmetadata, hcommit, hexpire⟩
  · rintro ⟨hgroup, htopic, hmetadata, hcommit, hexpire⟩
    exact ⟨⟨hgroup, htopic⟩, hmetadata, hcommit, hexpire⟩

/-- What is read from a snapshot survives being written again. -/
theorem survives_restore (entry : PersistedOffset) :
    Survives (restore entry).1 (restore entry).2 := by
  refine ⟨entry.groupId.valid, entry.topic.valid, entry.metadata.valid,
    ⟨entry.commitTimeNs.le_toInt, entry.commitTimeNs.toInt_lt⟩, ?_⟩
  change ExpiryFits (restoreExpiry entry.expireTimeNs)
  unfold ExpiryFits restoreExpiry
  split
  next hne =>
    refine Or.inr ⟨⟨entry.expireTimeNs.le_toInt, entry.expireTimeNs.toInt_lt⟩, ?_⟩
    intro hzero
    exact hne (Int64.toInt_inj.mp hzero)
  · exact Or.inl rfl

/-- Every offset of the table survives. -/
def OffsetTable.Survives (table : OffsetTable) : Prop :=
  ∀ key offset, table.lookup key = some offset → Group.Survives key offset

theorem OffsetTable.Survives.put (htable : table.Survives)
    (hoffset : Group.Survives key offset) :
    (table.put key offset).Survives := by
  intro probe found hfound
  rw [lookup_put] at hfound
  split at hfound
  next heq =>
    rw [← heq, ← Option.some.inj hfound]
    exact hoffset
  · exact htable probe found hfound

theorem OffsetTable.Survives.deleteGroup (htable : table.Survives) (groupId : Bytes) :
    (table.deleteGroup groupId).Survives := by
  intro probe found hfound
  rw [lookup_deleteGroup] at hfound
  split at hfound
  · cases hfound
  · exact htable probe found hfound

/-- A table whose offsets survive is loaded from the snapshot of its entries
in any order. -/
theorem OffsetTable.Survives.load_eq (htable : table.Survives) (order : TableOrder) :
    load (.snapshot ⟨offsetSnapshotVersion,
      (order.visit table.entries).map fun entry =>
        persist entry.1 entry.2⟩) = .ok table := by
  have hmem : ∀ key offset, (key, offset) ∈ order.visit table.entries ↔
      table.lookup key = some offset := fun key offset =>
    (order.perm _).mem_iff.trans (table.mem_entries_iff key offset)
  have hback : ((order.visit table.entries).map fun entry =>
      persist entry.1 entry.2).map restore = order.visit table.entries := by
    have hsame : ∀ entry ∈ order.visit table.entries,
        (restore ∘ fun entry => persist entry.1 entry.2) entry = id entry :=
      fun entry hentry => restore_persist_iff.mpr (htable _ _ ((hmem _ _).mp hentry))
    rw [List.map_map, List.map_congr_left hsame, List.map_id]
  simp only [load, ne_eq, not_true_eq_false, ↓reduceIte, hback]
  congr 1
  apply ext_lookup
  intro key
  cases hlookup : table.lookup key with
  | some offset =>
    apply keyed.find_writes_of_mem ((hmem key offset).mpr hlookup)
    intro other hother
    exact Option.some.inj (((hmem key other).mp hother).symm.trans hlookup)
  | none =>
    apply keyed.find_writes_of_notMem
    intro offset hoffset
    rw [hmem, hlookup] at hoffset
    cases hoffset

theorem OffsetTable.empty_survives : OffsetTable.empty.Survives := by
  intro key offset hlookup
  cases hlookup

theorem survives_of_load {file : SnapshotFile} (hload : load file = .ok table) :
    table.Survives := by
  have hwrites : ∀ (entries : List PersistedOffset) (start : OffsetTable),
      start.Survives →
        (OffsetTable.keyed.writes start (entries.map restore)).Survives := by
    intro entries
    induction entries with
    | nil => exact fun _ hstart => hstart
    | cons entry rest ih =>
      exact fun _ hstart => ih _ (hstart.put (survives_restore entry))
  cases file with
  | missing | empty => exact Except.ok.inj hload ▸ empty_survives
  | malformed => cases hload
  | snapshot content =>
    simp only [load] at hload
    split at hload
    · cases hload
    · rw [← Except.ok.inj hload]
      exact hwrites content.offsets .empty empty_survives

inductive StorageOp where
  | store (key : OffsetKey) (offset : OffsetAndMetadata) (order : TableOrder)
      (outcome : FlushOutcome)
  | delete (groupId : Bytes) (order : TableOrder) (outcome : FlushOutcome)

def StorageOp.outcome : StorageOp → FlushOutcome
  | .store _ _ _ outcome => outcome
  | .delete _ _ outcome => outcome

namespace FileOffsetStorage

def step (storage : FileOffsetStorage) : StorageOp → FileOffsetStorage
  | .store key offset order outcome =>
    (storage.storeOffset key offset order outcome).1
  | .delete groupId order outcome =>
    (storage.deleteOffsets groupId order outcome).1

/-- An offset that reaches the file survives there. -/
def Stores (_ : FileOffsetStorage) : StorageOp → Prop
  | .store key offset _ outcome =>
    outcome = .failedBefore ∨ Survives key offset
  | .delete _ _ _ => True

instance (storage : FileOffsetStorage) (op : StorageOp) :
    Decidable (storage.Stores op) := by
  cases op <;> unfold Stores <;> infer_instance

variable {storage : FileOffsetStorage}

/-- A write that fails before the rename is undone. -/
theorem storeOffset_failedBefore (storage : FileOffsetStorage)
    (key : OffsetKey) (offset : OffsetAndMetadata) (order : TableOrder) :
    storage.storeOffset key offset order .failedBefore = (storage, true) := by
  have hflush : ∀ written : FileOffsetStorage,
      written.flush order .failedBefore = written := fun _ => rfl
  simp only [storeOffset, hflush, FlushOutcome.fails, FlushOutcome.committed,
    Bool.not_false, Bool.and_self, ↓reduceIte]
  cases hprevious : storage.offsets.lookup key with
  | some previous =>
    have hback : (storage.offsets.put key offset).put key previous =
        storage.offsets := by
      apply ext_lookup
      intro probe
      rw [lookup_put, lookup_put]
      split
      next heq => rw [← heq, hprevious]
      · rfl
    simp only [hback]
  | none =>
    have hback : (storage.offsets.put key offset).remove key = storage.offsets := by
      apply ext_lookup
      intro probe
      rw [lookup_remove, lookup_put]
      split
      next heq => rw [← heq, hprevious]
      · rfl
    simp only [hback]

variable {outcome : FlushOutcome}

/-- Any other write leaves the table and the snapshot with the offset. -/
theorem storeOffset_committed (storage : FileOffsetStorage) (key : OffsetKey)
    (offset : OffsetAndMetadata) (order : TableOrder)
    (hcommitted : outcome ≠ .failedBefore) :
    storage.storeOffset key offset order outcome =
      (({ storage with offsets := storage.offsets.put key offset } :
        FileOffsetStorage).flush order outcome, outcome.fails) := by
  cases outcome with
  | failedBefore => exact absurd rfl hcommitted
  | failedAfter | succeeded => rfl

theorem deleteOffsets_failedBefore (storage : FileOffsetStorage)
    (groupId : Bytes) (order : TableOrder) :
    storage.deleteOffsets groupId order .failedBefore = (storage, true) := by
  have hback : (storage.offsets.deleteGroup groupId).restoreGroup
      storage.offsets groupId = storage.offsets := by
    apply ext_lookup
    intro key
    have habsent : (storage.offsets.deleteGroup groupId).topics groupId = ∅ := by
      rw [topics_deleteGroup, if_pos rfl]
    simp only [OffsetTable.lookup, OffsetTable.partitions,
      topics_restoreGroup _ _ _ _ habsent, topics_deleteGroup]
    split
    · rfl
    · rfl
  have hflush : ∀ written : FileOffsetStorage,
      written.flush order .failedBefore = written := fun _ => rfl
  simp only [deleteOffsets, hflush, FlushOutcome.fails, FlushOutcome.committed,
    Bool.not_false, Bool.and_self, ↓reduceIte, hback]

theorem deleteOffsets_committed (storage : FileOffsetStorage) (groupId : Bytes)
    (order : TableOrder) (hcommitted : outcome ≠ .failedBefore) :
    storage.deleteOffsets groupId order outcome =
      (({ storage with offsets := storage.offsets.deleteGroup groupId } :
        FileOffsetStorage).flush order outcome, outcome.fails) := by
  cases outcome with
  | failedBefore => exact absurd rfl hcommitted
  | failedAfter | succeeded => rfl

variable {op : StorageOp}

/-- An operation that fails before the rename changes nothing. -/
theorem step_failedBefore (storage : FileOffsetStorage)
    (hfailed : op.outcome = .failedBefore) : storage.step op = storage := by
  cases op with
  | store key offset order outcome =>
    cases hfailed
    simp only [step, storeOffset_failedBefore]
  | delete groupId order outcome =>
    cases hfailed
    simp only [step, deleteOffsets_failedBefore]

/-- The table is the one of the snapshot, and survives being written. -/
structure Agrees (storage : FileOffsetStorage) : Prop where
  load_eq : load storage.file = .ok storage.offsets
  survives : storage.offsets.Survives

theorem agrees_flush {offsets : OffsetTable} (hsurvives : offsets.Survives)
    (file : SnapshotFile) (order : TableOrder)
    (hcommitted : outcome ≠ .failedBefore) :
    ((FileOffsetStorage.mk offsets file).flush order outcome).Agrees := by
  cases outcome with
  | failedBefore => exact absurd rfl hcommitted
  | failedAfter | succeeded => exact ⟨hsurvives.load_eq order, hsurvives⟩

theorem Agrees.step (hagrees : storage.Agrees) (hstores : storage.Stores op) :
    (storage.step op).Agrees := by
  by_cases hfailed : op.outcome = .failedBefore
  · rw [step_failedBefore storage hfailed]
    exact hagrees
  · cases op with
    | store key offset order outcome =>
      rcases hstores with hbefore | hsurvives
      · exact absurd hbefore hfailed
      · have hcommitted : outcome ≠ .failedBefore := hfailed
        simp only [FileOffsetStorage.step, storeOffset_committed _ _ _ _ hcommitted]
        exact agrees_flush (hagrees.survives.put hsurvives) _ order hcommitted
    | delete groupId order outcome =>
      have hcommitted : outcome ≠ .failedBefore := hfailed
      simp only [FileOffsetStorage.step, deleteOffsets_committed _ _ _ hcommitted]
      exact agrees_flush (hagrees.survives.deleteGroup groupId) _ order hcommitted

/-- A failure before the rename leaves the table as it was, after any
operations.  If every offset that reached the file survives there, then the
table is the one that loading the file gives. -/
theorem load_eq_offsets {file : SnapshotFile} {table : OffsetTable}
    (hload : load file = .ok table) (ops : List StorageOp) :
    (∀ op : StorageOp, op.outcome = .failedBefore →
      ((runSteps step ⟨table, file⟩ ops).step op).offsets =
        (runSteps step ⟨table, file⟩ ops).offsets) ∧
    (AllAllowed step Stores ⟨table, file⟩ ops →
      load (runSteps step ⟨table, file⟩ ops).file =
        .ok (runSteps step ⟨table, file⟩ ops).offsets) := by
  constructor
  · intro op hfailed
    rw [step_failedBefore _ hfailed]
  · intro hstores
    have hagrees := hstores.invariant Agrees
      (fun storage op hagrees => hagrees.step) ⟨hload, survives_of_load hload⟩
    exact hagrees.load_eq

/-- A commit of offset 5 whose expiry is not set. -/
def sampleOffset : OffsetAndMetadata := ⟨5, [109], 7, zeroTime, 0⟩

theorem load_eq_offsets_sample : load .missing = .ok .empty ∧
      AllAllowed step Stores ⟨.empty, .missing⟩
        [.store ([103], [116], 0) sampleOffset .sorted .succeeded,
          .store ([255], [116], 0) sampleOffset .sorted .failedBefore] ∧
      load (runSteps step ⟨.empty, .missing⟩
        [.store ([103], [116], 0) sampleOffset .sorted .succeeded,
          .store ([255], [116], 0) sampleOffset .sorted .failedBefore]).file =
        .ok (runSteps step ⟨.empty, .missing⟩
          [.store ([103], [116], 0) sampleOffset .sorted .succeeded,
            .store ([255], [116], 0) sampleOffset .sorted
              .failedBefore]).offsets := by
  have hload : load .missing = .ok .empty := rfl
  have hstores : AllAllowed step Stores ⟨.empty, .missing⟩
      [.store ([103], [116], 0) sampleOffset .sorted .succeeded,
        .store ([255], [116], 0) sampleOffset .sorted .failedBefore] := by
    decide +kernel
  exact ⟨hload, hstores, (load_eq_offsets hload _).2 hstores⟩

/-- A group whose name is no text comes back under another name. -/
theorem load_ne_offsets : load (runSteps step ⟨.empty, .missing⟩
        [.store ([255], [116], 0) sampleOffset .sorted .succeeded]).file ≠
      .ok (runSteps step ⟨.empty, .missing⟩
        [.store ([255], [116], 0) sampleOffset .sorted .succeeded]).offsets := by
  decide +kernel

end FileOffsetStorage

theorem FileOffsetStorage.offsets_storeOffset (storage : FileOffsetStorage)
    (key : OffsetKey) (offset : OffsetAndMetadata) (order : TableOrder)
    (outcome : FlushOutcome) :
    (storage.storeOffset key offset order outcome).1.offsets =
      if outcome.committed then storage.offsets.put key offset
      else storage.offsets := by
  cases outcome with
  | failedBefore =>
    rw [storeOffset_failedBefore]
    rfl
  | failedAfter | succeeded => rfl

namespace OffsetCommitRequest

theorem mem_entries_iff (req : OffsetCommitRequest) (topic : Bytes)
    (partition : Int) (data : OffsetCommitData) :
    ((topic, partition), data) ∈ req.entries ↔
      (req.offsets.find? topic).bind (·.find? partition) = some data := by
  simp only [entries, List.mem_flatMap, List.mem_map, Prod.mk.injEq, bind_eq_some_iff]
  constructor
  · rintro ⟨⟨_, partitions⟩, htopic, ⟨_, _⟩, hentry, ⟨rfl, rfl⟩, rfl⟩
    exact ⟨partitions, (OrderedMap.mem_entries_iff _ _ _).mp htopic,
      (OrderedMap.mem_entries_iff _ _ _).mp hentry⟩
  · rintro ⟨partitions, htopic, hentry⟩
    exact ⟨(topic, partitions), (OrderedMap.mem_entries_iff _ _ _).mpr htopic,
      (partition, data), (OrderedMap.mem_entries_iff _ _ _).mpr hentry,
      ⟨rfl, rfl⟩, rfl⟩

end OffsetCommitRequest

namespace GroupCoordinator

/-- The offsets of a commit that reach the snapshot. -/
def writtenOffsets (gc : GroupCoordinator) (req : OffsetCommitRequest)
    (now : Int) (plan : CommitPlan) : List (OffsetKey × OffsetAndMetadata) :=
  ((plan.order.visit req.entries).filter fun entry =>
    (plan.flush entry.1).2.committed).map fun entry =>
      ((req.groupId, entry.1), gc.commitOffset now entry.2)

theorem offsets_storeOffsets (gc : GroupCoordinator)
    (req : OffsetCommitRequest) (now : Int) (plan : CommitPlan) :
    (gc.storeOffsets req now plan).offsets =
      OffsetTable.keyed.writes gc.offsetStorage.offsets
        (gc.writtenOffsets req now plan) := by
  unfold storeOffsets writtenOffsets
  generalize gc.offsetStorage = storage
  induction plan.order.visit req.entries generalizing storage with
  | nil => rfl
  | cons entry rest ih =>
    rw [foldl_cons, ih, FileOffsetStorage.offsets_storeOffset]
    rw [filter_cons]
    split
    · rfl
    · rfl

variable {req : OffsetCommitRequest} {gc : GroupCoordinator} {plan : CommitPlan}
  {now : Int} {key : OffsetKey}

theorem mem_writtenOffsets {offset : OffsetAndMetadata} :
    (key, offset) ∈ gc.writtenOffsets req now plan ↔
      ∃ entry ∈ req.entries, (plan.flush entry.1).2.committed = true ∧
        key = (req.groupId, entry.1) ∧
        offset = gc.commitOffset now entry.2 := by
  simp only [writtenOffsets, List.mem_map, List.mem_filter,
    (plan.order.perm req.entries).mem_iff, Prod.mk.injEq]
  constructor
  · rintro ⟨entry, ⟨hmem, hcommitted⟩, rfl, rfl⟩
    exact ⟨entry, hmem, hcommitted, rfl, rfl⟩
  · rintro ⟨entry, hmem, hcommitted, rfl, rfl⟩
    exact ⟨entry, ⟨hmem, hcommitted⟩, rfl, rfl⟩

/-- The stored offset of a partition whose write reached the snapshot. -/
theorem lookup_storeOffsets_of_committed {partition : Bytes × Int}
    {data : OffsetCommitData} (hentry : (partition, data) ∈ req.entries)
    (hcommitted : (plan.flush partition).2.committed = true) :
    (gc.storeOffsets req now plan).offsets.lookup (req.groupId, partition) =
      some (gc.commitOffset now data) := by
  rw [offsets_storeOffsets]
  apply OffsetTable.keyed.find_writes_of_mem
  · exact mem_writtenOffsets.mpr ⟨(partition, data), hentry, hcommitted, rfl, rfl⟩
  · intro other hother
    obtain ⟨⟨_, otherData⟩, hmem, _, hkey, rfl⟩ :=
      mem_writtenOffsets.mp hother
    cases hkey
    rw [OffsetCommitRequest.mem_entries_iff] at hentry hmem
    rw [Option.some.inj (hmem.symm.trans hentry)]

/-- The error code of a partition in a response. -/
def codeOf (response : OffsetCommitResponse) (partition : Bytes × Int) :
    Option ErrorCode :=
  (response.find? partition.1).bind (·.find? partition.2)

theorem codeOf_commitErrors (code : Bytes × Int → ErrorCode)
    {entry : (Bytes × Int) × OffsetCommitData} (hentry : entry ∈ req.entries) :
    codeOf (commitErrors req code) entry.1 = some (code entry.1) := by
  rw [OffsetCommitRequest.mem_entries_iff, bind_eq_some_iff] at hentry
  obtain ⟨partitions, htopic, hpartition⟩ := hentry
  simp only [codeOf, commitErrors, find?_mapValues, htopic,
    map_some, bind_some, hpartition]

/-- No member of the group has the ID. -/
def NotMember (gc : GroupCoordinator) (groupId memberId : Bytes) : Prop :=
  ∀ group, gc.groups.find? groupId = some group → group.members.find? memberId = none

theorem handleOffsetCommit_of_notMember (hgeneration : 0 ≤ req.generationId)
    (hnotMember : gc.NotMember req.groupId req.memberId) (now : Int)
    (plan : CommitPlan) : ∃ code ≠ ErrorCode.none,
      gc.handleOffsetCommit req now plan = (gc, commitErrors req fun _ => code) := by
  unfold handleOffsetCommit
  rw [if_pos hgeneration]
  split
  · exact ⟨_, by decide, rfl⟩
  next group hgroup =>
    rw [hnotMember group hgroup]
    exact ⟨_, by decide, rfl⟩

theorem handleOffsetCommit_of_member
    (hmember : 0 ≤ req.generationId → ¬ gc.NotMember req.groupId req.memberId)
    (now : Int) (plan : CommitPlan) :
    gc.handleOffsetCommit req now plan =
      ({ gc with offsetStorage := gc.storeOffsets req now plan },
        commitErrors req fun partition =>
          if (plan.flush partition).2.fails then .unknown else .none) := by
  unfold handleOffsetCommit
  split
  next hgeneration =>
    have hfound := hmember hgeneration
    simp only [NotMember, not_forall] at hfound
    obtain ⟨group, hgroup, hsome⟩ := hfound
    obtain ⟨member, hmember⟩ := ne_none_iff_exists'.mp hsome
    rw [hgroup]
    dsimp only
    rw [hmember]
  · rfl

end GroupCoordinator

end Streambus.Group
