/-
Requests of stale members, and the deletion of a group.  A request to leave is
never rejected by a group that exists, and a commit is checked for the member
but not for its generation.  A group is taken out of the coordinator's map
first and its offsets are deleted later, so that in between a group of the same
name can be created and commit offsets.
-/
import Streambus.GroupLeader
import Streambus.OffsetSnapshot

namespace Streambus.Group

/-- A request of a member, or of one that was. -/
inductive MemberRequest where
  | sync (req : SyncGroupRequest)
  | heartbeat (req : HeartbeatRequest) (now : Int)
  | leave (req : LeaveGroupRequest)
  | commit (req : OffsetCommitRequest) (now : Int)
      (plan : GroupCoordinator.CommitPlan)

/-- Neither the groups nor the stored offsets changed. -/
def GroupCoordinator.Unchanged (gc after : GroupCoordinator) : Prop :=
  after.groups = gc.groups ∧ after.offsetStorage.offsets = gc.offsetStorage.offsets

namespace MemberRequest

/-- The request is of no current member, or of another generation than the
current one if it names a generation. -/
def Stale (gc : GroupCoordinator) : MemberRequest → Prop
  | .sync req => gc.Stale req.groupId req.generationId req.memberId
  | .heartbeat req _ => gc.Stale req.groupId req.generationId req.memberId
  | .leave req => gc.NotMember req.groupId req.memberId
  | .commit req _ _ => 0 ≤ req.generationId ∧
      gc.Stale req.groupId req.generationId req.memberId

/-- The request changes nothing and is answered with an error. -/
def Rejected (gc : GroupCoordinator) : MemberRequest → Prop
  | .sync req => gc.Unchanged (gc.handleSyncGroup req).1 ∧
      (gc.handleSyncGroup req).2.errorCode ≠ .none
  | .heartbeat req now => gc.Unchanged (gc.handleHeartbeat req now).1 ∧
      (gc.handleHeartbeat req now).2 ≠ .none
  | .leave req => gc.Unchanged (gc.handleLeaveGroup req).1 ∧
      (gc.handleLeaveGroup req).2 ≠ .none
  | .commit req now plan =>
    gc.Unchanged (gc.handleOffsetCommit req now plan).1 ∧
    ∀ entry ∈ req.entries, ∃ code ≠ ErrorCode.none,
      GroupCoordinator.codeOf (gc.handleOffsetCommit req now plan).2
        entry.1 = some code

/-- The requests that are checked.  A commit of a member in another generation
is stopped by nothing but failing writes. -/
def Checked (gc : GroupCoordinator) : MemberRequest → Prop
  | .sync _ => True
  | .heartbeat _ _ => True
  | .leave req => gc.groups.find? req.groupId = none
  | .commit req now plan => gc.NotMember req.groupId req.memberId ∨
      ∀ entry ∈ req.entries, (plan.flush entry.1).2.fails = true ∧
        ((plan.flush entry.1).2.committed = true →
          gc.offsetStorage.offsets.lookup (req.groupId, entry.1) =
            some (gc.commitOffset now entry.2))

variable {gc : GroupCoordinator} {req : OffsetCommitRequest}

/-- The writes of a commit change nothing exactly if those that reach the
snapshot write what is there. -/
theorem storeOffsets_eq_iff {now : Int} {plan : GroupCoordinator.CommitPlan} :
    (gc.storeOffsets req now plan).offsets = gc.offsetStorage.offsets ↔
      ∀ entry ∈ req.entries, (plan.flush entry.1).2.committed = true →
        gc.offsetStorage.offsets.lookup (req.groupId, entry.1) =
          some (gc.commitOffset now entry.2) := by
  constructor
  · intro hsame entry hentry hcommitted
    rw [← hsame]
    exact GroupCoordinator.lookup_storeOffsets_of_committed hentry hcommitted
  · intro hwritten
    apply OffsetTable.ext_lookup
    intro key
    by_cases hkey : ∃ entry ∈ req.entries,
        (plan.flush entry.1).2.committed = true ∧ key = (req.groupId, entry.1)
    · obtain ⟨entry, hentry, hcommitted, rfl⟩ := hkey
      rw [GroupCoordinator.lookup_storeOffsets_of_committed hentry hcommitted,
        hwritten entry hentry hcommitted]
    · rw [GroupCoordinator.offsets_storeOffsets]
      apply OffsetTable.keyed.find_writes_of_notMem
      intro offset hmem
      obtain ⟨entry, hentry, hcommitted, heq, _⟩ :=
        GroupCoordinator.mem_writtenOffsets.mp hmem
      exact hkey ⟨entry, hentry, hcommitted, heq⟩

theorem rejected_commit_iff (hgeneration : 0 ≤ req.generationId) (now : Int)
    (plan : GroupCoordinator.CommitPlan) :
    (MemberRequest.commit req now plan).Rejected gc ↔
      (MemberRequest.commit req now plan).Checked gc := by
  simp only [Rejected, Checked]
  by_cases hnotMember : gc.NotMember req.groupId req.memberId
  · obtain ⟨code, hcode, hcommit⟩ :=
      GroupCoordinator.handleOffsetCommit_of_notMember hgeneration hnotMember now plan
    rw [hcommit]
    refine iff_of_true ⟨⟨rfl, rfl⟩, fun entry hentry => ?_⟩ (Or.inl hnotMember)
    exact ⟨code, hcode, GroupCoordinator.codeOf_commitErrors _ hentry⟩
  · rw [GroupCoordinator.handleOffsetCommit_of_member (fun _ => hnotMember)]
    have hcodes : (∀ entry ∈ req.entries, ∃ code ≠ ErrorCode.none,
        GroupCoordinator.codeOf (GroupCoordinator.commitErrors req
          fun partition => if (plan.flush partition).2.fails then .unknown
            else .none) entry.1 = some code) ↔
        ∀ entry ∈ req.entries, (plan.flush entry.1).2.fails = true := by
      refine forall₂_congr fun entry hentry => ?_
      rw [GroupCoordinator.codeOf_commitErrors _ hentry]
      cases (plan.flush entry.1).2.fails with
      | false | true => simp
    simp only [GroupCoordinator.Unchanged, true_and, hcodes, hnotMember,
      false_or, storeOffsets_eq_iff]
    constructor
    · rintro ⟨hwritten, hfails⟩ entry hentry
      exact ⟨hfails entry hentry, hwritten entry hentry⟩
    · intro hboth
      exact ⟨fun entry hentry => (hboth entry hentry).2,
        fun entry hentry => (hboth entry hentry).1⟩

/-- A request of a stale or unknown member is rejected exactly if it is
checked. -/
theorem rejected_iff_checked (gc : GroupCoordinator) {request : MemberRequest}
    (hstale : request.Stale gc) :
    request.Rejected gc ↔ request.Checked gc := by
  cases request with
  | sync req =>
    obtain ⟨code, hcode, hsync⟩ :=
      GroupCoordinator.handleSyncGroup_of_stale hstale
    simp only [Rejected, Checked, hsync]
    exact iff_of_true ⟨⟨rfl, rfl⟩, hcode⟩ trivial
  | heartbeat req now =>
    obtain ⟨code, hcode, hbeat⟩ :=
      GroupCoordinator.handleHeartbeat_of_stale now hstale
    simp only [Rejected, Checked, hbeat]
    exact iff_of_true ⟨⟨rfl, rfl⟩, hcode⟩ trivial
  | leave req =>
    simp only [Rejected, Checked, GroupCoordinator.handleLeaveGroup]
    cases hgroup : gc.groups.find? req.groupId with
    | none =>
      have hcode : ErrorCode.groupIdNotFound ≠ .none := by decide
      exact iff_of_true ⟨⟨rfl, rfl⟩, hcode⟩ rfl
    | some group =>
      apply iff_of_false
      · rintro ⟨_, hcode⟩
        exact hcode rfl
      · exact Option.some_ne_none group
  | commit req now plan => exact rejected_commit_iff hstale.1 now plan

end MemberRequest

namespace GroupCoordinator

/-- A group of two members in its first generation. -/
def twoMembers : GroupCoordinator :=
  runSteps step sample [joins [97], joins [98],
    .sync ⟨[103], 1, [97], [⟨[97], some [1]⟩, ⟨[98], some [2]⟩]⟩]

end GroupCoordinator

namespace MemberRequest

open GroupCoordinator

theorem rejected_iff_checked_unknown :
    (MemberRequest.heartbeat ⟨[103], 1, [99]⟩ 0).Stale twoMembers ∧
      (MemberRequest.heartbeat ⟨[103], 1, [99]⟩ 0).Rejected twoMembers := by
  have hstale : (MemberRequest.heartbeat ⟨[103], 1, [99]⟩ 0).Stale
      twoMembers := by
    intro group hgroup
    rw [← Option.some.inj hgroup]
    decide +kernel
  exact ⟨hstale, (rejected_iff_checked twoMembers hstale).mpr trivial⟩

/-- Every write of a commit succeeds. -/
def allSucceed : CommitPlan := ⟨.sorted, fun _ => (.sorted, .succeeded)⟩

/-- A commit of a member in another generation than the current one. -/
def staleCommit : MemberRequest :=
  .commit ⟨[103], 7, [97],
    (∅ : OrderedMap Bytes (OrderedMap Int OffsetCommitData)).insert [116]
      ((∅ : OrderedMap Int OffsetCommitData).insert 0 ⟨5, []⟩)⟩ 0 allSucceed

/-- One that is no member makes a stable group rebalance by leaving it, and a
member of another generation commits an offset. -/
theorem stale_not_rejected : ((MemberRequest.leave ⟨[103], [99]⟩).Stale twoMembers ∧
      ((twoMembers.handleLeaveGroup ⟨[103], [99]⟩).1.groups.find?
        [103]).map GroupMetadata.generationId = some 2 ∧
      (twoMembers.handleLeaveGroup ⟨[103], [99]⟩).2 = .none ∧
      ¬ (MemberRequest.leave ⟨[103], [99]⟩).Rejected twoMembers) ∧
    staleCommit.Stale twoMembers ∧ ¬ staleCommit.Rejected twoMembers := by
  have hleave : (MemberRequest.leave ⟨[103], [99]⟩).Stale twoMembers := by
    intro group hgroup
    rw [← Option.some.inj hgroup]
    decide +kernel
  have hcommit : staleCommit.Stale twoMembers := by
    refine ⟨by decide, fun group hgroup => ?_⟩
    rw [← Option.some.inj hgroup]
    decide +kernel
  refine ⟨⟨hleave, by decide +kernel, by decide +kernel, ?_⟩, hcommit, ?_⟩
  · rintro ⟨_, hcode⟩
    exact hcode (by decide +kernel)
  · rintro ⟨_, hcodes⟩
    obtain ⟨code, hcode, hfound⟩ := hcodes (([116], 0), ⟨5, []⟩) List.mem_cons_self
    have hnone : codeOf (twoMembers.handleOffsetCommit ⟨[103], 7, [97],
        (∅ : OrderedMap Bytes (OrderedMap Int OffsetCommitData)).insert [116]
          ((∅ : OrderedMap Int OffsetCommitData).insert 0 ⟨5, []⟩)⟩ 0
        allSucceed).2 ([116], 0) = some .none := by
      decide +kernel
    exact hcode (Option.some.inj (hfound.symm.trans hnone))

end MemberRequest

open GroupCoordinator OffsetTable OrderedMap

/-- What a response says about a partition. -/
def fetchedOf (response : OffsetFetchResponse) (topic : Bytes)
    (partition : Int) : Option OffsetFetchData :=
  (response.find? topic).bind (·.find? partition)

/-- The request asks for a partition: it names it, or it names nothing. -/
def OffsetFetchRequest.Asks (req : OffsetFetchRequest) (topic : Bytes)
    (partition : Int) : Prop :=
  req.topics = ∅ ∨ ∃ partitions, req.topics.find? topic = some partitions ∧
    partition ∈ partitions

/-- A stored offset is returned to everyone who asks for it. -/
theorem GroupCoordinator.fetchedOf_handleOffsetFetch {gc : GroupCoordinator}
    {req : OffsetFetchRequest} {topic : Bytes} {partition : Int}
    {offset : OffsetAndMetadata} (hasks : req.Asks topic partition)
    (hstored : gc.offsetStorage.offsets.lookup
      (req.groupId, topic, partition) = some offset) :
    fetchedOf (gc.handleOffsetFetch req) topic partition =
      some (fetchedOffset offset) := by
  unfold fetchedOf handleOffsetFetch
  by_cases hall : req.topics = ∅
  · simp only [hall, ↓reduceIte, FileOffsetStorage.fetchOffsets, find?_mapValues]
    simp only [OffsetTable.lookup, OffsetTable.partitions] at hstored
    cases htopic : (gc.offsetStorage.offsets.topics req.groupId).find? topic with
    | none =>
      rw [htopic] at hstored
      cases hstored
    | some partitions =>
      rw [htopic, Option.getD_some] at hstored
      simp [find?_mapValues, hstored]
  · obtain ⟨partitions, htopic, hpartition⟩ := hasks.resolve_left hall
    simp only [hall, ↓reduceIte, find?_mapValues, htopic,
      Option.map_some, Option.bind_some]
    apply OrderedMap.keyed.find_writes_of_mem
    · refine List.mem_map.mpr ⟨partition, hpartition, ?_⟩
      rw [FileOffsetStorage.fetchOffset, hstored]
    · intro other hother
      obtain ⟨_, _, heq⟩ := List.mem_map.mp hother
      cases heq
      rw [FileOffsetStorage.fetchOffset, hstored]

def GroupOp.isDelete : GroupOp → Bool
  | .delete _ _ _ => true
  | _ => false

/-- A request, or one of the two steps of a deletion. -/
inductive DeletionStep where
  | request (op : GroupOp) (hother : op.isDelete = false)
  | remove (groupId : Bytes)
  | deleteOffsets (groupId : Bytes) (order : TableOrder) (outcome : FlushOutcome)

/-- A run of the coordinator.  The pending groups are those that were removed
and whose offsets are still to be deleted; what is owed are the offsets that
were acknowledged to members of the groups that are registered and have not
been overwritten. -/
structure DeletionRun where
  coordinator : GroupCoordinator
  pending : List Bytes
  owed : OffsetTable

namespace DeletionRun

def start (config : CoordinatorConfig) (storage : FileOffsetStorage) :
    DeletionRun :=
  ⟨.start config storage, [], .empty⟩

def isMember (gc : GroupCoordinator) (groupId memberId : Bytes) : Bool :=
  ((gc.groups.find? groupId).bind (·.members.find? memberId)).isSome

/-- What is owed after one write of a commit. -/
def oweOne (gc : GroupCoordinator) (req : OffsetCommitRequest) (now : Int)
    (plan : GroupCoordinator.CommitPlan) (owed : OffsetTable)
    (entry : (Bytes × Int) × OffsetCommitData) : OffsetTable :=
  match (plan.flush entry.1).2 with
  | .failedBefore => owed
  | .failedAfter => owed.remove (req.groupId, entry.1)
  | .succeeded =>
    if isMember gc req.groupId req.memberId then
      owed.put (req.groupId, entry.1) (gc.commitOffset now entry.2)
    else owed.remove (req.groupId, entry.1)

/-- What is owed after a commit. -/
def owe (gc : GroupCoordinator) (req : OffsetCommitRequest) (now : Int)
    (plan : GroupCoordinator.CommitPlan) (owed : OffsetTable) : OffsetTable :=
  if 0 ≤ req.generationId ∧ ¬ isMember gc req.groupId req.memberId then owed
  else (plan.order.visit req.entries).foldl (oweOne gc req now plan) owed

def step (run : DeletionRun) : DeletionStep → DeletionRun
  | .request op _ =>
    let next := { run with coordinator := run.coordinator.step op }
    match op with
    | .commit req now plan =>
      { next with owed := owe run.coordinator req now plan run.owed }
    | _ => next
  | .remove groupId =>
    match run.coordinator.removeGroup groupId with
    | .error _ => run
    | .ok removed =>
      ⟨removed, groupId :: run.pending, run.owed.deleteGroup groupId⟩
  | .deleteOffsets groupId order outcome =>
    if groupId ∈ run.pending then
      { run with
        coordinator :=
          (run.coordinator.deleteOffsets groupId order outcome).1
        pending := run.pending.erase groupId }
    else run

/-- The offsets of a removed group are deleted before any is owed again. -/
def DeletesInTime (run : DeletionRun) : DeletionStep → Prop
  | .deleteOffsets groupId _ outcome =>
    groupId ∈ run.pending → outcome ≠ .failedBefore → run.owed.topics groupId = ∅
  | _ => True

/-- Whatever is owed is stored. -/
def Backed (run : DeletionRun) : Prop :=
  ∀ key offset, run.owed.lookup key = some offset →
    run.coordinator.offsetStorage.offsets.lookup key = some offset

variable {gc : GroupCoordinator} {groupId : Bytes}
  {plan : GroupCoordinator.CommitPlan} {req : OffsetCommitRequest} {now : Int}

theorem isMember_iff {memberId : Bytes} :
    isMember gc groupId memberId = true ↔ ¬ gc.NotMember groupId memberId := by
  unfold isMember GroupCoordinator.NotMember
  cases hgroup : gc.groups.find? groupId with
  | none => simp
  | some group => simp [Option.isSome_iff_ne_none]

variable {storage : FileOffsetStorage} {owed : OffsetTable}

section

variable
  (hbacked : ∀ key offset, owed.lookup key = some offset →
    storage.offsets.lookup key = some offset)

include hbacked

theorem backed_oweOne (entry : (Bytes × Int) × OffsetCommitData) :
    ∀ key offset, (oweOne gc req now plan owed entry).lookup key = some offset →
      (storage.storeOffset (req.groupId, entry.1)
        (gc.commitOffset now entry.2) (plan.flush entry.1).1
        (plan.flush entry.1).2).1.offsets.lookup key = some offset := by
  intro key offset howed
  rw [FileOffsetStorage.offsets_storeOffset]
  have hremoved : (owed.remove (req.groupId, entry.1)).lookup key =
      some offset → (storage.offsets.put (req.groupId, entry.1)
        (gc.commitOffset now entry.2)).lookup key = some offset := by
    intro hlookup
    rw [lookup_remove] at hlookup
    rw [lookup_put]
    split at hlookup
    · cases hlookup
    next hne =>
      rw [if_neg hne]
      exact hbacked key offset hlookup
  unfold oweOne at howed
  cases houtcome : (plan.flush entry.1).2 with
  | failedBefore =>
    rw [houtcome] at howed
    exact hbacked key offset howed
  | failedAfter =>
    rw [houtcome] at howed
    exact hremoved howed
  | succeeded =>
    rw [houtcome] at howed
    dsimp only at howed
    split at howed
    · rw [lookup_put] at howed
      change (storage.offsets.put _ _).lookup key = _
      rw [lookup_put]
      split at howed
      next heq =>
        rw [if_pos heq]
        exact howed
      next hne =>
        rw [if_neg hne]
        exact hbacked key offset howed
    · exact hremoved howed

theorem backed_foldl (entries : List ((Bytes × Int) × OffsetCommitData)) :
    ∀ key offset, (entries.foldl (oweOne gc req now plan) owed).lookup key =
        some offset →
      (entries.foldl (fun storage entry =>
        (storage.storeOffset (req.groupId, entry.1)
          (gc.commitOffset now entry.2) (plan.flush entry.1).1
          (plan.flush entry.1).2).1) storage).offsets.lookup key =
        some offset := by
  induction entries generalizing owed storage with
  | nil => exact hbacked
  | cons entry rest ih => exact ih (backed_oweOne hbacked entry)

end

theorem backed_owe (hbacked : ∀ key offset, owed.lookup key = some offset →
      gc.offsetStorage.offsets.lookup key = some offset) :
    ∀ key offset, (owe gc req now plan owed).lookup key = some offset →
      (gc.handleOffsetCommit req now plan).1.offsetStorage.offsets.lookup
        key = some offset := by
  by_cases hnotMember : 0 ≤ req.generationId ∧ gc.NotMember req.groupId req.memberId
  · obtain ⟨code, _, hcommit⟩ :=
      handleOffsetCommit_of_notMember hnotMember.1 hnotMember.2 now plan
    have howe : owe gc req now plan owed = owed := by
      rw [owe, if_pos]
      exact ⟨hnotMember.1, fun hmember =>
        isMember_iff.mp hmember hnotMember.2⟩
    rw [hcommit, howe]
    exact hbacked
  · have hmember : 0 ≤ req.generationId →
        ¬ gc.NotMember req.groupId req.memberId := fun hgeneration hnone =>
      hnotMember ⟨hgeneration, hnone⟩
    have howe : owe gc req now plan owed =
        (plan.order.visit req.entries).foldl (oweOne gc req now plan)
          owed := by
      rw [owe, if_neg]
      rintro ⟨hgeneration, hnone⟩
      exact hnone (isMember_iff.mpr (hmember hgeneration))
    rw [handleOffsetCommit_of_member hmember, howe]
    exact backed_foldl hbacked (plan.order.visit req.entries)

/-- Only commits and deletions touch the stored offsets. -/
theorem offsetStorage_step (gc : GroupCoordinator) {op : GroupOp}
    (hdelete : op.isDelete = false)
    (hcommit : ∀ req now plan, op ≠ .commit req now plan) :
    (gc.step op).offsetStorage = gc.offsetStorage := by
  cases op with
  | join req now =>
    simp only [GroupCoordinator.step, GroupCoordinator.handleJoinGroup]
    split
    · rfl
    · rfl
  | sync req =>
    simp only [GroupCoordinator.step, GroupCoordinator.handleSyncGroup]
    split
    · rfl
    · split
      · rfl
      · split
        · rfl
        · split
          · rfl
          · rfl
  | heartbeat req now =>
    simp only [GroupCoordinator.step, GroupCoordinator.handleHeartbeat]
    split
    · rfl
    · split
      · rfl
      · split
        · rfl
        · split
          · rfl
          · rfl
  | leave req =>
    simp only [GroupCoordinator.step, GroupCoordinator.handleLeaveGroup]
    split
    · rfl
    · rfl
  | commit req now plan => exact absurd rfl (hcommit req now plan)
  | delete deleted order outcome => cases hdelete
  | expire expired => rfl

theorem offsets_deleteOffsets (gc : GroupCoordinator) (groupId : Bytes)
    (order : TableOrder) (outcome : FlushOutcome) :
    (gc.deleteOffsets groupId order outcome).1.offsetStorage.offsets =
      if outcome = .failedBefore then gc.offsetStorage.offsets
      else gc.offsetStorage.offsets.deleteGroup groupId := by
  simp only [GroupCoordinator.deleteOffsets]
  split
  next heq => rw [heq, FileOffsetStorage.deleteOffsets_failedBefore]
  next hne =>
    cases outcome with
    | failedBefore => exact absurd rfl hne
    | failedAfter | succeeded => rfl

/-- A group that was removed is not there, and its offsets still are. -/
theorem of_removeGroup {removed : GroupCoordinator}
    (hremove : gc.removeGroup groupId = .ok removed) :
    removed.groups.find? groupId = none ∧
      removed.offsetStorage = gc.offsetStorage := by
  unfold GroupCoordinator.removeGroup at hremove
  split at hremove
  · cases hremove
  · split at hremove
    · cases hremove
    · rw [← Except.ok.inj hremove]
      refine ⟨?_, rfl⟩
      rw [find?_erase, if_pos rfl]

theorem lookup_eq_none_of_topics {table : OffsetTable} {key : OffsetKey}
    (htopics : table.topics key.1 = ∅) : table.lookup key = none := by
  rw [OffsetTable.lookup, OffsetTable.partitions, htopics]
  rfl

variable {run : DeletionRun}

theorem Backed.step (hbacked : run.Backed) {op : DeletionStep}
    (hintime : run.DeletesInTime op) : (run.step op).Backed := by
  cases op with
  | request op hother =>
    by_cases hcommit : ∃ req now plan, op = .commit req now plan
    · obtain ⟨req, now, plan, rfl⟩ := hcommit
      exact backed_owe hbacked
    · have hstorage := offsetStorage_step run.coordinator hother
        fun req now plan heq => hcommit ⟨req, now, plan, heq⟩
      have howed : (run.step (.request op hother)).owed = run.owed := by
        cases op with
        | commit req now plan => exact absurd ⟨req, now, plan, rfl⟩ hcommit
        | _ => rfl
      have hcoordinator : (run.step (.request op hother)).coordinator =
          run.coordinator.step op := by
        cases op <;> rfl
      intro key offset hlookup
      rw [howed] at hlookup
      rw [hcoordinator, hstorage]
      exact hbacked key offset hlookup
  | remove groupId =>
    simp only [DeletionRun.step]
    cases hremove : run.coordinator.removeGroup groupId with
    | error error => exact hbacked
    | ok removed =>
      have hstorage := (of_removeGroup hremove).2
      intro key offset hlookup
      rw [lookup_deleteGroup] at hlookup
      split at hlookup
      · cases hlookup
      · change removed.offsetStorage.offsets.lookup key = _
        rw [hstorage]
        exact hbacked key offset hlookup
  | deleteOffsets groupId order outcome =>
    simp only [DeletionRun.step]
    split
    next hpending =>
      intro key offset hlookup
      rw [offsets_deleteOffsets]
      split
      · exact hbacked key offset hlookup
      · rename_i hcommitted
        have hnothing := hintime hpending hcommitted
        rw [lookup_deleteGroup]
        split
        · rename_i heq
          rw [heq] at hnothing
          rw [lookup_eq_none_of_topics hnothing] at hlookup
          cases hlookup
        · exact hbacked key offset hlookup
    · exact hbacked

/-- After the offsets of a group could not be deleted, another deletion leaves
none exactly if there were none left. -/
theorem deleteGroup_again {order : TableOrder} {outcome : FlushOutcome}
    (hfailed : (gc.deleteGroup groupId order outcome).2 =
      .error .offsetsNotDeleted) (again : TableOrder) :
    ((gc.deleteGroup groupId order outcome).1.deleteGroup groupId again
        .succeeded).1.offsetStorage.offsets.topics groupId = ∅ ↔
      outcome ≠ .failedBefore ∨ gc.offsetStorage.offsets.topics groupId = ∅ := by
  cases hremove : gc.removeGroup groupId with
  | error error =>
    -- The first call did not get to the offsets.
    have herror : gc.deleteGroup groupId order outcome = (gc, .error error) := by
      simp only [GroupCoordinator.deleteGroup, hremove]
    rw [herror] at hfailed
    have hreason : error = .offsetsNotDeleted := Except.error.inj hfailed
    unfold GroupCoordinator.removeGroup at hremove
    split at hremove
    · cases hremove
      cases hreason
    · split at hremove
      · cases hremove
        cases hreason
      · cases hremove
  | ok removed =>
    obtain ⟨hgone, hstorage⟩ := of_removeGroup hremove
    have hfirst : (gc.deleteGroup groupId order outcome).1 =
        (removed.deleteOffsets groupId order outcome).1 := by
      simp only [GroupCoordinator.deleteGroup, hremove]
    have hsecond : (removed.deleteOffsets groupId order
        outcome).1.removeGroup groupId = .error .groupNotFound := by
      have hfind : (removed.deleteOffsets groupId order
          outcome).1.groups.find? groupId = none := hgone
      simp only [GroupCoordinator.removeGroup, hfind]
    rw [hfirst]
    have hagain : ((removed.deleteOffsets groupId order
        outcome).1.deleteGroup groupId again .succeeded).1 =
          (removed.deleteOffsets groupId order outcome).1 := by
      rw [GroupCoordinator.deleteGroup, hsecond]
    rw [hagain, offsets_deleteOffsets, hstorage]
    by_cases hbefore : outcome = .failedBefore
    · simp [hbefore]
    · rw [if_neg hbefore, topics_deleteGroup]
      simp [hbefore]

/-- In every run in which the offsets of a removed group are deleted before
any offset is acknowledged to a member of its successor, all offsets that were
acknowledged to members of registered groups are returned to whoever asks for
them.  A deletion that failed can be made up for exactly if it left no
offsets. -/
theorem owed_fetched (config : CoordinatorConfig) (storage : FileOffsetStorage) :
    (∀ steps : List DeletionStep,
      AllAllowed step DeletesInTime (start config storage) steps →
      ∀ (req : OffsetFetchRequest) (topic : Bytes) (partition : Int)
        (offset : OffsetAndMetadata),
        (runSteps step (start config storage) steps).owed.lookup
          (req.groupId, topic, partition) = some offset →
        req.Asks topic partition →
        fetchedOf ((runSteps step (start config storage)
          steps).coordinator.handleOffsetFetch req) topic partition =
            some (GroupCoordinator.fetchedOffset offset)) ∧
    ∀ (gc : GroupCoordinator) (groupId : Bytes) (order again : TableOrder)
      (outcome : FlushOutcome),
      (gc.deleteGroup groupId order outcome).2 = .error .offsetsNotDeleted →
      (((gc.deleteGroup groupId order outcome).1.deleteGroup groupId again
          .succeeded).1.offsetStorage.offsets.topics groupId = ∅ ↔
        outcome ≠ .failedBefore ∨ gc.offsetStorage.offsets.topics groupId = ∅) := by
  refine ⟨fun steps hintime req topic partition offset howed hasks => ?_,
    fun gc groupId order again outcome hfailed =>
      deleteGroup_again hfailed again⟩
  have hbacked := hintime.invariant Backed
    (fun run op hbacked hop => hbacked.step hop)
    (fun key offset hnone => by cases hnone)
  exact fetchedOf_handleOffsetFetch hasks (hbacked _ _ howed)

instance decidableDeletesInTime (run : DeletionRun) (op : DeletionStep) :
    Decidable (run.DeletesInTime op) := by
  cases op <;> unfold DeletesInTime <;> infer_instance

/-- The offset that the members commit. -/
def sampleTopics : OrderedMap Bytes (OrderedMap Int OffsetCommitData) :=
  (∅ : OrderedMap Bytes (OrderedMap Int OffsetCommitData)).insert [116]
    ((∅ : OrderedMap Int OffsetCommitData).insert 0 ⟨5, []⟩)

/-- A group is created, left by its only member and removed, and another one
of its name is created. -/
def recreated : List DeletionStep :=
  [.request (GroupCoordinator.joins [97]) rfl,
    .request (.leave ⟨[103], [97]⟩) rfl, .remove [103],
    .request (GroupCoordinator.joins [98]) rfl]

/-- The member of the later group commits an offset. -/
def commits : DeletionStep :=
  .request (.commit ⟨[103], 1, [98], sampleTopics⟩ 0
    ⟨.sorted, fun _ => (.sorted, .succeeded)⟩) rfl

def deletesOffsets : DeletionStep :=
  .deleteOffsets [103] .sorted .succeeded

/-- A run of a coordinator that has stored nothing. -/
def sampleRun (steps : List DeletionStep) : DeletionRun :=
  runSteps step (start ⟨10, 10, 0⟩ ⟨.empty, .missing⟩) steps

/-- The coordinator after the later group has committed and was left. -/
def left : GroupCoordinator :=
  (sampleRun (recreated ++
    [commits, .request (.leave ⟨[103], [98]⟩) rfl])).coordinator

theorem owed_fetched_sample :
    AllAllowed step DeletesInTime (start ⟨10, 10, 0⟩ ⟨.empty, .missing⟩)
        (recreated ++ [deletesOffsets, commits]) ∧
      fetchedOf ((sampleRun (recreated ++
        [deletesOffsets, commits])).coordinator.handleOffsetFetch
          ⟨[103], ∅⟩) [116] 0 = some ⟨5, [], .none⟩ ∧
      (left.deleteGroup [103] .sorted .failedAfter).2 = .error .offsetsNotDeleted ∧
      ((left.deleteGroup [103] .sorted .failedAfter).1.deleteGroup [103]
        .sorted .succeeded).1.offsetStorage.offsets.topics [103] = ∅ := by
  have hintime : AllAllowed step DeletesInTime (start ⟨10, 10, 0⟩ ⟨.empty, .missing⟩)
      (recreated ++ [deletesOffsets, commits]) := by
    decide +kernel
  have hfailed : (left.deleteGroup [103] .sorted .failedAfter).2 =
      .error .offsetsNotDeleted := by
    decide +kernel
  obtain ⟨hfetched, hagain⟩ :=
    owed_fetched ⟨10, 10, 0⟩ ⟨.empty, .missing⟩
  refine ⟨hintime, ?_, hfailed, ?_⟩
  · exact hfetched _ hintime ⟨[103], ∅⟩ [116] 0 ⟨5, [], 0, 0, 0⟩
      (by decide +kernel) (.inl rfl)
  · exact (hagain left [103] .sorted .sorted .failedAfter hfailed).mpr
      (.inl (by decide))

/-- The offset that was acknowledged to a member of the later group is gone
once the offsets of the earlier one are deleted.  The offsets of a group that
were not deleted stay after another deletion. -/
theorem owed_not_fetched :
    ((sampleRun (recreated ++ [commits])).owed.lookup ([103], [116], 0)).map
        OffsetAndMetadata.offset = some 5 ∧
      ((sampleRun (recreated ++ [commits, deletesOffsets])).owed.lookup
        ([103], [116], 0)).map OffsetAndMetadata.offset = some 5 ∧
      fetchedOf ((sampleRun (recreated ++
        [commits, deletesOffsets])).coordinator.handleOffsetFetch
          ⟨[103], ∅⟩) [116] 0 = none ∧
      let first := left.deleteGroup [103] .sorted .failedBefore
      let second := first.1.deleteGroup [103] .sorted .succeeded
      first.2 = .error .offsetsNotDeleted ∧ second.2 = .error .groupNotFound ∧
        (second.1.offsetStorage.offsets.lookup ([103], [116], 0)).map
          OffsetAndMetadata.offset = some 5 := by
  decide +kernel

end DeletionRun

end Streambus.Group
