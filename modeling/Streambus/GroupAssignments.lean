/-
The assignments of a generation.  A run of the coordinator keeps on record
what leaders submitted and which assignments were handed out.  If a leader
gives every member an assignment and does not change its mind within a
generation, then all that is handed out in a generation comes from one
submission.
-/
import Streambus.GroupLeader

namespace Streambus.Group

open GroupMetadata List Option OrderedMap

/-- The last assignment that a submission lists for a member. -/
def lastAssignment (assignments : List MemberAssignmentData)
    (memberId : Bytes) : Option MemberAssignmentData :=
  assignments.reverse.find? fun assignment => assignment.memberId = memberId

theorem lastAssignment_cons (assignment : MemberAssignmentData)
    (rest : List MemberAssignmentData) (memberId : Bytes) :
    lastAssignment (assignment :: rest) memberId = (lastAssignment rest memberId).or
        (if assignment.memberId = memberId then some assignment else none) := by
  simp only [lastAssignment, reverse_cons, find?_append]
  by_cases heq : assignment.memberId = memberId
  · simp [heq]
  · simp [heq]

namespace GroupMetadata

variable {group : GroupMetadata} {memberId : Bytes}

theorem assignmentOf_eq_none_of_notMem
    (hmember : group.members.find? memberId = none) :
    group.assignmentOf memberId = none := by
  rw [assignmentOf, hmember, bind_none]

variable {member : MemberMetadata}

/-- A submission gives each member the last assignment it lists for it. -/
theorem bind_storeAssignments (members : OrderedMap Bytes MemberMetadata)
    (assignments : List MemberAssignmentData)
    (hmember : members.find? memberId = some member) :
    ((storeAssignments members assignments).find? memberId).bind
        MemberMetadata.assignmentBytes =
      match lastAssignment assignments memberId with
      | some assignment => assignment.assignment
      | none => member.assignmentBytes := by
  induction assignments generalizing members member with
  | nil => simp [storeAssignments, lastAssignment, hmember]
  | cons assignment rest ih =>
    have hfirst := find?_modify members assignment.memberId
      memberId fun member : MemberMetadata =>
        { member with
          assignmentBytes := assignment.assignment
          state := .stable }
    rw [hmember] at hfirst
    have hrest := ih _ hfirst
    rw [lastAssignment_cons]
    change ((storeAssignments (members.modify _ _) rest).find? memberId).bind
      _ = _
    rw [hrest]
    cases lastAssignment rest memberId with
    | some later => rfl
    | none =>
      by_cases heq : assignment.memberId = memberId
      · simp [heq]
      · simp [heq]

/-- The request comes from the leader and carries assignments. -/
def Submits (group : GroupMetadata) (req : SyncGroupRequest) : Prop :=
  req.memberId = group.leaderId ∧ req.assignments ≠ []
deriving Decidable

variable {req : SyncGroupRequest}

theorem submit_of_submits (hsubmits : group.Submits req) :
    group.submit req.memberId req.assignments =
      { group with
        members := storeAssignments group.members req.assignments
        state := .stable } :=
  if_pos hsubmits

theorem submit_of_not_submits (hsubmits : ¬ group.Submits req) :
    group.submit req.memberId req.assignments = group :=
  if_neg hsubmits

theorem assignmentOf_sync (group : GroupMetadata) (req : SyncGroupRequest)
    (memberId : Bytes) :
    (group.sync req.memberId req.assignments).assignmentOf memberId =
      (group.submit req.memberId req.assignments).assignmentOf memberId := by
  simp only [assignmentOf, sync, find?_modify]
  cases (group.submit req.memberId req.assignments).members.find? memberId with
  | none => rfl
  | some member =>
    split
    · rfl
    · rfl

theorem assignmentOf_sync_of_submits (hsubmits : group.Submits req)
    (hmember : group.members.find? memberId = some member) :
    (group.sync req.memberId req.assignments).assignmentOf memberId =
      match lastAssignment req.assignments memberId with
      | some assignment => assignment.assignment
      | none => group.assignmentOf memberId := by
  have hold : group.assignmentOf memberId = member.assignmentBytes := by
    rw [assignmentOf, hmember, bind_some]
  rw [assignmentOf_sync, submit_of_submits hsubmits, hold]
  exact bind_storeAssignments group.members req.assignments hmember

theorem assignmentOf_sync_of_not_submits (hsubmits : ¬ group.Submits req)
    (memberId : Bytes) :
    (group.sync req.memberId req.assignments).assignmentOf memberId =
      group.assignmentOf memberId := by
  rw [assignmentOf_sync, submit_of_not_submits hsubmits]

theorem sync_state (group : GroupMetadata) (req : SyncGroupRequest) :
    (group.sync req.memberId req.assignments).state =
      if group.Submits req then .stable else group.state := by
  by_cases hsubmits : group.Submits req
  · rw [if_pos hsubmits]
    simp only [sync, submit_of_submits hsubmits]
  · rw [if_neg hsubmits]
    simp only [sync, submit_of_not_submits hsubmits]

theorem sync_generationId (group : GroupMetadata) (req : SyncGroupRequest) :
    (group.sync req.memberId req.assignments).generationId = group.generationId := by
  simp only [sync, submit]
  split
  · rfl
  · rfl

end GroupMetadata

/-- A generation of a group.  A group that was deleted and created again is
another incarnation. -/
structure Generation where
  groupId : Bytes
  incarnation : Nat
  generationId : Int32
deriving DecidableEq

/-- What a leader submitted. -/
structure Submission where
  generation : Generation
  assignments : List MemberAssignmentData
deriving DecidableEq

variable (submission : Submission)

/-- What a submission gives a member. -/
def Submission.gives (memberId : Bytes) : Option Bytes :=
  (lastAssignment submission.assignments memberId).bind
    MemberAssignmentData.assignment

/-- An assignment that a member was answered with. -/
structure Handout where
  generation : Generation
  memberId : Bytes
  assignment : Bytes
deriving DecidableEq

structure GroupRun where
  coordinator : GroupCoordinator
  created : OrderedMap Bytes Nat
  submissions : List Submission
  handouts : List Handout

namespace GroupRun

def start (config : CoordinatorConfig) (storage : FileOffsetStorage) :
    GroupRun :=
  ⟨.start config storage, ∅, [], []⟩

variable (run : GroupRun)

/-- How often a group was created. -/
def incarnation (groupId : Bytes) : Nat :=
  (run.created.find? groupId).getD 0

/-- The generation of a group that is there. -/
def generationOf (groupId : Bytes) (group : GroupMetadata) :
    Generation :=
  ⟨groupId, run.incarnation groupId, group.generationId⟩

/-- The submission of a sync request, if it is one. -/
def submissionOf (req : SyncGroupRequest) : List Submission :=
  match run.coordinator.groups.find? req.groupId with
  | some group =>
    if group.Current req.generationId req.memberId ∧ group.Submits req then
      [⟨run.generationOf req.groupId group, req.assignments⟩]
    else []
  | none => []

/-- The assignment that a sync request is answered with, if it is. -/
def handoutOf (req : SyncGroupRequest) : List Handout :=
  match (run.coordinator.handleSyncGroup req).2 with
  | ⟨.none, some assignment⟩ =>
    [⟨⟨req.groupId, run.incarnation req.groupId, req.generationId⟩,
      req.memberId, assignment⟩]
  | _ => []

def step (op : GroupOp) : GroupRun :=
  let next := { run with coordinator := run.coordinator.step op }
  match op with
  | .join req _ =>
    if run.coordinator.groups.find? req.groupId = none ∧
        run.coordinator.validateJoinRequest req then
      let count := run.incarnation req.groupId + 1
      { next with created := run.created.insert req.groupId count }
    else next
  | .sync req =>
    { next with
      submissions := run.submissions ++ run.submissionOf req
      handouts := run.handouts ++ run.handoutOf req }
  | _ => next

end GroupRun

/-- The place of a generation in the order in which a group goes through
them, from 1 on. -/
def generationRank (generationId : Int32) : Nat :=
  (generationId - 1).toBitVec.toNat

theorem generationRank_succ {generationId : Int32} (hwrapped : generationId ≠ 0) :
    generationRank (generationId + 1) = generationRank generationId + 1 := by
  have hne : generationId.toBitVec ≠ 0 := fun hzero =>
    hwrapped (Int32.toBitVec_inj.mp hzero)
  have hone : (1 : Int32).toBitVec = 1 := rfl
  simp only [generationRank, Int32.toBitVec_sub, Int32.toBitVec_add, hone]
  bv_omega

/-- Everything handed out in a generation comes from the submission. -/
def Submission.Covers (handouts : List Handout) :
    Prop :=
  ∀ handout ∈ handouts, handout.generation = submission.generation →
    submission.gives handout.memberId = some handout.assignment

/-- How a group fits what is on record.  Before the leader submits, nobody has
an assignment and nothing was handed out in the generation; then everybody has
what the submission gives. -/
structure Recorded (run : GroupRun) (groupId : Bytes)
    (group : GroupMetadata) : Prop where
  idle : group.state = .empty → group.members = ∅
  pending : group.state ≠ .stable → ∀ memberId, group.assignmentOf memberId = none
  fresh : group.state ≠ .stable → group.state ≠ .empty → ∀ handout ∈ run.handouts,
      handout.generation ≠ run.generationOf groupId group
  settled : group.state = .stable → ∃ submission ∈ run.submissions,
    submission.generation = run.generationOf groupId group ∧
    submission.Covers run.handouts ∧
    ∀ memberId, group.members.find? memberId ≠ none →
      group.assignmentOf memberId ≠ none ∧
      group.assignmentOf memberId = submission.gives memberId
  ranked : ∀ handout ∈ run.handouts, handout.generation.groupId = groupId →
    handout.generation.incarnation = run.incarnation groupId →
    generationRank handout.generation.generationId ≤ generationRank group.generationId

namespace Recorded

variable {run : GroupRun} {groupId : Bytes} {group after : GroupMetadata}

/-- Members come and go before the leader submits. -/
theorem of_pending (hrecorded : Recorded run groupId group)
    (hstate : group.state ≠ .stable)
    (hgeneration : after.generationId = group.generationId)
    (hsame : after.state = group.state)
    (hidle : after.state = .empty → after.members = ∅)
    (hnothing : ∀ memberId, after.assignmentOf memberId = none) :
    Recorded run groupId after where
  idle := hidle
  pending _ := hnothing
  fresh _ hnotEmpty := by
    rw [GroupRun.generationOf, hgeneration]
    exact hrecorded.fresh hstate (hsame ▸ hnotEmpty)
  settled hstable := absurd (hsame ▸ hstable) hstate
  ranked := by
    rw [hgeneration]
    exact hrecorded.ranked

/-- What does not change who the members are and what they have. -/
theorem of_same (hrecorded : Recorded run groupId group)
    (hgeneration : after.generationId = group.generationId)
    (hstate : after.state = group.state)
    (hmembers : ∀ memberId, after.members.find? memberId = none ↔
      group.members.find? memberId = none)
    (hassignments : ∀ memberId,
      after.assignmentOf memberId = group.assignmentOf memberId) :
    Recorded run groupId after where
  idle hempty := by
    have hnone := hrecorded.idle (hstate ▸ hempty)
    rw [eq_empty_iff] at hnone ⊢
    simpa only [hmembers] using hnone
  pending hnotStable := by
    simp only [hassignments]
    exact hrecorded.pending (hstate ▸ hnotStable)
  fresh hnotStable hnotEmpty := by
    rw [GroupRun.generationOf, hgeneration]
    exact hrecorded.fresh (hstate ▸ hnotStable) (hstate ▸ hnotEmpty)
  settled hstable := by
    simp only [GroupRun.generationOf, hgeneration, ne_eq, hmembers, hassignments]
    exact hrecorded.settled (hstate ▸ hstable)
  ranked := by
    rw [hgeneration]
    exact hrecorded.ranked

/-- A generation in which nothing was handed out begins. -/
theorem of_new (hstate : after.state = .preparingRebalance)
    (hnothing : ∀ memberId, after.assignmentOf memberId = none)
    (hranked : ∀ handout ∈ run.handouts, handout.generation.groupId = groupId →
      handout.generation.incarnation = run.incarnation groupId →
      generationRank handout.generation.generationId <
        generationRank after.generationId) :
    Recorded run groupId after where
  idle hempty := by
    rw [hstate] at hempty
    cases hempty
  pending _ := hnothing
  fresh _ _ handout hhandout heq := by
    have hlt := hranked handout hhandout (by rw [heq]; rfl) (by rw [heq]; rfl)
    rw [heq] at hlt
    exact lt_irrefl _ hlt
  settled hstable := by
    rw [hstate] at hstable
    cases hstable
  ranked handout hhandout hgroup hincarnation :=
    (hranked handout hhandout hgroup hincarnation).le

theorem of_next (hrecorded : Recorded run groupId group)
    (hwrapped : group.generationId ≠ 0)
    (hgeneration : after.generationId = group.generationId + 1)
    (hstate : after.state = .preparingRebalance)
    (hnothing : ∀ memberId, after.assignmentOf memberId = none) :
    Recorded run groupId after := by
  apply of_new hstate hnothing
  intro handout hhandout hgroup hincarnation
  rw [hgeneration, generationRank_succ hwrapped]
  exact Nat.lt_succ_of_le (hrecorded.ranked handout hhandout hgroup hincarnation)

theorem assignmentOf_rebalance (group : GroupMetadata) (memberId : Bytes) :
    group.rebalance.assignmentOf memberId = none := by
  rw [GroupMetadata.assignmentOf, find?_rebalance]
  cases group.members.find? memberId with
  | none | some member => rfl

variable {member : MemberMetadata}

theorem assignmentOf_insert {memberId : Bytes}
    (hmember : member.assignmentBytes = none)
    (hnothing : ∀ probe, group.assignmentOf probe = none) (probe : Bytes) :
    ((group.members.insert memberId member).find? probe).bind
      MemberMetadata.assignmentBytes = none := by
  rw [find?_insert]
  split
  · exact hmember
  · exact hnothing probe

section

variable (hrecorded : Recorded run groupId group)

include hrecorded

theorem addMember (memberId : Bytes) (hmember : member.assignmentBytes = none)
    (hwrapped : group.generationId = 0 →
      group.state ≠ .empty ∧ group.state ≠ .stable) :
    Recorded run groupId (group.addMember memberId member) := by
  cases hstate : group.state with
  | empty =>
    have hnotStable : group.state ≠ .stable := by rw [hstate]; decide
    have hadded : group.addMember memberId member =
        { group with
          members := group.members.insert memberId member
          state := .preparingRebalance
          leaderId := memberId
          generationId := group.generationId + 1 } := by
      simp only [GroupMetadata.addMember, hstate]
    rw [hadded]
    exact hrecorded.of_next (fun hzero => (hwrapped hzero).1 hstate) rfl rfl
      (assignmentOf_insert hmember (hrecorded.pending hnotStable))
  | stable =>
    have hadded : group.addMember memberId member = GroupMetadata.rebalance
        { group with members := group.members.insert memberId member } := by
      simp only [GroupMetadata.addMember, hstate]
    rw [hadded]
    exact hrecorded.of_next (fun hzero => (hwrapped hzero).2 hstate) rfl rfl
      (assignmentOf_rebalance _)
  | _ =>
    have hnotStable : group.state ≠ .stable := by rw [hstate]; decide
    have hadded : group.addMember memberId member =
        { group with members := group.members.insert memberId member } := by
      simp only [GroupMetadata.addMember, hstate]
    rw [hadded]
    refine hrecorded.of_pending hnotStable rfl rfl (fun hempty => ?_)
      (assignmentOf_insert hmember (hrecorded.pending hnotStable))
    have hidle : group.state = .empty := hempty
    rw [hstate] at hidle
    cases hidle

theorem joined (req : JoinGroupRequest) (now : Int)
    (hwrapped : group.generationId = 0 →
      group.state ≠ .empty ∧ group.state ≠ .stable) :
    Recorded run groupId (group.joined req now) := by
  unfold GroupMetadata.joined
  obtain ⟨name, hname⟩ := (group.addMember (GroupCoordinator.memberIdOf req now)
    (GroupCoordinator.newMember req now)).selectProtocol_eq req.protocols
  rw [hname]
  have hadded : Recorded run groupId (group.addMember
      (GroupCoordinator.memberIdOf req now)
      (GroupCoordinator.newMember req now)) :=
    hrecorded.addMember _ rfl hwrapped
  exact hadded.of_same rfl rfl (fun _ => Iff.rfl) (fun _ => rfl)

theorem keepMembers {members : OrderedMap Bytes MemberMetadata}
    (hsubset : ∀ memberId member, members.find? memberId = some member →
      group.members.find? memberId = some member)
    (hwrapped : group.generationId = 0 → members ≠ ∅ → group.state ≠ .stable) :
    Recorded run groupId (group.keepMembers members) := by
  by_cases hnone : members = ∅
  · have hkept : group.keepMembers members =
        { group with members := members, state := .empty } := by
      simp only [GroupMetadata.keepMembers, hnone, ↓reduceIte]
    rw [hkept]
    exact {
      idle := fun _ => hnone
      pending := fun _ memberId =>
        assignmentOf_eq_none_of_notMem (by simp [hnone])
      fresh := fun _ hnotEmpty => absurd rfl hnotEmpty
      settled := fun hstable => by cases hstable
      ranked := hrecorded.ranked }
  · by_cases hstable : group.state = .stable
    · have hkept : group.keepMembers members = GroupMetadata.rebalance
          { group with members := members } := by
        simp only [GroupMetadata.keepMembers, hnone, hstable, ↓reduceIte]
      rw [hkept]
      exact hrecorded.of_next (fun hzero => hwrapped hzero hnone hstable) rfl
        rfl (assignmentOf_rebalance _)
    · have hkept : group.keepMembers members = { group with members := members } := by
        simp only [GroupMetadata.keepMembers, hnone, hstable, ↓reduceIte]
      rw [hkept]
      refine hrecorded.of_pending hstable rfl rfl (fun hempty => ?_)
        (fun memberId => ?_)
      · have hidle := hrecorded.idle hempty
        rw [eq_empty_iff] at hidle ⊢
        intro memberId
        cases hmember : members.find? memberId with
        | none => rfl
        | some member =>
          have hgroup := hsubset memberId member hmember
          rw [hidle memberId] at hgroup
          cases hgroup
      · have hpending := hrecorded.pending hstable memberId
        unfold GroupMetadata.assignmentOf at hpending ⊢
        cases hmember : members.find? memberId with
        | none => rfl
        | some member =>
          rw [hsubset memberId member hmember] at hpending
          exact hpending

theorem left (req : LeaveGroupRequest) (hwrapped : group.generationId = 0 →
      group.members.erase req.memberId ≠ ∅ → group.state ≠ .stable) :
    Recorded run groupId (group.left req) := by
  apply hrecorded.keepMembers _ hwrapped
  intro memberId member hmember
  rw [find?_erase] at hmember
  split at hmember
  · cases hmember
  · exact hmember

theorem expireMembers (expired : Bytes → MemberMetadata → Bool)
    (hwrapped : group.generationId = 0 →
      (group.members.entries.any fun entry => expired entry.1 entry.2) = true →
      (group.members.filter fun memberId member =>
        !expired memberId member) ≠ ∅ → group.state ≠ .stable) :
    Recorded run groupId (group.expireMembers expired) := by
  unfold GroupMetadata.expireMembers
  split
  next hsome =>
    apply hrecorded.keepMembers _ fun hzero => hwrapped hzero hsome
    intro memberId member hmember
    rw [OrderedMap.find?_filter] at hmember
    exact (filter_eq_some_iff.mp hmember).1
  · exact hrecorded

theorem beaten (req : HeartbeatRequest) (now : Int) :
    Recorded run groupId (group.beaten req now) := by
  unfold GroupMetadata.beaten
  split
  · refine hrecorded.of_same rfl rfl (fun _ => find?_beat_eq_none) fun memberId => ?_
    simp only [GroupMetadata.assignmentOf, GroupMetadata.beat, find?_modify]
    cases group.members.find? memberId with
    | none => rfl
    | some member =>
      split
      · rfl
      · rfl
  · exact hrecorded

theorem append_other (submissions : List Submission) {handouts : List Handout}
    (hother : ∀ handout ∈ handouts, handout.generation.groupId ≠ groupId)
    (coordinator : GroupCoordinator) :
    Recorded { run with
      coordinator := coordinator
      submissions := run.submissions ++ submissions
      handouts := run.handouts ++ handouts } groupId group where
  idle := hrecorded.idle
  pending := hrecorded.pending
  fresh hnotStable hnotEmpty handout hhandout heq := by
    rcases mem_append.mp hhandout with hold | hnew
    · exact hrecorded.fresh hnotStable hnotEmpty handout hold heq
    · exact hother handout hnew (by rw [heq]; rfl)
  settled hstable := by
    obtain ⟨submission, hmem, hgeneration, hcovers, hmembers⟩ :=
      hrecorded.settled hstable
    refine ⟨submission, mem_append_left _ hmem, hgeneration, ?_, hmembers⟩
    intro handout hhandout heq
    rcases mem_append.mp hhandout with hold | hnew
    · exact hcovers handout hold heq
    · refine absurd ?_ (hother handout hnew)
      rw [heq, hgeneration]
      rfl
  ranked handout hhandout hgroup hincarnation := by
    rcases mem_append.mp hhandout with hold | hnew
    · exact hrecorded.ranked handout hold hgroup hincarnation
    · exact absurd hgroup (hother handout hnew)

end

end Recorded

/-- A leader that submits gives every member an assignment, and none another
one than it has in the generation. -/
def GroupMetadata.SubmitsOnce (group : GroupMetadata)
    (req : SyncGroupRequest) : Prop :=
  if group.state = .stable then
    ∀ entry ∈ group.members.entries,
      ∀ assignment ∈ lastAssignment req.assignments entry.1,
        assignment.assignment = entry.2.assignmentBytes
  else
    ∀ entry ∈ group.members.entries, (lastAssignment req.assignments entry.1).bind
        MemberAssignmentData.assignment ≠ none
deriving Decidable

namespace Recorded

variable {run : GroupRun} {groupId : Bytes} {group : GroupMetadata}

/-- After a member synced, a stable group has one submission behind it. -/
theorem exists_submission {req : SyncGroupRequest}
    (hrecorded : Recorded run req.groupId group)
    (hcurrent : group.Current req.generationId req.memberId)
    (honce : group.Submits req → group.SubmitsOnce req)
    (hstable : (group.sync req.memberId req.assignments).state = .stable)
    (hgroup : run.coordinator.groups.find? req.groupId = some group) :
    ∃ submission ∈ run.submissions ++ run.submissionOf req,
      submission.generation = run.generationOf req.groupId group ∧
      submission.Covers run.handouts ∧
      ∀ memberId, group.members.find? memberId ≠ none →
        (group.sync req.memberId req.assignments).assignmentOf memberId ≠ none ∧
        (group.sync req.memberId req.assignments).assignmentOf memberId =
          submission.gives memberId := by
  by_cases hsubmits : group.Submits req
  · have honce := honce hsubmits
    by_cases hbefore : group.state = .stable
    · -- The submission repeats what the members have.
      obtain ⟨submission, hmem, hgeneration, hcovers, hmembers⟩ :=
        hrecorded.settled hbefore
      refine ⟨submission, mem_append_left _ hmem, hgeneration, hcovers,
        fun memberId hmember => ?_⟩
      have hsame : (group.sync req.memberId req.assignments).assignmentOf
          memberId = group.assignmentOf memberId := by
        obtain ⟨member, hfound⟩ := ne_none_iff_exists'.mp hmember
        rw [assignmentOf_sync_of_submits hsubmits hfound]
        unfold GroupMetadata.SubmitsOnce at honce
        rw [if_pos hbefore] at honce
        have hentry := honce (memberId, member) ((mem_entries_iff _ _ _).mpr hfound)
        cases hlast : lastAssignment req.assignments memberId with
        | none => rfl
        | some assignment =>
          rw [GroupMetadata.assignmentOf, hfound]
          exact hentry assignment hlast
      rw [hsame]
      exact hmembers memberId hmember
    · -- Nothing was handed out in the generation before.
      have hnotEmpty : group.state ≠ .empty := by
        intro hempty
        apply hcurrent.2
        rw [hrecorded.idle hempty]
        rfl
      refine ⟨⟨run.generationOf req.groupId group, req.assignments⟩, ?_, rfl,
        ?_, fun memberId hmember => ?_⟩
      · apply mem_append_right
        simp [GroupRun.submissionOf, hgroup, hcurrent, hsubmits]
      · intro handout hhandout heq
        exact absurd heq (hrecorded.fresh hbefore hnotEmpty handout hhandout)
      · obtain ⟨member, hfound⟩ := ne_none_iff_exists'.mp hmember
        rw [assignmentOf_sync_of_submits hsubmits hfound]
        unfold GroupMetadata.SubmitsOnce at honce
        rw [if_neg hbefore] at honce
        have hgiven := honce (memberId, member) ((mem_entries_iff _ _ _).mpr hfound)
        unfold Submission.gives
        cases hlast : lastAssignment req.assignments memberId with
        | none => simp [hlast] at hgiven
        | some assignment =>
          rw [hlast] at hgiven
          exact ⟨hgiven, rfl⟩
  · rw [sync_state, if_neg hsubmits] at hstable
    obtain ⟨submission, hmem, hgeneration, hcovers, hmembers⟩ :=
      hrecorded.settled hstable
    refine ⟨submission, mem_append_left _ hmem, hgeneration, hcovers, ?_⟩
    simp only [assignmentOf_sync_of_not_submits hsubmits]
    exact hmembers

end Recorded

namespace GroupRun

variable {run : GroupRun} {groupId : Bytes} {group : GroupMetadata}
  {req : SyncGroupRequest}

theorem handoutOf_of_stale
    (hstale : run.coordinator.Stale req.groupId req.generationId req.memberId) :
    run.handoutOf req = [] := by
  obtain ⟨code, hcode, hsync⟩ :=
    GroupCoordinator.handleSyncGroup_of_stale hstale
  rw [handoutOf, hsync]
  cases code <;> rfl

theorem handoutOf_of_current
    (hgroup : run.coordinator.groups.find? req.groupId = some group)
    (hcurrent : group.Current req.generationId req.memberId) :
    run.handoutOf req = (((group.sync req.memberId req.assignments).assignmentOf
        req.memberId).map (Handout.mk (run.generationOf req.groupId group)
          req.memberId)).toList := by
  have hgeneration : run.generationOf req.groupId group =
      ⟨req.groupId, run.incarnation req.groupId, req.generationId⟩ := by
    rw [generationOf, hcurrent.1]
  rw [handoutOf, GroupCoordinator.handleSyncGroup_of_current hgroup hcurrent,
    hgeneration]
  cases (group.sync req.memberId req.assignments).assignmentOf req.memberId with
  | none | some assignment => rfl

theorem submissionOf_of_stale
    (hstale : run.coordinator.Stale req.groupId req.generationId req.memberId) :
    run.submissionOf req = [] := by
  unfold submissionOf
  split
  next group hgroup =>
    rw [if_neg]
    rintro ⟨hcurrent, _⟩
    exact hstale group hgroup hcurrent
  · rfl

/-- Whatever a sync request hands out is of its group. -/
theorem groupId_of_mem_handoutOf {handout : Handout}
    (hmem : handout ∈ run.handoutOf req) :
    handout.generation.groupId = req.groupId ∧
      handout.generation.incarnation = run.incarnation req.groupId := by
  unfold handoutOf at hmem
  split at hmem
  · rw [mem_singleton.mp hmem]
    exact ⟨rfl, rfl⟩
  · cases hmem

end GroupRun

/-- The group of a member that synced fits what is then on record. -/
theorem Recorded.synced {run : GroupRun} {group : GroupMetadata}
    {req : SyncGroupRequest} (hrecorded : Recorded run req.groupId group)
    (hgroup : run.coordinator.groups.find? req.groupId = some group)
    (hcurrent : group.Current req.generationId req.memberId)
    (honce : group.Submits req → group.SubmitsOnce req) :
    Recorded (run.step (.sync req)) req.groupId
      (group.sync req.memberId req.assignments) := by
  have hgeneration : (run.step (.sync req)).generationOf req.groupId
      (group.sync req.memberId req.assignments) =
        run.generationOf req.groupId group := by
    rw [GroupRun.generationOf, sync_generationId]
    rfl
  have hhandouts := GroupRun.handoutOf_of_current hgroup hcurrent
  have hunsettled : (group.sync req.memberId req.assignments).state ≠ .stable →
      ¬ group.Submits req ∧ group.state ≠ .stable := by
    intro hnotStable
    rw [sync_state] at hnotStable
    by_cases hsubmits : group.Submits req
    · rw [if_pos hsubmits] at hnotStable
      exact absurd rfl hnotStable
    · rw [if_neg hsubmits] at hnotStable
      exact ⟨hsubmits, hnotStable⟩
  have hnothing : (group.sync req.memberId req.assignments).state ≠ .stable →
      ∀ memberId, (group.sync req.memberId req.assignments).assignmentOf
        memberId = none := by
    intro hnotStable memberId
    obtain ⟨hsubmits, hbefore⟩ := hunsettled hnotStable
    rw [assignmentOf_sync_of_not_submits hsubmits]
    exact hrecorded.pending hbefore memberId
  refine ⟨fun hempty => ?_, hnothing, fun hnotStable hnotEmpty => ?_,
    fun hstable => ?_, fun handout hhandout hid hincarnation => ?_⟩
  · have hnotStable : (group.sync req.memberId req.assignments).state ≠ .stable := by
      rw [hempty]
      decide
    obtain ⟨hsubmits, _⟩ := hunsettled hnotStable
    rw [sync_state, if_neg hsubmits] at hempty
    refine absurd ?_ hcurrent.2
    rw [hrecorded.idle hempty]
    rfl
  · obtain ⟨hsubmits, hbefore⟩ := hunsettled hnotStable
    rw [sync_state, if_neg hsubmits] at hnotEmpty
    rw [hnothing hnotStable] at hhandouts
    intro handout hhandout
    rw [hgeneration]
    change handout ∈ run.handouts ++ run.handoutOf req at hhandout
    rw [hhandouts, map_none, toList_none, append_nil] at hhandout
    exact hrecorded.fresh hbefore hnotEmpty handout hhandout
  · obtain ⟨submission, hmem, hof, hcovers, hmembers⟩ :=
      hrecorded.exists_submission hcurrent honce hstable hgroup
    refine ⟨submission, hmem, ?_, ?_, fun memberId hmember => ?_⟩
    · rw [hgeneration]
      exact hof
    · intro handout hhandout heq
      rcases mem_append.mp hhandout with hold | hnew
      · exact hcovers handout hold heq
      · rw [hhandouts] at hnew
        obtain ⟨_, hgiven⟩ := hmembers req.memberId hcurrent.2
        simp only [mem_toList, map_eq_some_iff] at hnew
        obtain ⟨assignment, hassignment, rfl⟩ := hnew
        rw [← hgiven, hassignment]
    · exact hmembers memberId fun hnone => hmember (find?_sync_eq_none.mpr hnone)
  · rw [sync_generationId]
    rcases mem_append.mp hhandout with hold | hnew
    · exact hrecorded.ranked handout hold hid hincarnation
    · rw [hhandouts] at hnew
      simp only [mem_toList, map_eq_some_iff] at hnew
      obtain ⟨assignment, _, rfl⟩ := hnew
      exact le_refl _

end Streambus.Group
