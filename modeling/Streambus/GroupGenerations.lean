/-
Runs of the group coordinator in which leaders submit once per generation.
Every member of a stable group has an assignment, and whatever was handed out
in a generation of a group comes from one submission of its leader.
-/
import Streambus.GroupAssignments

namespace Streambus.Group

open GroupCoordinator Option OrderedMap

/-- The operation begins a generation of the group: a member joins while the
group is empty or stable, or leaves or expires while it is stable and others
stay. -/
def GroupOp.Begins (valid : JoinGroupRequest → Bool) (groupId : Bytes)
    (group : GroupMetadata) : GroupOp → Prop
  | .join req _ => req.groupId = groupId ∧ valid req = true ∧
      (group.state = .empty ∨ group.state = .stable)
  | .leave req => req.groupId = groupId ∧
      group.members.erase req.memberId ≠ ∅ ∧ group.state = .stable
  | .expire expired =>
    (group.members.entries.any fun entry =>
        expired groupId entry.1 entry.2) = true ∧
      (group.members.filter fun memberId member =>
        !expired groupId memberId member) ≠ ∅ ∧ group.state = .stable
  | _ => False

instance (valid : JoinGroupRequest → Bool) (groupId : Bytes)
    (group : GroupMetadata) (op : GroupOp) :
    Decidable (op.Begins valid groupId group) := by
  induction op using GroupOp.casesOn <;> unfold GroupOp.Begins <;>
    infer_instance

/-- No generation of the group begins after its numbers have all been used,
and a leader submits once. -/
def GroupOp.OncePerGeneration (valid : JoinGroupRequest → Bool)
    (groupId : Bytes) (group : GroupMetadata) (op : GroupOp) : Prop :=
  (group.generationId = 0 → ¬ op.Begins valid groupId group) ∧
  match op with
  | .sync req => req.groupId = groupId →
      group.Current req.generationId req.memberId → group.Submits req →
        group.SubmitsOnce req
  | _ => True

instance (valid : JoinGroupRequest → Bool) (groupId : Bytes)
    (group : GroupMetadata) (op : GroupOp) :
    Decidable (op.OncePerGeneration valid groupId group) := by
  induction op using GroupOp.casesOn <;> unfold GroupOp.OncePerGeneration <;>
    infer_instance

variable {group : GroupMetadata} {groupId : Bytes} {run : GroupRun}

/-- What is on record about a group is all that counts. -/
theorem Recorded.of_record {after : GroupRun} (hrecorded : Recorded run groupId group)
    (hsubmissions : after.submissions = run.submissions)
    (hhandouts : after.handouts = run.handouts)
    (hincarnation : after.incarnation groupId = run.incarnation groupId) :
    Recorded after groupId group := by
  obtain ⟨hidle, hpending, hfresh, hsettled, hranked⟩ := hrecorded
  constructor
  · exact hidle
  · exact hpending
  · simpa only [GroupRun.generationOf, hhandouts, hincarnation] using hfresh
  · simpa only [GroupRun.generationOf, hhandouts, hsubmissions, hincarnation]
      using hsettled
  · simpa only [hhandouts, hincarnation] using hranked

theorem Recorded.onGroup {after : GroupMetadata}
    {valid : JoinGroupRequest → Bool} {op : GroupOp}
    (hrecorded : Recorded run groupId group)
    (honce : op.OncePerGeneration valid groupId group)
    (hnotSync : ∀ req, op ≠ .sync req)
    (hafter : op.onGroup valid groupId (some group) = some after) :
    Recorded run groupId after := by
  have hwrapped := honce.1
  have hsame : some group = some after → Recorded run groupId after :=
    fun heq => Option.some.inj heq ▸ hrecorded
  cases op with
  | join req now =>
    simp only [GroupOp.onGroup] at hafter
    split at hafter
    next hvalid =>
      rw [← Option.some.inj hafter]
      exact hrecorded.joined req now fun hzero => not_or.mp fun hstate =>
        hwrapped hzero ⟨hvalid.1, hvalid.2, hstate⟩
    · exact hsame hafter
  | sync req => exact absurd rfl (hnotSync req)
  | heartbeat req now =>
    simp only [GroupOp.onGroup] at hafter
    split at hafter
    · rw [← Option.some.inj hafter]
      exact hrecorded.beaten req now
    · exact hsame hafter
  | leave req =>
    simp only [GroupOp.onGroup] at hafter
    split at hafter
    next hid =>
      rw [← Option.some.inj hafter]
      exact hrecorded.left req fun hzero hsome hstable =>
        hwrapped hzero ⟨hid, hsome, hstable⟩
    · exact hsame hafter
  | commit req now plan => exact hsame hafter
  | delete deleted order outcome =>
    simp only [GroupOp.onGroup] at hafter
    split at hafter
    · exact hsame (filter_eq_some_iff.mp hafter).1
    · exact hsame hafter
  | expire expired =>
    have heq : group.expireMembers (expired groupId) = after :=
      Option.some.inj hafter
    rw [← heq]
    exact hrecorded.expireMembers _ fun hzero hany hsome hstable =>
      hwrapped hzero ⟨hany, hsome, hstable⟩

namespace GroupRun

variable {run : GroupRun}

/-- Every group of the run fits what is on record, and everything handed out
in a generation comes from one submission. -/
structure Consistent (run : GroupRun) : Prop where
  recorded : ∀ groupId group, run.coordinator.groups.find? groupId = some group →
      Recorded run groupId group
  counted : ∀ handout ∈ run.handouts,
    handout.generation.incarnation ≤ run.incarnation handout.generation.groupId
  single : ∀ handout ∈ run.handouts, ∃ submission ∈ run.submissions,
    submission.generation = handout.generation ∧ submission.Covers run.handouts

theorem start_consistent (config : CoordinatorConfig)
    (storage : FileOffsetStorage) : (start config storage).Consistent where
  recorded _ _ hnone := by cases hnone
  counted _ hnone := by cases hnone
  single _ hnone := by cases hnone

/-- The operation is so for every group. -/
def OncePerGeneration (run : GroupRun) (op : GroupOp) : Prop :=
  ∀ entry ∈ run.coordinator.groups.entries,
    op.OncePerGeneration run.coordinator.validateJoinRequest entry.1 entry.2
deriving Decidable

theorem coordinator_step (run : GroupRun) (op : GroupOp) :
    (run.step op).coordinator = run.coordinator.step op := by
  cases op with
  | join req now =>
    simp only [step]
    split
    · rfl
    · rfl
  | _ => rfl

variable {group : GroupMetadata} {req : JoinGroupRequest}

/-- What was handed out in the generation of a group that just synced comes
from one submission. -/
theorem exists_submission_of_current {req : SyncGroupRequest}
    (hsynced : Recorded (run.step (.sync req)) req.groupId
      (group.sync req.memberId req.assignments))
    (hcurrent : group.Current req.generationId req.memberId) {handout : Handout}
    (hhandout : handout ∈ (run.step (.sync req)).handouts)
    (hnow : handout.generation = run.generationOf req.groupId group) :
    ∃ submission ∈ (run.step (.sync req)).submissions,
      submission.generation = handout.generation ∧
        submission.Covers (run.step (.sync req)).handouts := by
  have hgeneration : (run.step (.sync req)).generationOf req.groupId
      (group.sync req.memberId req.assignments) = handout.generation := by
    rw [hnow, generationOf, GroupMetadata.sync_generationId]
    rfl
  by_cases hstable : (group.sync req.memberId req.assignments).state = .stable
  · obtain ⟨submission, hmem, hof, hcovers, _⟩ := hsynced.settled hstable
    exact ⟨submission, hmem, hof.trans hgeneration, hcovers⟩
  · have hnotEmpty : (group.sync req.memberId req.assignments).state ≠ .empty := by
      intro hempty
      have hgone : (group.sync req.memberId req.assignments).members.find?
          req.memberId = none := by
        rw [hsynced.idle hempty]
        rfl
      exact hcurrent.2 (GroupMetadata.find?_sync_eq_none.mp hgone)
    exact absurd hgeneration.symm (hsynced.fresh hstable hnotEmpty handout hhandout)

theorem Consistent.sync (hconsistent : run.Consistent)
    (req : SyncGroupRequest) (honce : run.OncePerGeneration (.sync req)) :
    (run.step (.sync req)).Consistent := by
  have hcounted : ∀ handout ∈ (run.step (.sync req)).handouts,
      handout.generation.incarnation ≤
        run.incarnation handout.generation.groupId := by
    intro handout hhandout
    rcases List.mem_append.mp hhandout with hold | hnew
    · exact hconsistent.counted handout hold
    · obtain ⟨hid, hincarnation⟩ := groupId_of_mem_handoutOf hnew
      rw [hid, hincarnation]
  by_cases hstale : run.coordinator.Stale req.groupId req.generationId req.memberId
  · -- Nothing is put on record.
    obtain ⟨code, _, hsync⟩ :=
      handleSyncGroup_of_stale hstale
    have hrun : run.step (.sync req) = run := by
      simp only [step, GroupCoordinator.step, hsync,
        submissionOf_of_stale hstale, handoutOf_of_stale hstale,
        List.append_nil]
    rw [hrun]
    exact hconsistent
  · simp only [GroupCoordinator.Stale, not_forall, not_not] at hstale
    obtain ⟨group, hgroup, hcurrent⟩ := hstale
    have honce := (honce (req.groupId, group)
      ((mem_entries_iff _ _ _).mpr hgroup)).2 rfl hcurrent
    have hsynced := (hconsistent.recorded req.groupId group hgroup).synced
      hgroup hcurrent honce
    have hcoordinator : (run.step (.sync req)).coordinator =
        run.coordinator.setGroup req.groupId
          (group.sync req.memberId req.assignments) := by
      rw [coordinator_step, GroupCoordinator.step,
        handleSyncGroup_of_current hgroup hcurrent]
    refine ⟨fun groupId found hfound => ?_, hcounted, fun handout hhandout => ?_⟩
    · rw [hcoordinator, find?_setGroup] at hfound
      split at hfound
      next htarget =>
        rw [← htarget, ← Option.some.inj hfound]
        exact hsynced
      next htarget =>
        refine (hconsistent.recorded groupId found hfound).append_other _
          (fun handout hnew => ?_) _
        rw [(groupId_of_mem_handoutOf hnew).1]
        exact htarget
    · have hnew : ∀ handout ∈ run.handoutOf req,
          handout.generation = run.generationOf req.groupId group := by
        intro handout hmem
        rw [handoutOf_of_current hgroup hcurrent] at hmem
        simp only [mem_toList, map_eq_some_iff] at hmem
        obtain ⟨assignment, _, rfl⟩ := hmem
        rfl
      by_cases hnow : handout.generation = run.generationOf req.groupId group
      · exact exists_submission_of_current hsynced hcurrent hhandout hnow
      · rcases List.mem_append.mp hhandout with hold | hfresh
        · obtain ⟨submission, hmem, hof, hcovers⟩ :=
            hconsistent.single handout hold
          refine ⟨submission, List.mem_append_left _ hmem, hof, ?_⟩
          intro other hother heq
          rcases List.mem_append.mp hother with hbefore | hafter
          · exact hcovers other hbefore heq
          · rw [hof] at heq
            exact absurd (heq.symm.trans (hnew other hafter)) hnow
        · exact absurd (hnew handout hfresh) hnow

variable {op : GroupOp} {groupId : Bytes}

theorem step_other (hnotSync : ∀ req, op ≠ .sync req) :
    (run.step op).submissions = run.submissions ∧
      (run.step op).handouts = run.handouts := by
  cases op with
  | join req now =>
    simp only [step]
    split
    · exact ⟨rfl, rfl⟩
    · exact ⟨rfl, rfl⟩
  | sync req => exact absurd rfl (hnotSync req)
  | _ => exact ⟨rfl, rfl⟩

theorem onGroup_none {valid : JoinGroupRequest → Bool} {after : GroupMetadata}
    (hafter : op.onGroup valid groupId none = some after) :
    ∃ req now, op = .join req now ∧ req.groupId = groupId ∧
      valid req = true ∧ after = GroupMetadata.joined .new req now := by
  cases op with
  | join req now =>
    simp only [GroupOp.onGroup] at hafter
    split at hafter
    next hjoin =>
      exact ⟨req, now, rfl, hjoin.1, hjoin.2, (Option.some.inj hafter).symm⟩
    · cases hafter
  | sync req | heartbeat req now | leave req | commit req now plan
  | delete deleted order outcome | expire expired =>
    simp [GroupOp.onGroup] at hafter

theorem incarnation_step_of_some
    (hgroup : run.coordinator.groups.find? groupId = some group)
    (op : GroupOp) : (run.step op).incarnation groupId = run.incarnation groupId := by
  cases op with
  | join req now =>
    simp only [step]
    split
    next hcreates =>
      have hother : req.groupId ≠ groupId := by
        rintro rfl
        rw [hgroup] at hcreates
        cases hcreates.1
      simp only [incarnation, find?_insert, hother, ↓reduceIte]
    · rfl
  | _ => rfl

theorem incarnation_le_step (run : GroupRun) (op : GroupOp) (groupId : Bytes) :
    run.incarnation groupId ≤ (run.step op).incarnation groupId := by
  cases op with
  | join req now =>
    simp only [step]
    split
    · simp only [incarnation, find?_insert]
      split
      next heq =>
        rw [heq]
        exact Nat.le_succ _
      · exact le_refl _
    · exact le_refl _
  | _ => exact le_refl _

theorem recorded_created {now : Int} (hnew : ∀ handout ∈ run.handouts,
      handout.generation.groupId = groupId →
        handout.generation.incarnation ≠ run.incarnation groupId) :
    Recorded run groupId (GroupMetadata.joined .new req now) := by
  obtain ⟨name, hname⟩ := (GroupMetadata.new.addMember
    (GroupCoordinator.memberIdOf req now)
    (GroupCoordinator.newMember req now)).selectProtocol_eq req.protocols
  unfold GroupMetadata.joined
  rw [hname]
  apply Recorded.of_new rfl
  · have hnothing : ∀ probe, GroupMetadata.new.assignmentOf probe = none :=
      fun _ => rfl
    exact Recorded.assignmentOf_insert rfl hnothing
  · intro handout hhandout hgroup hincarnation
    exact absurd hincarnation (hnew handout hhandout hgroup)

/-- Any other operation leaves the record as it is. -/
theorem Consistent.other (hconsistent : run.Consistent)
    (hnotSync : ∀ req, op ≠ .sync req) (honce : run.OncePerGeneration op) :
    (run.step op).Consistent := by
  obtain ⟨hsubmissions, hhandouts⟩ := run.step_other hnotSync
  refine ⟨fun groupId after hafter => ?_, fun handout hhandout => ?_,
    fun handout hhandout => ?_⟩
  · rw [coordinator_step, find?_step] at hafter
    cases hgroup : run.coordinator.groups.find? groupId with
    | some group =>
      rw [hgroup] at hafter
      have hkept := (hconsistent.recorded groupId group hgroup).onGroup
        (honce (groupId, group) ((mem_entries_iff _ _ _).mpr hgroup)) hnotSync hafter
      exact hkept.of_record hsubmissions hhandouts
        (incarnation_step_of_some hgroup op)
    | none =>
      rw [hgroup] at hafter
      obtain ⟨req, now, rfl, rfl, hvalid, rfl⟩ := onGroup_none hafter
      apply recorded_created
      intro handout hhandout hid
      rw [hhandouts] at hhandout
      have hcounted := hconsistent.counted handout hhandout
      rw [hid] at hcounted
      simp only [step, hgroup, hvalid, and_self, ↓reduceIte, incarnation,
        find?_insert_self, getD_some] at hcounted ⊢
      omega
  · rw [hhandouts] at hhandout
    exact (hconsistent.counted handout hhandout).trans (run.incarnation_le_step op _)
  · rw [hhandouts, hsubmissions]
    rw [hhandouts] at hhandout
    exact hconsistent.single handout hhandout

theorem Consistent.step (hconsistent : run.Consistent)
    (honce : run.OncePerGeneration op) : (run.step op).Consistent := by
  by_cases hsync : ∃ req, op = .sync req
  · obtain ⟨req, rfl⟩ := hsync
    exact hconsistent.sync req honce
  · exact hconsistent.other (fun req heq => hsync ⟨req, heq⟩) honce

end GroupRun

/-- A submission gives no partition to two members. -/
def Submission.Exclusive {π : Type} (partitionsOf : Bytes → Set π)
    (submission : Submission) : Prop :=
  ∀ left right given other, left ≠ right → submission.gives left = some given →
    submission.gives right = some other →
    ∀ partition ∈ partitionsOf given, partition ∉ partitionsOf other

/-- In every run of this kind, all members of a stable group have an assignment,
all that was handed out in a generation comes from one submission, and if no
submission gives a partition to two members then no two members were handed
the same partition in a generation. -/
theorem GroupRun.assignments_of_oncePerGeneration (config : CoordinatorConfig)
    (storage : FileOffsetStorage) {ops : List GroupOp}
    (honce : AllAllowed step OncePerGeneration (start config storage) ops) :
    let run := runSteps step (start config storage) ops
    (∀ groupId group, run.coordinator.groups.find? groupId = some group →
      group.state = .stable → ∀ memberId member,
        group.members.find? memberId = some member → member.assignmentBytes ≠ none) ∧
    (∀ handout ∈ run.handouts, ∃ submission ∈ run.submissions,
      submission.generation = handout.generation ∧
      ∀ other ∈ run.handouts, other.generation = handout.generation →
        submission.gives other.memberId = some other.assignment) ∧
    ∀ (π : Type) (partitionsOf : Bytes → Set π),
      (∀ submission ∈ run.submissions, submission.Exclusive partitionsOf) →
      ∀ handout ∈ run.handouts, ∀ other ∈ run.handouts,
        other.generation = handout.generation →
        other.memberId ≠ handout.memberId →
          ∀ partition ∈ partitionsOf other.assignment,
            partition ∉ partitionsOf handout.assignment := by
  have hconsistent := honce.invariant Consistent
    (fun run op hrun => hrun.step) (start_consistent config storage)
  intro run
  have hsingle : ∀ handout ∈ run.handouts, ∃ submission ∈ run.submissions,
      submission.generation = handout.generation ∧
      ∀ other ∈ run.handouts, other.generation = handout.generation →
        submission.gives other.memberId = some other.assignment := by
    intro handout hhandout
    obtain ⟨submission, hmem, hof, hcovers⟩ :=
      hconsistent.single handout hhandout
    refine ⟨submission, hmem, hof, fun other hother heq => ?_⟩
    exact hcovers other hother (heq.trans hof.symm)
  refine ⟨fun groupId group hgroup hstable memberId member hmember => ?_,
    hsingle, fun π partitionsOf hexclusive handout hhandout other hother heq
      hne => ?_⟩
  · obtain ⟨_, _, _, _, hmembers⟩ :=
      (hconsistent.recorded groupId group hgroup).settled hstable
    have hgiven := (hmembers memberId (by rw [hmember]; exact some_ne_none member)).1
    rwa [GroupMetadata.assignmentOf, hmember, bind_some] at hgiven
  · obtain ⟨submission, hmem, _, hgives⟩ := hsingle handout hhandout
    exact hexclusive submission hmem other.memberId handout.memberId _ _ hne
      (hgives other hother heq) (hgives handout hhandout rfl)

namespace GroupRun

/-- A run on empty storage. -/
def sample : GroupRun := start ⟨0, 1000, 1⟩ ⟨.empty, .missing⟩

/-- A member syncs in the first generation. -/
def syncs (memberId : Bytes) (assignments : List MemberAssignmentData) :
    GroupOp :=
  .sync ⟨[103], 1, memberId, assignments⟩

/-- The leader gives each of two members an assignment. -/
def sampleOps : List GroupOp :=
  [GroupCoordinator.joins [97], GroupCoordinator.joins [98],
    syncs [97] [⟨[97], some [1]⟩, ⟨[98], some [2]⟩], syncs [98] []]

theorem assignments_of_oncePerGeneration_sample :
    AllAllowed step OncePerGeneration sample sampleOps ∧
      ∃ handout ∈ (runSteps step sample sampleOps).handouts,
        ∃ submission ∈ (runSteps step sample sampleOps).submissions,
          submission.gives handout.memberId = some handout.assignment := by
  have honce : AllAllowed step OncePerGeneration sample sampleOps := by
    decide +kernel
  obtain ⟨_, hsingle, _⟩ := assignments_of_oncePerGeneration ⟨0, 1000, 1⟩
    ⟨.empty, .missing⟩ honce
  have hhandout : ⟨⟨[103], 1, 1⟩, [98], [2]⟩ ∈
      (runSteps step sample sampleOps).handouts := by decide +kernel
  obtain ⟨submission, hmem, _, hgives⟩ := hsingle _ hhandout
  exact ⟨honce, _, hhandout, submission, hmem, hgives _ hhandout rfl⟩

/-- A leader that forgets a member leaves it without an assignment in a stable
group, and one that submits twice in a generation hands the same partition to
two members. -/
theorem not_assignments_twice : (∃ group, (runSteps step sample
        [GroupCoordinator.joins [97], GroupCoordinator.joins [98],
          syncs [97] [⟨[97], some [1]⟩]]).coordinator.groups.find? [103] =
            some group ∧
      group.state = .stable ∧ group.members.find? [98] ≠ none ∧
      group.assignmentOf [98] = none) ∧
    (⟨⟨[103], 1, 1⟩, [97], [1]⟩ ∈ (runSteps step sample
        [GroupCoordinator.joins [97], GroupCoordinator.joins [98],
          syncs [97] [⟨[97], some [1]⟩, ⟨[98], some [2]⟩],
          syncs [97] [⟨[97], some [2]⟩, ⟨[98], some [1]⟩],
          syncs [98] []]).handouts ∧
      ⟨⟨[103], 1, 1⟩, [98], [1]⟩ ∈ (runSteps step sample
        [GroupCoordinator.joins [97], GroupCoordinator.joins [98],
          syncs [97] [⟨[97], some [1]⟩, ⟨[98], some [2]⟩],
          syncs [97] [⟨[97], some [2]⟩, ⟨[98], some [1]⟩],
          syncs [98] []]).handouts) := by
  refine ⟨⟨⟨.stable, [], [97], 1, ((∅ : OrderedMap Bytes MemberMetadata).insert
      [97] ⟨[], .stable, some [1], [], 0, 10⟩).insert [98]
        ⟨[], .joining, none, [], 0, 10⟩⟩, ?_⟩, ?_⟩
  · decide +kernel
  · decide +kernel

end GroupRun

end Streambus.Group
