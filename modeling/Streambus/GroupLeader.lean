/-
The leader of a group.  It is chosen when a group without members gets its
first one and stays the leader for as long as the group has members, also if
it leaves or expires itself; a group keeps a leader among its members exactly
as long as its leader goes last.
-/
import Streambus.GroupCoordinator

namespace Streambus.Group

open Option OrderedMap

namespace GroupMetadata

variable {group : GroupMetadata}

theorem find?_rebalance (group : GroupMetadata) (memberId : Bytes) :
    group.rebalance.members.find? memberId =
      (group.members.find? memberId).map fun member =>
        { member with assignmentBytes := none } :=
  group.members.find?_mapValues _ memberId

variable {memberId : Bytes} {assignments : List MemberAssignmentData}

theorem find?_rebalance_eq_none : group.rebalance.members.find? memberId = none ↔
      group.members.find? memberId = none := by
  rw [find?_rebalance, map_eq_none_iff]

variable {members : OrderedMap Bytes MemberMetadata}

theorem find?_storeAssignments_eq_none :
    (storeAssignments members assignments).find? memberId = none ↔
      members.find? memberId = none := by
  induction assignments generalizing members with
  | nil => rfl
  | cons assignment rest ih =>
    change (storeAssignments (members.modify _ _) rest).find? memberId = none ↔ _
    rw [ih, find?_modify, map_eq_none_iff]

/-- Syncing changes what is known about members, not who they are. -/
theorem find?_sync_eq_none {syncing : Bytes} :
    (group.sync syncing assignments).members.find? memberId = none ↔
      group.members.find? memberId = none := by
  simp only [sync, find?_modify, map_eq_none_iff]
  unfold submit
  split
  · exact find?_storeAssignments_eq_none
  · rfl

theorem find?_beat_eq_none {beating : Bytes} {now : Int} :
    (group.beat beating now).members.find? memberId = none ↔
      group.members.find? memberId = none := by
  simp only [beat, find?_modify, map_eq_none_iff]

/-- A group with members has its leader among them, and a group without
members is empty. -/
structure Led (group : GroupMetadata) : Prop where
  vacant : group.members = ∅ → group.state = .empty
  leader : group.members ≠ ∅ → group.members.find? group.leaderId ≠ none

theorem new_led : new.Led := ⟨fun _ => rfl, fun hne => absurd rfl hne⟩

/-- A change that keeps who the members and the leader are. -/
theorem Led.of_same_members (hled : group.Led) {after : GroupMetadata}
    (hmembers : ∀ memberId, after.members.find? memberId = none ↔
      group.members.find? memberId = none)
    (hleader : after.leaderId = group.leaderId)
    (hstate : group.members = ∅ → after.state = group.state) : after.Led := by
  have hempty : after.members = ∅ ↔ group.members = ∅ := by
    simp only [eq_empty_iff, hmembers]
  constructor
  · intro hnone
    rw [hstate (hempty.mp hnone), hled.vacant (hempty.mp hnone)]
  · intro hsome
    rw [ne_eq, hmembers, hleader]
    exact hled.leader fun hnone => hsome (hempty.mpr hnone)

theorem selectProtocol_eq (group : GroupMetadata)
    (protocols : List ProtocolMetadata) : ∃ name,
      group.selectProtocol protocols = { group with protocolName := name } := by
  unfold selectProtocol
  split
  · exact ⟨_, rfl⟩
  · exact ⟨group.protocolName, rfl⟩

section

variable (hled : group.Led)

include hled

theorem Led.selectProtocol (protocols : List ProtocolMetadata) :
    (group.selectProtocol protocols).Led := by
  obtain ⟨name, hname⟩ := group.selectProtocol_eq protocols
  rw [hname]
  exact ⟨hled.vacant, hled.leader⟩

theorem Led.synced (req : SyncGroupRequest) : (group.synced req).Led := by
  unfold GroupMetadata.synced
  split
  next hcurrent =>
    apply hled.of_same_members (fun _ => find?_sync_eq_none)
    · unfold GroupMetadata.sync submit
      split <;> rfl
    · intro hnone
      exact absurd (by rw [hnone]; rfl) hcurrent.2
  · exact hled

theorem Led.beaten (req : HeartbeatRequest) (now : Int) :
    (group.beaten req now).Led := by
  unfold GroupMetadata.beaten
  split
  · exact hled.of_same_members (fun _ => find?_beat_eq_none) rfl fun _ => rfl
  · exact hled

theorem Led.rebalance (hmembers : group.members ≠ ∅) : group.rebalance.Led :=
  hled.of_same_members (fun _ => find?_rebalance_eq_none) rfl
    fun hnone => absurd hnone hmembers

theorem Led.addMember (memberId : Bytes) (member : MemberMetadata) :
    (group.addMember memberId member).Led := by
  have hinsert := insert_ne_empty group.members memberId member
  have hothers : group.state ≠ .empty → GroupMetadata.Led
      { group with members := group.members.insert memberId member } := by
    intro hstate
    refine ⟨fun hnone => absurd hnone hinsert, fun _ => ?_⟩
    have hfound := hled.leader fun hnone => hstate (hled.vacant hnone)
    rw [find?_insert]
    split
    · exact some_ne_none member
    · exact hfound
  unfold GroupMetadata.addMember
  dsimp only
  split
  · refine ⟨fun hnone => absurd hnone hinsert, fun _ => ?_⟩
    rw [find?_insert_self]
    exact some_ne_none member
  next hstable => exact (hothers (by rw [hstable]; decide)).rebalance hinsert
  next hnotEmpty _ => exact hothers hnotEmpty

end

theorem led_keepMembers
    (hleader : members ≠ ∅ → members.find? group.leaderId ≠ none) :
    (group.keepMembers members).Led := by
  unfold GroupMetadata.keepMembers
  dsimp only
  split
  next hnone => exact ⟨fun _ => rfl, fun hsome => absurd hnone hsome⟩
  next hsome =>
    have hkept : GroupMetadata.Led { group with members := members } :=
      ⟨fun hnone => absurd hnone hsome, hleader⟩
    split
    · exact hkept.rebalance hsome
    · exact hkept

end GroupMetadata

/-- If the operation removes the leader of a group, then nobody is left. -/
def GroupOp.LeaderLast (groupId : Bytes) (group : GroupMetadata) : GroupOp → Prop
  | .leave req => req.groupId = groupId → req.memberId = group.leaderId →
      group.members.erase req.memberId = ∅
  | .expire expired =>
    (group.members.find? group.leaderId).any (expired groupId group.leaderId) →
      group.members.entries.all fun entry => expired groupId entry.1 entry.2
  | _ => True

instance (groupId : Bytes) (group : GroupMetadata) (op : GroupOp) :
    Decidable (op.LeaderLast groupId group) := by
  cases op <;> unfold GroupOp.LeaderLast <;> infer_instance

namespace GroupMetadata

variable {group : GroupMetadata} {groupId : Bytes}

theorem Led.left (hled : group.Led) {req : LeaveGroupRequest}
    (hlast : req.memberId = group.leaderId →
      group.members.erase req.memberId = ∅) : (group.left req).Led := by
  apply led_keepMembers
  intro hsome
  have hother : req.memberId ≠ group.leaderId := fun heq => hsome (hlast heq)
  rw [find?_erase, if_neg hother]
  apply hled.leader
  rintro hnone
  rw [hnone] at hsome
  exact hsome rfl

theorem Led.expireMembers (hled : group.Led) {expired : Bytes → MemberMetadata → Bool}
    (hlast : (group.members.find? group.leaderId).any (expired group.leaderId) →
      group.members.entries.all fun entry => expired entry.1 entry.2) :
    (group.expireMembers expired).Led := by
  unfold GroupMetadata.expireMembers
  split
  · apply led_keepMembers
    intro hsome
    have hmembers : group.members ≠ ∅ := by
      rintro hnone
      rw [hnone] at hsome
      exact hsome rfl
    obtain ⟨leader, hleader⟩ :=
      ne_none_iff_exists'.mp (hled.leader hmembers)
    rw [find?_filter, hleader]
    by_cases hexpired : expired group.leaderId leader = true
    · exfalso
      apply hsome
      rw [eq_empty_iff]
      intro memberId
      rw [find?_filter]
      cases hmember : group.members.find? memberId with
      | none => rfl
      | some member =>
        have hall := hlast (by rw [hleader]; exact hexpired)
        have hentry := List.all_eq_true.mp hall (memberId, member)
          ((mem_entries_iff _ _ _).mpr hmember)
        simp [Option.filter, hentry]
    · simp [Option.filter, hexpired]
  · exact hled

end GroupMetadata

theorem GroupOp.led_onGroup {op : GroupOp} {valid : JoinGroupRequest → Bool}
    {groupId : Bytes} {before : Option GroupMetadata}
    (hbefore : ∀ group, before = some group →
      group.Led ∧ op.LeaderLast groupId group) {after : GroupMetadata}
    (hafter : op.onGroup valid groupId before = some after) : after.Led := by
  have hkept : ∀ {change : GroupMetadata → GroupMetadata},
      (∀ group, before = some group → (change group).Led) →
      before.map change = some after → after.Led := by
    intro change hchange hmap
    obtain ⟨group, hgroup, rfl⟩ := map_eq_some_iff.mp hmap
    exact hchange group hgroup
  have hsame : before = some after → after.Led := fun heq =>
    (hbefore after heq).1
  cases op with
  | join req now =>
    simp only [onGroup] at hafter
    split at hafter
    · rw [← Option.some.inj hafter]
      apply GroupMetadata.Led.selectProtocol
      apply GroupMetadata.Led.addMember
      cases before with
      | none => exact GroupMetadata.new_led
      | some group => exact (hbefore group rfl).1
    · exact hsame hafter
  | sync req =>
    simp only [onGroup] at hafter
    split at hafter
    · exact hkept (fun group hgroup => (hbefore group hgroup).1.synced req) hafter
    · exact hsame hafter
  | heartbeat req now =>
    simp only [onGroup] at hafter
    split at hafter
    · exact hkept (fun group hgroup =>
        (hbefore group hgroup).1.beaten req now) hafter
    · exact hsame hafter
  | leave req =>
    simp only [onGroup] at hafter
    split at hafter
    next htarget =>
      exact hkept (fun group hgroup => (hbefore group hgroup).1.left
        ((hbefore group hgroup).2 htarget)) hafter
    · exact hsame hafter
  | commit req now plan => exact hsame hafter
  | delete deleted order outcome =>
    simp only [onGroup] at hafter
    split at hafter
    · exact hsame (filter_eq_some_iff.mp hafter).1
    · exact hsame hafter
  | expire expired =>
    exact hkept (fun group hgroup => (hbefore group hgroup).1.expireMembers
      (hbefore group hgroup).2) hafter

namespace GroupCoordinator

/-- A coordinator without groups. -/
def start (config : CoordinatorConfig) (storage : FileOffsetStorage) :
    GroupCoordinator :=
  ⟨∅, storage, config⟩

/-- No group loses its leader before its other members. -/
def LeadersLast (gc : GroupCoordinator) (op : GroupOp) : Prop :=
  ∀ entry ∈ gc.groups.entries, op.LeaderLast entry.1 entry.2
deriving Decidable

/-- In every run in which no group loses its leader before its other members,
each group with members has its leader among them. -/
theorem leader_mem_members (config : CoordinatorConfig)
    (storage : FileOffsetStorage) {ops : List GroupOp}
    (hlast : AllAllowed step LeadersLast (start config storage) ops)
    {groupId : Bytes} {group : GroupMetadata}
    (hgroup : (runSteps step (start config storage) ops).groups.find? groupId =
      some group) (hmembers : group.members ≠ ∅) :
    group.members.find? group.leaderId ≠ none := by
  have hled := hlast.invariant
    (fun gc => ∀ groupId group, gc.groups.find? groupId = some group → group.Led)
    (by
      intro gc op hled hop groupId group hgroup
      rw [find?_step] at hgroup
      apply GroupOp.led_onGroup _ hgroup
      intro before hbefore
      exact ⟨hled groupId before hbefore,
        hop (groupId, before) ((mem_entries_iff _ _ _).mpr hbefore)⟩)
    (fun _ _ hnone => by cases hnone)
  exact (hled groupId group hgroup).leader hmembers

/-- A coordinator on empty storage. -/
def sample : GroupCoordinator :=
  start ⟨0, 1000, 1⟩ ⟨.empty, .missing⟩

/-- A member of a group joins. -/
def joins (memberId : Bytes) : GroupOp :=
  .join ⟨[103], 10, memberId, [], []⟩ 0

theorem leader_mem_members_sample : AllAllowed step LeadersLast sample
        [joins [97], joins [98], .leave ⟨[103], [98]⟩] ∧
      ∃ group, (runSteps step sample
          [joins [97], joins [98], .leave ⟨[103], [98]⟩]).groups.find? [103] =
            some group ∧
        group.members ≠ ∅ ∧ group.members.find? group.leaderId ≠ none := by
  have hlast : AllAllowed step LeadersLast sample
      [joins [97], joins [98], .leave ⟨[103], [98]⟩] := by decide +kernel
  obtain ⟨group, hgroup, hmembers⟩ : ∃ group, (runSteps step sample
      [joins [97], joins [98], .leave ⟨[103], [98]⟩]).groups.find? [103] =
        some group ∧ group.members ≠ ∅ :=
    ⟨⟨.preparingRebalance, [], [97], 1,
      (∅ : OrderedMap Bytes MemberMetadata).insert [97]
        ⟨[], .joining, none, [], 0, 10⟩⟩, by decide +kernel, by decide +kernel⟩
  exact ⟨hlast, group, hgroup, hmembers, leader_mem_members _ _ hlast hgroup hmembers⟩

/-- The leader of two members leaves, and no member is the leader. -/
theorem leader_not_mem_members : ∃ group, (runSteps step sample
        [joins [97], joins [98], .leave ⟨[103], [97]⟩]).groups.find? [103] =
          some group ∧
      group.members ≠ ∅ ∧ group.members.find? group.leaderId = none :=
  ⟨⟨.preparingRebalance, [], [97], 1,
    (∅ : OrderedMap Bytes MemberMetadata).insert [98]
      ⟨[], .joining, none, [], 0, 10⟩⟩, by decide +kernel⟩

end GroupCoordinator

end Streambus.Group
