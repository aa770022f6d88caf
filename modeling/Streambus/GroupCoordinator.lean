/-
The coordinator of consumer groups: members join and leave, the leader of a
group submits the assignments of a generation, members fetch theirs, and
offsets are committed to the offset storage.  Members whose heartbeats stop
are removed from time to time.  Every operation acts on each group by itself.
-/
import Streambus.GuardedRun
import Streambus.OffsetStorage

namespace Streambus.Group

inductive GroupState where
  | empty
  | preparingRebalance
  | completingRebalance
  | stable
  | dead
deriving DecidableEq

inductive MemberState where
  | joining
  | awaitingSync
  | stable
  | leaving
deriving DecidableEq

/-- A member of a group.  It has no assignment until the leader gave it
one. -/
structure MemberMetadata where
  clientId : Bytes
  state : MemberState
  assignmentBytes : Option Bytes
  protocolMetadata : Bytes
  lastHeartbeat : Int
  sessionTimeoutMs : Int
deriving DecidableEq

structure GroupMetadata where
  state : GroupState
  protocolName : Bytes
  leaderId : Bytes
  generationId : Int32
  members : OrderedMap Bytes MemberMetadata
deriving DecidableEq

inductive ErrorCode where
  | none
  | unknown
  | illegalGeneration
  | unknownMemberId
  | rebalanceInProgress
  | invalidSessionTimeout
  | groupIdNotFound
deriving DecidableEq

structure CoordinatorConfig where
  minSessionTimeoutMs : Int
  maxSessionTimeoutMs : Int
  offsetRetentionMs : Int64

structure GroupCoordinator where
  groups : OrderedMap Bytes GroupMetadata
  offsetStorage : FileOffsetStorage
  config : CoordinatorConfig

structure ProtocolMetadata where
  name : Bytes
  metadata : Bytes

structure JoinGroupRequest where
  groupId : Bytes
  sessionTimeoutMs : Int
  memberId : Bytes
  clientId : Bytes
  protocols : List ProtocolMetadata

structure JoinGroupMember where
  memberId : Bytes
  metadata : Bytes

structure JoinGroupResponse where
  errorCode : ErrorCode
  generationId : Int32
  protocolName : Bytes
  memberId : Bytes
  leaderId : Bytes
  members : List JoinGroupMember

structure MemberAssignmentData where
  memberId : Bytes
  assignment : Option Bytes
deriving DecidableEq

structure SyncGroupRequest where
  groupId : Bytes
  generationId : Int32
  memberId : Bytes
  assignments : List MemberAssignmentData

structure SyncGroupResponse where
  errorCode : ErrorCode
  assignment : Option Bytes
deriving DecidableEq

structure HeartbeatRequest where
  groupId : Bytes
  generationId : Int32
  memberId : Bytes

structure LeaveGroupRequest where
  groupId : Bytes
  memberId : Bytes

structure OffsetCommitData where
  offset : Int
  metadata : Bytes

structure OffsetCommitRequest where
  groupId : Bytes
  generationId : Int32
  memberId : Bytes
  offsets : OrderedMap Bytes (OrderedMap Int OffsetCommitData)

/-- Errors by topic and partition. -/
abbrev OffsetCommitResponse := OrderedMap Bytes (OrderedMap Int ErrorCode)

structure OffsetFetchRequest where
  groupId : Bytes
  topics : OrderedMap Bytes (List Int)

structure OffsetFetchData where
  offset : Int
  metadata : Bytes
  errorCode : ErrorCode
deriving DecidableEq

abbrev OffsetFetchResponse :=
  OrderedMap Bytes (OrderedMap Int OffsetFetchData)

namespace GroupMetadata

/-- A group without members. -/
def new : GroupMetadata := ⟨.empty, [], [], 0, ∅⟩

variable (group : GroupMetadata)

def clearAssignments : GroupMetadata :=
  let members := group.members.mapValues fun _ member =>
    { member with assignmentBytes := none }
  { group with members := members }

/-- A new generation without assignments begins. -/
def rebalance : GroupMetadata :=
  clearAssignments { group with
    state := .preparingRebalance
    generationId := group.generationId + 1 }

/-- Add or replace a member. -/
def addMember (memberId : Bytes) (member : MemberMetadata) : GroupMetadata :=
  let group := { group with members := group.members.insert memberId member }
  match group.state with
  | .empty =>
    { group with
      state := .preparingRebalance
      leaderId := memberId
      generationId := group.generationId + 1 }
  | .stable => group.rebalance
  | _ => group

/-- The protocol of the first member that has one is kept. -/
def selectProtocol (protocols : List ProtocolMetadata) : GroupMetadata :=
  match group.protocolName, protocols with
  | [], protocol :: _ => { group with protocolName := protocol.name }
  | _, _ => group

/-- Keep some members, and rebalance a stable group that has members left. -/
def keepMembers (members : OrderedMap Bytes MemberMetadata) : GroupMetadata :=
  let group := { group with members := members }
  if members = ∅ then { group with state := .empty }
  else if group.state = .stable then group.rebalance
  else group

/-- Remove the members that a test finds expired. -/
def expireMembers (expired : Bytes → MemberMetadata → Bool) : GroupMetadata :=
  if group.members.entries.any fun entry => expired entry.1 entry.2 then
    group.keepMembers (group.members.filter fun memberId member =>
      !expired memberId member)
  else group

/-- Write the submitted assignments of the members. -/
def storeAssignments (members : OrderedMap Bytes MemberMetadata)
    (assignments : List MemberAssignmentData) :
    OrderedMap Bytes MemberMetadata :=
  assignments.foldl (fun members assignment =>
    members.modify assignment.memberId fun member =>
      { member with
        assignmentBytes := assignment.assignment
        state := .stable }) members

/-- The assignments that come with a member's request are those of the group
if the member is the leader. -/
def submit (memberId : Bytes) (assignments : List MemberAssignmentData) :
    GroupMetadata :=
  if memberId = group.leaderId ∧ assignments ≠ [] then
    { group with
      members := storeAssignments group.members assignments
      state := .stable }
  else group

/-- A member of the current generation syncs. -/
def sync (memberId : Bytes) (assignments : List MemberAssignmentData) :
    GroupMetadata :=
  let group := group.submit memberId assignments
  let members := group.members.modify memberId fun member =>
    { member with state := .stable }
  { group with members := members }

/-- A member is alive. -/
def beat (memberId : Bytes) (now : Int) :
    GroupMetadata :=
  let members := group.members.modify memberId fun member =>
    { member with lastHeartbeat := now }
  { group with members := members }

/-- The assignment of a member. -/
def assignmentOf (memberId : Bytes) : Option Bytes :=
  (group.members.find? memberId).bind MemberMetadata.assignmentBytes

end GroupMetadata

namespace GroupCoordinator

variable (gc : GroupCoordinator)

def setGroup (groupId : Bytes) (group : GroupMetadata) : GroupCoordinator :=
  { gc with groups := gc.groups.insert groupId group }

def validateJoinRequest (req : JoinGroupRequest) :
    Bool :=
  gc.config.minSessionTimeoutMs ≤ req.sessionTimeoutMs &&
    req.sessionTimeoutMs ≤ gc.config.maxSessionTimeoutMs

def getOrCreateGroup (groupId : Bytes) :
    GroupMetadata :=
  (gc.groups.find? groupId).getD .new

def generateMemberId (clientId : Bytes) (now : Int) : Bytes :=
  clientId ++ [45] ++ formatInt now

/-- The ID of a joining member. -/
def memberIdOf (req : JoinGroupRequest) (now : Int) : Bytes :=
  match req.memberId with
  | [] => generateMemberId req.clientId now
  | _ => req.memberId

def newMember (req : JoinGroupRequest) (now : Int) : MemberMetadata where
  clientId := req.clientId
  state := .joining
  assignmentBytes := none
  protocolMetadata := (req.protocols.head?.map ProtocolMetadata.metadata).getD []
  lastHeartbeat := now
  sessionTimeoutMs := req.sessionTimeoutMs

def handleJoinGroup (req : JoinGroupRequest) (now : Int) :
    GroupCoordinator × JoinGroupResponse :=
  if gc.validateJoinRequest req then
    let memberId := memberIdOf req now
    let group := ((gc.getOrCreateGroup req.groupId).addMember memberId
      (newMember req now)).selectProtocol req.protocols
    let members :=
      if memberId = group.leaderId then
        group.members.entries.map fun entry =>
          ⟨entry.1, entry.2.protocolMetadata⟩
      else []
    (gc.setGroup req.groupId group,
      ⟨.none, group.generationId, group.protocolName, memberId, group.leaderId,
        members⟩)
  else (gc, ⟨.invalidSessionTimeout, 0, [], [], [], []⟩)

def handleSyncGroup (req : SyncGroupRequest) : GroupCoordinator × SyncGroupResponse :=
  match gc.groups.find? req.groupId with
  | none => (gc, ⟨.groupIdNotFound, none⟩)
  | some group =>
    if group.generationId ≠ req.generationId then
      (gc, ⟨.illegalGeneration, none⟩)
    else
      match group.members.find? req.memberId with
      | none => (gc, ⟨.unknownMemberId, none⟩)
      | some _ =>
        let group := group.sync req.memberId req.assignments
        let gc := gc.setGroup req.groupId group
        match group.assignmentOf req.memberId with
        | none => (gc, ⟨.rebalanceInProgress, none⟩)
        | some assignment => (gc, ⟨.none, some assignment⟩)

def handleHeartbeat (req : HeartbeatRequest) (now : Int) :
    GroupCoordinator × ErrorCode :=
  match gc.groups.find? req.groupId with
  | none => (gc, .groupIdNotFound)
  | some group =>
    if group.generationId ≠ req.generationId then (gc, .illegalGeneration)
    else
      match group.members.find? req.memberId with
      | none => (gc, .unknownMemberId)
      | some _ =>
        if group.state = .preparingRebalance then
          (gc, .rebalanceInProgress)
        else (gc.setGroup req.groupId (group.beat req.memberId now), .none)

def handleLeaveGroup (req : LeaveGroupRequest) : GroupCoordinator × ErrorCode :=
  match gc.groups.find? req.groupId with
  | none => (gc, .groupIdNotFound)
  | some group =>
    let group := group.keepMembers (group.members.erase req.memberId)
    (gc.setGroup req.groupId group, .none)

/-- Remove the members that a test finds expired from every group. -/
def removeExpired (expired : Bytes → Bytes → MemberMetadata → Bool) :
    GroupCoordinator :=
  let groups := gc.groups.mapValues fun groupId group =>
    group.expireMembers (expired groupId)
  { gc with groups := groups }

def checkExpiredMembers (now : Int) :
    GroupCoordinator :=
  gc.removeExpired fun _ _ member =>
    member.sessionTimeoutMs * 1000000 < now - member.lastHeartbeat

/-- How the offsets of a commit are visited, and how each write ends. -/
structure CommitPlan where
  order : VisitOrder ((Bytes × Int) × OffsetCommitData)
  flush : Bytes × Int → TableOrder × FlushOutcome

end GroupCoordinator

/-- The committed partitions. -/
def OffsetCommitRequest.entries (req : OffsetCommitRequest) :
    List ((Bytes × Int) × OffsetCommitData) :=
  req.offsets.entries.flatMap fun topic =>
    topic.2.entries.map fun entry => ((topic.1, entry.1), entry.2)

namespace GroupCoordinator

variable (gc : GroupCoordinator)

/-- The offset that is stored for a committed partition. -/
def commitOffset (now : Int) (data : OffsetCommitData) : OffsetAndMetadata where
  offset := data.offset
  metadata := data.metadata
  commitTime := now
  expireTime := now + (gc.config.offsetRetentionMs * 1000000).toInt
  leaderEpoch := 0

/-- The same error for every committed partition. -/
def commitErrors (req : OffsetCommitRequest)
    (code : Bytes × Int → ErrorCode) : OffsetCommitResponse :=
  req.offsets.mapValues fun topic partitions =>
    partitions.mapValues fun partition _ => code (topic, partition)

/-- Store the offsets of a commit one after the other. -/
def storeOffsets (req : OffsetCommitRequest) (now : Int) (plan : CommitPlan) :
    FileOffsetStorage :=
  (plan.order.visit req.entries).foldl (fun storage entry =>
    (storage.storeOffset (req.groupId, entry.1) (gc.commitOffset now entry.2)
      (plan.flush entry.1).1 (plan.flush entry.1).2).1) gc.offsetStorage

def handleOffsetCommit (req : OffsetCommitRequest) (now : Int) (plan : CommitPlan) :
    GroupCoordinator × OffsetCommitResponse :=
  let stored := ({ gc with offsetStorage := gc.storeOffsets req now plan },
    commitErrors req fun partition =>
      if (plan.flush partition).2.fails then .unknown else .none)
  if 0 ≤ req.generationId then
    match gc.groups.find? req.groupId with
    | none => (gc, commitErrors req fun _ => .groupIdNotFound)
    | some group =>
      match group.members.find? req.memberId with
      | none => (gc, commitErrors req fun _ => .unknownMemberId)
      | some _ => stored
  else stored

def fetchedOffset (offset : OffsetAndMetadata) : OffsetFetchData :=
  ⟨offset.offset, offset.metadata, .none⟩

def handleOffsetFetch (req : OffsetFetchRequest) :
    OffsetFetchResponse :=
  if req.topics = ∅ then
    (gc.offsetStorage.fetchOffsets req.groupId).mapValues fun _ partitions =>
      partitions.mapValues fun _ offset => fetchedOffset offset
  else
    req.topics.mapValues fun topic partitions =>
      OrderedMap.ofEntries (partitions.map fun partition =>
        (partition,
          match gc.offsetStorage.fetchOffset (req.groupId, topic, partition) with
          | none => ⟨-1, [], .none⟩
          | some offset => fetchedOffset offset))

inductive DeleteError where
  | groupNotFound
  | groupNotEmpty (memberCount : Nat)
  | offsetsNotDeleted
deriving DecidableEq

/-- The first step of a deletion, under the coordinator's lock. -/
def removeGroup (groupId : Bytes) : Except DeleteError GroupCoordinator :=
  match gc.groups.find? groupId with
  | none => .error .groupNotFound
  | some group =>
    if 0 < group.members.entries.length then
      .error (.groupNotEmpty group.members.entries.length)
    else .ok { gc with groups := gc.groups.erase groupId }

/-- The second step of a deletion, under the storage's lock. -/
def deleteOffsets (groupId : Bytes) (order : TableOrder) (outcome : FlushOutcome) :
    GroupCoordinator × Except DeleteError Unit :=
  let (storage, failed) := gc.offsetStorage.deleteOffsets groupId order outcome
  ({ gc with offsetStorage := storage },
    if failed then .error .offsetsNotDeleted else .ok ())

def deleteGroup (groupId : Bytes) (order : TableOrder)
    (outcome : FlushOutcome) : GroupCoordinator × Except DeleteError Unit :=
  match gc.removeGroup groupId with
  | .error error => (gc, .error error)
  | .ok removed => removed.deleteOffsets groupId order outcome

end GroupCoordinator

/-- An operation on the coordinator.  Members expire by any test. -/
inductive GroupOp where
  | join (req : JoinGroupRequest) (now : Int)
  | sync (req : SyncGroupRequest)
  | heartbeat (req : HeartbeatRequest) (now : Int)
  | leave (req : LeaveGroupRequest)
  | commit (req : OffsetCommitRequest) (now : Int)
      (plan : GroupCoordinator.CommitPlan)
  | delete (groupId : Bytes) (order : TableOrder) (outcome : FlushOutcome)
  | expire (expired : Bytes → Bytes → MemberMetadata → Bool)

namespace GroupCoordinator

def step (gc : GroupCoordinator) : GroupOp → GroupCoordinator
  | .join req now => (gc.handleJoinGroup req now).1
  | .sync req => (gc.handleSyncGroup req).1
  | .heartbeat req now => (gc.handleHeartbeat req now).1
  | .leave req => (gc.handleLeaveGroup req).1
  | .commit req now plan => (gc.handleOffsetCommit req now plan).1
  | .delete groupId order outcome => (gc.deleteGroup groupId order outcome).1
  | .expire expired => gc.removeExpired expired

end GroupCoordinator

namespace GroupMetadata

variable (group : GroupMetadata)

/-- The group after a member joined. -/
def joined (req : JoinGroupRequest) (now : Int) :
    GroupMetadata :=
  (group.addMember (GroupCoordinator.memberIdOf req now)
    (GroupCoordinator.newMember req now)).selectProtocol req.protocols

/-- A request of a current member in the current generation. -/
def Current (generationId : Int32) (memberId : Bytes) : Prop :=
  group.generationId = generationId ∧ group.members.find? memberId ≠ none
deriving Decidable

def synced (req : SyncGroupRequest) : GroupMetadata :=
  if group.Current req.generationId req.memberId then
    group.sync req.memberId req.assignments
  else group

/-- The group after a heartbeat. -/
def beaten (req : HeartbeatRequest) (now : Int) :
    GroupMetadata :=
  if group.Current req.generationId req.memberId ∧
      group.state ≠ .preparingRebalance then
    group.beat req.memberId now
  else group

def left (req : LeaveGroupRequest) : GroupMetadata :=
  group.keepMembers (group.members.erase req.memberId)

end GroupMetadata

/-- What an operation makes of a group. -/
def GroupOp.onGroup (valid : JoinGroupRequest → Bool) (groupId : Bytes)
    (group : Option GroupMetadata) : GroupOp → Option GroupMetadata
  | .join req now =>
    if req.groupId = groupId ∧ valid req then
      some ((group.getD .new).joined req now)
    else group
  | .sync req =>
    if req.groupId = groupId then group.map (·.synced req) else group
  | .heartbeat req now =>
    if req.groupId = groupId then group.map (·.beaten req now) else group
  | .leave req =>
    if req.groupId = groupId then group.map (·.left req) else group
  | .commit _ _ _ => group
  | .delete deleted _ _ =>
    if deleted = groupId then
      group.filter fun group => group.members ≠ ∅
    else group
  | .expire expired => group.map (·.expireMembers (expired groupId))

/-- The operation names the group or looks at all; a commit changes none. -/
def GroupOp.concerns (groupId : Bytes) : GroupOp → Bool
  | .join req _ => req.groupId = groupId
  | .sync req => req.groupId = groupId
  | .heartbeat req _ => req.groupId = groupId
  | .leave req => req.groupId = groupId
  | .commit .. => false
  | .delete deleted .. => deleted = groupId
  | .expire _ => true

namespace GroupCoordinator

variable (gc : GroupCoordinator) (groupId : Bytes)

theorem find?_setGroup (target : Bytes) (group : GroupMetadata) :
    (gc.setGroup target group).groups.find? groupId =
      if target = groupId then some group else gc.groups.find? groupId := by
  rw [setGroup, OrderedMap.find?_insert]
  split
  · rfl
  · rfl

theorem find?_handleJoinGroup (req : JoinGroupRequest) (now : Int) :
    (gc.handleJoinGroup req now).1.groups.find? groupId =
      (GroupOp.join req now).onGroup gc.validateJoinRequest groupId
        (gc.groups.find? groupId) := by
  simp only [handleJoinGroup, GroupOp.onGroup]
  cases gc.validateJoinRequest req with
  | false => simp
  | true =>
    simp only [↓reduceIte, find?_setGroup, and_true]
    split
    next heq =>
      subst heq
      rfl
    · rfl

variable {gc groupId} {generationId : Int32} {memberId : Bytes}
  {group : GroupMetadata}

/-- A request of no current member in the current generation of a group. -/
def Stale (gc : GroupCoordinator) (groupId : Bytes) (generationId : Int32)
    (memberId : Bytes) : Prop :=
  ∀ group, gc.groups.find? groupId = some group →
    ¬ group.Current generationId memberId

theorem Stale.find?_eq_none (hstale : gc.Stale groupId generationId memberId)
    (hgroup : gc.groups.find? groupId = some group)
    (hgeneration : group.generationId = generationId) :
    group.members.find? memberId = none :=
  not_not.mp fun hsome => hstale group hgroup ⟨hgeneration, hsome⟩

variable {req : SyncGroupRequest}

theorem handleSyncGroup_of_current (hgroup : gc.groups.find? req.groupId = some group)
    (hcurrent : group.Current req.generationId req.memberId) :
    gc.handleSyncGroup req =
      (gc.setGroup req.groupId (group.sync req.memberId req.assignments),
        match (group.sync req.memberId req.assignments).assignmentOf req.memberId with
        | none => ⟨.rebalanceInProgress, none⟩
        | some assignment => ⟨.none, some assignment⟩) := by
  obtain ⟨hgeneration, hsome⟩ := hcurrent
  obtain ⟨member, hmember⟩ := Option.ne_none_iff_exists'.mp hsome
  simp only [handleSyncGroup, hgroup, hgeneration, hmember, ne_eq,
    not_true_eq_false, ↓reduceIte]
  cases (group.sync req.memberId req.assignments).assignmentOf req.memberId with
  | none | some assignment => rfl

theorem handleSyncGroup_of_stale
    (hstale : gc.Stale req.groupId req.generationId req.memberId) :
    ∃ code ≠ ErrorCode.none, gc.handleSyncGroup req = (gc, ⟨code, none⟩) := by
  unfold handleSyncGroup
  split
  · exact ⟨_, by decide, rfl⟩
  next group hgroup =>
    split
    · exact ⟨_, by decide, rfl⟩
    next hgeneration =>
      rw [hstale.find?_eq_none hgroup (not_not.mp hgeneration)]
      exact ⟨_, by decide, rfl⟩

theorem handleHeartbeat_of_current {req : HeartbeatRequest} {now : Int}
    (hgroup : gc.groups.find? req.groupId = some group)
    (hcurrent : group.Current req.generationId req.memberId) :
    (gc.handleHeartbeat req now).1 =
      if group.state = .preparingRebalance then gc
      else gc.setGroup req.groupId (group.beaten req now) := by
  have hcurrent' := hcurrent
  obtain ⟨hgeneration, hsome⟩ := hcurrent
  obtain ⟨member, hmember⟩ := Option.ne_none_iff_exists'.mp hsome
  simp only [handleHeartbeat, hgroup, hgeneration, hmember, ne_eq,
    not_true_eq_false, ↓reduceIte]
  split
  · rfl
  next hstate =>
    simp only [GroupMetadata.beaten, hcurrent', hstate, ne_eq,
      not_false_eq_true, and_self, ↓reduceIte]

theorem handleHeartbeat_of_stale {req : HeartbeatRequest} (now : Int)
    (hstale : gc.Stale req.groupId req.generationId req.memberId) :
    ∃ code ≠ ErrorCode.none, gc.handleHeartbeat req now = (gc, code) := by
  unfold handleHeartbeat
  split
  · exact ⟨_, by decide, rfl⟩
  next group hgroup =>
    split
    · exact ⟨_, by decide, rfl⟩
    next hgeneration =>
      rw [hstale.find?_eq_none hgroup (not_not.mp hgeneration)]
      exact ⟨_, by decide, rfl⟩

variable (gc groupId)

theorem find?_handleSyncGroup (req : SyncGroupRequest) :
    (gc.handleSyncGroup req).1.groups.find? groupId =
      (GroupOp.sync req).onGroup gc.validateJoinRequest groupId
        (gc.groups.find? groupId) := by
  by_cases hstale : gc.Stale req.groupId req.generationId req.memberId
  · obtain ⟨code, _, hsync⟩ := handleSyncGroup_of_stale hstale
    rw [hsync, GroupOp.onGroup]
    split
    next htarget =>
      subst htarget
      cases hgroup : gc.groups.find? req.groupId with
      | none => rfl
      | some group =>
        simp [GroupMetadata.synced, hstale group hgroup]
    · rfl
  · simp only [Stale, not_forall, not_not] at hstale
    obtain ⟨group, hgroup, hcurrent⟩ := hstale
    rw [handleSyncGroup_of_current hgroup hcurrent, find?_setGroup, GroupOp.onGroup]
    split
    next htarget =>
      rw [← htarget, hgroup]
      simp [GroupMetadata.synced, hcurrent]
    · rfl

theorem find?_handleHeartbeat (req : HeartbeatRequest) (now : Int) :
    (gc.handleHeartbeat req now).1.groups.find? groupId =
      (GroupOp.heartbeat req now).onGroup gc.validateJoinRequest groupId
        (gc.groups.find? groupId) := by
  by_cases hstale : gc.Stale req.groupId req.generationId req.memberId
  · obtain ⟨code, _, hbeat⟩ := handleHeartbeat_of_stale now hstale
    rw [hbeat, GroupOp.onGroup]
    split
    next htarget =>
      subst htarget
      cases hgroup : gc.groups.find? req.groupId with
      | none => rfl
      | some group =>
        simp [GroupMetadata.beaten, hstale group hgroup]
    · rfl
  · simp only [Stale, not_forall, not_not] at hstale
    obtain ⟨group, hgroup, hcurrent⟩ := hstale
    rw [handleHeartbeat_of_current hgroup hcurrent, GroupOp.onGroup]
    by_cases htarget : req.groupId = groupId
    · subst htarget
      by_cases hstate : group.state = .preparingRebalance
      · simp [hgroup, hstate, GroupMetadata.beaten]
      · simp [hgroup, hstate, find?_setGroup]
    · split
      · simp
      · simp [htarget, find?_setGroup]

theorem find?_handleLeaveGroup (req : LeaveGroupRequest) :
    (gc.handleLeaveGroup req).1.groups.find? groupId =
      (GroupOp.leave req).onGroup gc.validateJoinRequest groupId
        (gc.groups.find? groupId) := by
  simp only [handleLeaveGroup, GroupOp.onGroup]
  by_cases htarget : req.groupId = groupId
  · subst htarget
    cases hgroup : gc.groups.find? req.groupId with
    | none => simp [hgroup]
    | some group => simp [find?_setGroup, GroupMetadata.left]
  · simp only [htarget, ↓reduceIte]
    split
    · rfl
    · simp [find?_setGroup, htarget]

theorem groups_handleOffsetCommit (req : OffsetCommitRequest) (now : Int)
    (plan : CommitPlan) :
    (gc.handleOffsetCommit req now plan).1.groups = gc.groups := by
  unfold handleOffsetCommit
  split
  · split
    · rfl
    · split
      · rfl
      · rfl
  · rfl

theorem find?_deleteGroup (deleted : Bytes) (order : TableOrder)
    (outcome : FlushOutcome) :
    (gc.deleteGroup deleted order outcome).1.groups.find? groupId =
      (GroupOp.delete deleted order outcome).onGroup gc.validateJoinRequest
        groupId (gc.groups.find? groupId) := by
  simp only [deleteGroup, removeGroup, GroupOp.onGroup]
  cases hgroup : gc.groups.find? deleted with
  | none =>
    dsimp only
    split
    next heq =>
      rw [← heq, hgroup]
      rfl
    · rfl
  | some group =>
    by_cases hmembers : group.members = ∅
    · have hzero : ¬ 0 < group.members.entries.length := by
        rw [hmembers]
        exact Nat.lt_irrefl 0
      simp only [hzero, ↓reduceIte, deleteOffsets, OrderedMap.find?_erase]
      split
      next heq => simp [← heq, hgroup, hmembers, Option.filter]
      · rfl
    · have hsome : 0 < group.members.entries.length := by
        rw [List.length_pos_iff]
        exact fun hnil => hmembers (OrderedMap.ext hnil)
      simp only [hsome, ↓reduceIte]
      split
      next heq => simp [← heq, hgroup, hmembers, Option.filter]
      · rfl

/-- Every operation acts on each group by itself. -/
theorem find?_step (op : GroupOp) : (gc.step op).groups.find? groupId =
      op.onGroup gc.validateJoinRequest groupId (gc.groups.find? groupId) := by
  cases op with
  | join req now => exact gc.find?_handleJoinGroup groupId req now
  | sync req => exact gc.find?_handleSyncGroup groupId req
  | heartbeat req now => exact gc.find?_handleHeartbeat groupId req now
  | leave req => exact gc.find?_handleLeaveGroup groupId req
  | commit req now plan =>
    exact congrArg (OrderedMap.find? · groupId)
      (gc.groups_handleOffsetCommit req now plan)
  | delete deleted order outcome =>
    exact gc.find?_deleteGroup groupId deleted order outcome
  | expire expired =>
    exact gc.groups.find?_mapValues _ groupId

theorem config_step (op : GroupOp) : (gc.step op).config = gc.config := by
  cases op with
  | delete deleted order outcome =>
    simp only [step, deleteGroup, removeGroup]
    cases gc.groups.find? deleted with
    | none => rfl
    | some group => dsimp only; split_ifs <;> rfl
  | expire expired => rfl
  | _ =>
    simp only [step, handleJoinGroup, handleSyncGroup, handleHeartbeat,
      handleLeaveGroup, handleOffsetCommit]
    repeat' split
    all_goals rfl

/-- What becomes of a group depends on the operations that concern it only. -/
theorem find?_runSteps_filter (ops : List GroupOp) :
    (runSteps step gc ops).groups.find? groupId =
      (runSteps step gc (ops.filter (·.concerns groupId))).groups.find?
        groupId := by
  let view (gc : GroupCoordinator) :=
    (gc.validateJoinRequest, gc.groups.find? groupId)
  let next (part : (JoinGroupRequest → Bool) × Option GroupMetadata)
    (op : GroupOp) := (part.1, op.onGroup part.1 groupId part.2)
  have hview : ∀ gc op, next (view gc) op = view (gc.step op) := by
    intro gc op
    simp only [next, view, find?_step]
    unfold validateJoinRequest
    rw [config_step]
  refine congrArg Prod.snd (runSteps_filter view hview (·.concerns groupId) ?_)
  intro part op hnot
  refine Prod.ext rfl ?_
  cases op with
  | join req now => exact if_neg fun hjoins => of_decide_eq_false hnot hjoins.1
  | commit req now plan => rfl
  | expire expired => cases hnot
  | _ => exact if_neg (of_decide_eq_false hnot)

end GroupCoordinator

end Streambus.Group
