/-
The roles of one replica of a partition and its automatic failover.  A manager
starts a new replicator with every change of role, and stops the one that it
replaces only if it is of the other kind.  A failover is a sequence of steps
that are decided from a copy of the metadata: the leader is found failed, a new
one is elected, the metadata is asked to change, and the copy follows.
-/
import Streambus.GuardedRun
import Streambus.OrderedMap

namespace Streambus.Replication

abbrev ReplicaID := Nat

inductive PartitionRole
  | follower
  | leader
deriving DecidableEq

/-- A replicator: its kind and which one of the manager's it is. -/
abbrev Replicator := PartitionRole × Nat

structure ReplicationManager where
  role : PartitionRole
  leaderRep : Option Nat
  followerRep : Option Nat
  /-- The replicators that were started and not stopped yet. -/
  running : List Replicator
  /-- How many replicators were created. -/
  created : Nat
deriving DecidableEq

inductive RoleOp
  | becomeLeader (leaderEpoch : Int) (replicas : List ReplicaID)
  | becomeFollower (leaderID : ReplicaID) (leaderEpoch : Int)
  | stop
deriving DecidableEq

namespace ReplicationManager

def new : ReplicationManager := ⟨.follower, none, none, [], 0⟩

/-- Stop a replicator, if there is one. -/
def stopRep (kind : PartitionRole) (rep : Option Nat)
    (running : List Replicator) : List Replicator :=
  match rep with
  | none => running
  | some index => running.filter (· ≠ (kind, index))

variable (m : ReplicationManager)

def becomeLeader : ReplicationManager where
  role := .leader
  leaderRep := some m.created
  followerRep := none
  running := (.leader, m.created) :: stopRep .follower m.followerRep m.running
  created := m.created + 1

def becomeFollower : ReplicationManager where
  role := .follower
  leaderRep := none
  followerRep := some m.created
  running := (.follower, m.created) :: stopRep .leader m.leaderRep m.running
  created := m.created + 1

def stop : ReplicationManager :=
  { m with
    running := stopRep .follower m.followerRep
      (stopRep .leader m.leaderRep m.running) }

-- Neither role change looks at the epoch, the leader or the replicas.
def step : RoleOp → ReplicationManager
  | .becomeLeader _ _ => m.becomeLeader
  | .becomeFollower _ _ => m.becomeFollower
  | .stop => m.stop

/-- What runs after an operation is as the operation says: nothing after a
stop, and after a change of role one replicator of the kind of the role. -/
def PlaysRole : RoleOp → Prop
  | .stop => m.running = []
  | _ => ∃ index, m.running = [(m.role, index)]

/-- A replica becomes what it is not: no replicator of the new kind runs. -/
def Released : RoleOp → Prop
  | .becomeLeader _ _ => ∀ running ∈ m.running, running.1 ≠ .leader
  | .becomeFollower _ _ => ∀ running ∈ m.running, running.1 ≠ .follower
  | .stop => True

/-- The fields know everything that runs, and only one replicator does. -/
inductive SingleRole (m : ReplicationManager) : Prop
  | idle (hrunning : m.running = [])
  | leading (index : Nat) (hrunning : m.running = [(.leader, index)])
      (hrep : m.leaderRep = some index)
  | following (index : Nat) (hrunning : m.running = [(.follower, index)])
      (hrep : m.followerRep = some index)

@[simp] theorem stopRep_nil (kind : PartitionRole) (rep : Option Nat) :
    stopRep kind rep [] = [] := by
  cases rep <;> rfl

@[simp] theorem stopRep_self (kind : PartitionRole) (index : Nat) :
    stopRep kind (some index) [(kind, index)] = [] := by
  simp [stopRep]

theorem stopRep_other {kind other : PartitionRole} (hne : other ≠ kind)
    (rep : Option Nat) (index : Nat) :
    stopRep kind rep [(other, index)] = [(other, index)] := by
  cases rep with
  | none => rfl
  | some stopped => simp [stopRep, hne]

/-- A manager that knows what runs plays the role it is given exactly if no
replicator of that kind was running. -/
theorem SingleRole.playsRole_iff {m : ReplicationManager} (hsingle : m.SingleRole)
    (op : RoleOp) : (m.step op).PlaysRole op ↔ m.Released op := by
  cases hsingle with
  | idle hrunning =>
    cases op <;>
      simp [step, PlaysRole, Released, becomeLeader, becomeFollower, stop, hrunning]
  | leading index hrunning hrep | following index hrunning hrep =>
    cases op <;>
      simp [step, PlaysRole, Released, becomeLeader, becomeFollower, stop,
        hrunning, hrep, stopRep_other]

theorem SingleRole.step {m : ReplicationManager} (hsingle : m.SingleRole) (op : RoleOp)
    (hreleased : m.Released op) : (m.step op).SingleRole := by
  have hplays := (hsingle.playsRole_iff op).mpr hreleased
  cases op with
  | becomeLeader leaderEpoch replicas =>
    obtain ⟨index, hrunning⟩ := hplays
    refine .leading index hrunning ?_
    have hhead := (List.cons.inj hrunning).1
    exact congrArg some (Prod.mk.inj hhead).2
  | becomeFollower leaderID leaderEpoch =>
    obtain ⟨index, hrunning⟩ := hplays
    refine .following index hrunning ?_
    have hhead := (List.cons.inj hrunning).1
    exact congrArg some (Prod.mk.inj hhead).2
  | stop => exact .idle hplays

/-- A replica plays one role after every operation of a run exactly if every
change of role finds no replicator of the new kind running. -/
theorem allPlayRole_iff_allReleased (ops : List RoleOp) :
    AllAllowed ReplicationManager.step (fun m op => (m.step op).PlaysRole op)
        new ops ↔
      AllAllowed ReplicationManager.step Released new ops :=
  allAllowed_iff SingleRole (fun op _ _ hsingle => hsingle.playsRole_iff op)
    (fun op _ _ hsingle hreleased => hsingle.step op hreleased) (.idle rfl)

/-- A follower that is told of a new leader keeps its old fetch loop beside
the new one, and stopping the manager leaves the old one running. -/
theorem not_playsRole_refollowed : ¬ (runSteps ReplicationManager.step new
          [.becomeFollower 1 1, .becomeFollower 2 2]).PlaysRole
        (.becomeFollower 2 2) ∧
      (runSteps ReplicationManager.step new
          [.becomeFollower 1 1, .becomeFollower 2 2]).running =
        [(.follower, 1), (.follower, 0)] ∧
      (runSteps ReplicationManager.step new
          [.becomeFollower 1 1, .becomeFollower 2 2, .stop]).running =
        [(.follower, 0)] := by
  have hboth : (runSteps ReplicationManager.step new
      [.becomeFollower 1 1, .becomeFollower 2 2]).running =
        [(.follower, 1), (.follower, 0)] := by decide
  refine ⟨?_, hboth, by decide⟩
  rintro ⟨index, hrunning⟩
  cases hrunning

end ReplicationManager

structure PartitionMetadata where
  leader : ReplicaID
  leaderEpoch : Int64
  isr : List ReplicaID
  replicas : List ReplicaID
deriving DecidableEq

/-- The coordinator's copy. -/
structure PartitionFailoverState where
  currentLeader : ReplicaID
  leaderEpoch : Int64
  replicas : List ReplicaID
  isr : List ReplicaID
deriving DecidableEq

/-- How far the registration or a failover of the partition is. -/
inductive FailoverPhase
  | unregistered
  | leaderRead (leader : ReplicaID) (leaderEpoch : Int64)
  | isrRead (leader : ReplicaID) (leaderEpoch : Int64) (isr : List ReplicaID)
  | idle (state : PartitionFailoverState)
  | triggered (state : PartitionFailoverState)
  | elected (state : PartitionFailoverState) (newLeader : ReplicaID)
  | updating (state : PartitionFailoverState) (newLeader : ReplicaID)
deriving DecidableEq

/-- The copy of a failover that is to elect a leader. -/
def FailoverPhase.triggered? : FailoverPhase → Option PartitionFailoverState
  | .triggered state => some state
  | _ => none

/-- The copy and the elected leader of a failover that is to update the
metadata. -/
def FailoverPhase.elected? :
    FailoverPhase → Option (PartitionFailoverState × ReplicaID)
  | .elected state newLeader => some (state, newLeader)
  | _ => none

/-- The coordinator and the metadata of one partition.  Times are in
nanoseconds. -/
structure FailoverCoordinator where
  metadata : PartitionMetadata
  lastHeartbeat : OrderedMap ReplicaID Int
  phase : FailoverPhase
deriving DecidableEq

inductive FailoverOp
  | changeMetadata (metadata : PartitionMetadata)
  | recordHeartbeat (rid : ReplicaID) (now : Int)
  | getPartitionLeader
  | getPartitionISR
  | getPartitionReplicas
  | checkLeaderHealth (now : Int)
  | electNewLeader (now : Int)
  | updatePartitionLeader (now : Int)
  | returnUpdate (applied succeeded : Bool)
deriving DecidableEq

namespace FailoverCoordinator

def new (metadata : PartitionMetadata) : FailoverCoordinator :=
  ⟨metadata, ∅, .unregistered⟩

def failureTimeout : Int := 30000000000

/-- A broker that was never seen has not failed. -/
def hasFailed (fc : FailoverCoordinator) (now : Int) (rid : ReplicaID) : Bool :=
  match fc.lastHeartbeat.find? rid with
  | none => false
  | some lastSeen => failureTimeout < now - lastSeen

/-- The first of the copied in-sync replicas that has not failed. -/
def electNewLeader (fc : FailoverCoordinator) (state : PartitionFailoverState)
    (now : Int) : Option ReplicaID :=
  (state.isr.filter fun rid => !fc.hasFailed now rid).head?

/-- A failover without a replica to elect is over. -/
def elect (fc : FailoverCoordinator) (now : Int) : FailoverCoordinator :=
  match fc.phase with
  | .triggered state =>
    match fc.electNewLeader state now with
    | none => { fc with phase := .idle state }
    | some newLeader => { fc with phase := .elected state newLeader }
  | _ => fc

def step (fc : FailoverCoordinator) : FailoverOp → FailoverCoordinator
  | .changeMetadata metadata => { fc with metadata }
  | .recordHeartbeat rid now =>
    { fc with lastHeartbeat := fc.lastHeartbeat.insert rid now }
  -- registering reads the metadata three times
  | .getPartitionLeader =>
    match fc.phase with
    | .unregistered =>
      { fc with
        phase := .leaderRead fc.metadata.leader fc.metadata.leaderEpoch }
    | _ => fc
  | .getPartitionISR =>
    match fc.phase with
    | .leaderRead leader leaderEpoch =>
      { fc with phase := .isrRead leader leaderEpoch fc.metadata.isr }
    | _ => fc
  | .getPartitionReplicas =>
    match fc.phase with
    | .isrRead leader leaderEpoch isr =>
      { fc with
        phase := .idle ⟨leader, leaderEpoch, fc.metadata.replicas, isr⟩ }
    | _ => fc
  | .checkLeaderHealth now =>
    match fc.phase with
    | .idle state =>
      if fc.hasFailed now state.currentLeader then
        { fc with phase := .triggered state }
      else fc
    | _ => fc
  | .electNewLeader now => fc.elect now
  | .updatePartitionLeader _ =>
    match fc.phase with
    | .elected state newLeader =>
      { fc with phase := .updating state newLeader }
    | _ => fc
  -- an update that fails may have been applied
  | .returnUpdate applied succeeded =>
    match fc.phase with
    | .updating state newLeader =>
      { fc with
        metadata :=
          if applied || succeeded then
            { fc.metadata with
              leader := newLeader
              leaderEpoch := state.leaderEpoch + 1 }
          else fc.metadata
        phase := .idle (if succeeded then
            { state with
              currentLeader := newLeader
              leaderEpoch := state.leaderEpoch + 1 }
          else state) }
    | _ => fc

/-- An update that is sent to the metadata names an in-sync replica that has
not failed and is not the failed leader, with a new epoch. -/
def SendsFresh (fc : FailoverCoordinator) : FailoverOp → Prop
  | .updatePartitionLeader now =>
    ∀ found ∈ fc.phase.elected?,
      found.2 ∈ fc.metadata.isr ∧ fc.hasFailed now found.2 = false ∧
        found.2 ≠ found.1.currentLeader ∧
        fc.metadata.leaderEpoch < found.1.leaderEpoch + 1
  | _ => True

/-- An election finds the leader still failed and the metadata with the copied
in-sync replicas and epoch, which can be raised; the metadata are not changed
until the update is sent, and no other of the copied in-sync replicas has
failed by then. -/
def Informed (fc : FailoverCoordinator) : FailoverOp → Prop
  | .electNewLeader now =>
    ∀ state ∈ fc.phase.triggered?, fc.hasFailed now state.currentLeader = true ∧
        fc.metadata.isr = state.isr ∧
        fc.metadata.leaderEpoch = state.leaderEpoch ∧
        state.leaderEpoch < Int64.maxValue
  | .changeMetadata _ => fc.phase.elected? = none
  | .updatePartitionLeader now =>
    ∀ found ∈ fc.phase.elected?, ∀ rid ∈ found.1.isr,
      rid ≠ found.1.currentLeader → fc.hasFailed now rid = false
  | _ => True

instance (fc : FailoverCoordinator) (op : FailoverOp) :
    Decidable (fc.Informed op) := by
  cases op <;> unfold Informed <;> infer_instance

/-- What holds of an elected leader until the update is sent. -/
def Ready (fc : FailoverCoordinator) : Prop :=
  ∀ found ∈ fc.phase.elected?,
    found.2 ∈ found.1.isr ∧ found.2 ≠ found.1.currentLeader ∧
      fc.metadata.isr = found.1.isr ∧
      fc.metadata.leaderEpoch = found.1.leaderEpoch ∧
      found.1.leaderEpoch < Int64.maxValue

theorem lt_add_one_of_lt_maxValue {epoch : Int64}
    (hlt : epoch < Int64.maxValue) : epoch < epoch + 1 := by
  have hint := Int64.lt_iff_toInt_lt.mp hlt
  have hlow := epoch.le_toInt
  rw [Int64.lt_iff_toInt_lt, Int64.toInt_add]
  simp only [Int64.toInt_maxValue, Int64.reduceToInt] at hint hlow ⊢
  rw [Int.bmod_eq_of_le (by omega) (by omega)]
  omega

variable {fc : FailoverCoordinator}

theorem Ready.sendsFresh (hready : fc.Ready) {op : FailoverOp}
    (hinformed : fc.Informed op) : fc.SendsFresh op := by
  cases op with
  | updatePartitionLeader now =>
    intro found hfound
    obtain ⟨hmem, hne, hisr, hepoch, hroom⟩ := hready found hfound
    refine ⟨hisr ▸ hmem, hinformed found hfound found.2 hmem hne, hne, ?_⟩
    rw [hepoch]
    exact lt_add_one_of_lt_maxValue hroom
  | _ => trivial

theorem ready_of_elected?_eq_none (hnone : fc.phase.elected? = none) : fc.Ready := by
  intro found hfound
  rw [hnone] at hfound
  cases hfound

theorem Ready.elect (hready : fc.Ready) {now : Int}
    (hinformed : fc.Informed (.electNewLeader now)) :
    (fc.elect now).Ready := by
  unfold FailoverCoordinator.elect
  cases hphase : fc.phase with
  | triggered state =>
    obtain ⟨hfailed, hsame⟩ := hinformed state (by rw [hphase]; rfl)
    dsimp only
    cases helected : fc.electNewLeader state now with
    | none => exact ready_of_elected?_eq_none rfl
    | some newLeader =>
      have hcandidate := List.mem_filter.mp (List.mem_of_mem_head? helected)
      rintro _ ⟨⟩
      refine ⟨hcandidate.1, ?_, hsame⟩
      -- the leader has failed and the elected one has not
      rintro (rfl : newLeader = state.currentLeader)
      simp [hfailed] at hcandidate
  | _ => exact hready

/-- The other steps of the coordinator change nothing or leave no leader
elected. -/
theorem step_eq_or_elected?_eq_none (fc : FailoverCoordinator) {op : FailoverOp}
    (hmetadata : ∀ metadata, op ≠ .changeMetadata metadata)
    (hheartbeat : ∀ rid now, op ≠ .recordHeartbeat rid now)
    (helect : ∀ now, op ≠ .electNewLeader now) :
    fc.step op = fc ∨ (fc.step op).phase.elected? = none := by
  cases op with
  | changeMetadata metadata => exact absurd rfl (hmetadata metadata)
  | recordHeartbeat rid now => exact absurd rfl (hheartbeat rid now)
  | electNewLeader now => exact absurd rfl (helect now)
  | checkLeaderHealth now =>
    cases hphase : fc.phase with
    | idle state =>
      by_cases hfailed : fc.hasFailed now state.currentLeader <;>
        simp [step, hphase, hfailed, FailoverPhase.elected?]
    | _ => simp [step, hphase]
  | _ =>
    cases hphase : fc.phase <;> simp [step, hphase, FailoverPhase.elected?]

theorem Ready.step (hready : fc.Ready) {op : FailoverOp}
    (hinformed : fc.Informed op) : (fc.step op).Ready := by
  have hother := @step_eq_or_elected?_eq_none fc op
  cases op with
  | changeMetadata metadata =>
    exact ready_of_elected?_eq_none hinformed
  | recordHeartbeat rid now => exact hready
  | electNewLeader now => exact hready.elect hinformed
  | _ =>
    obtain hsame | hnone := hother (by simp) (by simp) (by simp)
    · rw [hsame]
      exact hready
    · exact ready_of_elected?_eq_none hnone

/-- A partition with leader 1 and in-sync replicas 1, 2 and 3. -/
def ledByOne : FailoverCoordinator := new ⟨1, 5, [1, 2, 3], [1, 2, 3]⟩

/-- The partition is registered, and the leader is not seen for 31 seconds. -/
def leaderLost : List FailoverOp :=
  [.getPartitionLeader, .getPartitionISR, .getPartitionReplicas,
    .recordHeartbeat 1 0, .checkLeaderHealth 31000000000]

end FailoverCoordinator

end Streambus.Replication
