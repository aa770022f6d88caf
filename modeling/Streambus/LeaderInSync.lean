/-
The leader's side of the replication of a partition.  The leader keeps a table
of how far each replica says it is, itself at offset 0, serves the fetches of
the followers, and from the table derives the in-sync replicas and the high
water mark.  A check sends a notification for every replica that leaves or
comes back, on a channel with room for ten from which nothing receives, and
holds the lock of the leader meanwhile.
-/
import Mathlib.Data.Finset.Fold
import Mathlib.Data.Finset.Sort
import Streambus.ByteOrder
import Streambus.Failover

namespace Streambus.Replication

open List OrderedMap

/-- The settings that the replicators read.  The time is in milliseconds. -/
structure Config where
  fetchMaxBytes : Int
  replicaLagMaxMessages : Int
  replicaLagTimeMaxMs : Int
deriving DecidableEq

/-- What a message carries beside its offset. -/
structure Record where
  key : Bytes
  value : Bytes
  timestamp : Int
  headers : List (Bytes × Bytes)
deriving DecidableEq

structure Message where
  offset : Int
  record : Record
deriving DecidableEq

def Message.bytes (message : Message) : Int :=
  message.record.key.length + message.record.value.length

inductive ErrorCode
  | none
  | notLeader
  | offsetOutOfRange
  | staleEpoch
  | partitionNotFound
  | replicaNotInReplicas
  | unknown
deriving DecidableEq

structure FetchRequest where
  replicaID : ReplicaID
  topic : String
  partitionID : Int
  fetchOffset : Int
  maxBytes : Int
  leaderEpoch : Int
deriving DecidableEq

structure FetchResponse where
  topic : String
  partitionID : Int
  leaderEpoch : Int
  highWaterMark : Int
  logEndOffset : Int
  messages : List Message
  errorCode : ErrorCode
deriving DecidableEq

/-- What the leader knows of a replica.  Times are in nanoseconds. -/
structure ReplicationState where
  logEndOffset : Int
  lastFetchTime : Int
deriving DecidableEq

structure LeaderReplicator where
  config : Config
  topic : String
  partitionID : Int
  leaderEpoch : Int
  replicaID : ReplicaID
  replicas : OrderedMap ReplicaID ReplicationState
  isr : Finset ReplicaID
  highWaterMark : Int
  logEndOffset : Int
deriving DecidableEq

/-- Messages up to and with the one that reaches the limit, `total` bytes
being taken already. -/
def takeBytes (maxBytes total : Int) : List Message → List Message
  | [] => []
  | message :: rest =>
    if maxBytes ≤ total then []
    else message :: takeBytes maxBytes (total + message.bytes) rest

namespace LeaderReplicator

/-- A leader starts with all replicas in sync and at offset 0, itself
included.  Where the storage fails, its offsets are 0. -/
def new (config : Config) (topic : String) (partitionID leaderEpoch : Int)
    (replicaID : ReplicaID) (replicas : List ReplicaID)
    (storedEnd storedHighWaterMark : Option Int) (now : Int) :
    LeaderReplicator where
  config := config
  topic := topic
  partitionID := partitionID
  leaderEpoch := leaderEpoch
  replicaID := replicaID
  replicas := OrderedMap.writes ∅ (replicas.map fun rid => (rid, ⟨0, now⟩))
  isr := replicas.toFinset
  highWaterMark := storedHighWaterMark.getD 0
  logEndOffset := storedEnd.getD 0

/-- The answer without messages. -/
def respond (lr : LeaderReplicator) (req : FetchRequest) (code : ErrorCode) :
    FetchResponse where
  topic := req.topic
  partitionID := req.partitionID
  leaderEpoch := lr.leaderEpoch
  highWaterMark := lr.highWaterMark
  logEndOffset := lr.logEndOffset
  messages := []
  errorCode := code

/-- The answer that names nothing but the error, and perhaps the epoch. -/
def refuse (req : FetchRequest) (leaderEpoch : Int) (code : ErrorCode) :
    FetchResponse where
  topic := req.topic
  partitionID := req.partitionID
  leaderEpoch := leaderEpoch
  highWaterMark := 0
  logEndOffset := 0
  messages := []
  errorCode := code

/-- Note what a fetch says about its replica. -/
def recordFetch (lr : LeaderReplicator) (req : FetchRequest) (now : Int) :
    LeaderReplicator :=
  { lr with replicas := lr.replicas.insert req.replicaID ⟨req.fetchOffset, now⟩ }

/-- The answer to a fetch that was recorded. -/
def serve (lr : LeaderReplicator) (storage : Int → Int → Option (List Message))
    (req : FetchRequest) : FetchResponse :=
  if req.fetchOffset < 0 ∨ lr.logEndOffset < req.fetchOffset then
    lr.respond req .offsetOutOfRange
  else if lr.logEndOffset ≤ req.fetchOffset then lr.respond req .none
  else
    -- a rough estimate of how many messages the bytes are
    let endOffset :=
      min (req.fetchOffset + req.maxBytes.tdiv 1024) lr.logEndOffset
    match storage req.fetchOffset endOffset with
    | none => refuse req lr.leaderEpoch .unknown
    | some messages =>
      { lr.respond req .none with
        messages := takeBytes req.maxBytes 0 messages }

-- What the replica says is recorded before its offset is checked.
def handleFetchRequest (lr : LeaderReplicator)
    (storage : Int → Int → Option (List Message)) (req : FetchRequest)
    (now : Int) : LeaderReplicator × FetchResponse :=
  if req.topic ≠ lr.topic ∨ req.partitionID ≠ lr.partitionID then
    (lr, refuse req 0 .partitionNotFound)
  else if lr.replicas.find? req.replicaID = none then
    (lr, refuse req 0 .replicaNotInReplicas)
  else if req.leaderEpoch < lr.leaderEpoch then
    (lr, refuse req lr.leaderEpoch .staleEpoch)
  else (lr.recordFetch req now, (lr.recordFetch req now).serve storage req)

def updateLogEndOffset (lr : LeaderReplicator) (newLEO : Int) :
    LeaderReplicator :=
  { lr with logEndOffset := newLEO }

/-- What the table says of a member of the in-sync replicas; one that is not
in the table does not count. -/
def reported (lr : LeaderReplicator) (rid : ReplicaID) : Int :=
  match lr.replicas.find? rid with
  | some state => state.logEndOffset
  | none => lr.logEndOffset

/-- The least log end offset of the in-sync replicas. -/
def minLEO (lr : LeaderReplicator) : Int :=
  lr.isr.fold min lr.logEndOffset lr.reported

def updateHighWaterMark (lr : LeaderReplicator) : LeaderReplicator :=
  if lr.highWaterMark < lr.minLEO then { lr with highWaterMark := lr.minLEO }
  else lr

def maxLagTime (config : Config) : Int := config.replicaLagTimeMaxMs * 1000000

/-- How many messages a replica is behind, in 64 bits. -/
def messageLag (lr : LeaderReplicator) (state : ReplicationState) : Int :=
  Int.bmod (lr.logEndOffset - state.logEndOffset) (2 ^ 64)

/-- A replica is too far behind, or has not fetched for too long. -/
def Lags (lr : LeaderReplicator) (now : Int) (state : ReplicationState) : Prop :=
  lr.config.replicaLagMaxMessages < lr.messageLag state ∨
    maxLagTime lr.config < now - state.lastFetchTime
deriving Decidable

/-- A replica is within half of both limits. -/
def CaughtUp (lr : LeaderReplicator) (now : Int) (state : ReplicationState) :
    Prop :=
  lr.messageLag state ≤ lr.config.replicaLagMaxMessages.tdiv 2 ∧
    now - state.lastFetchTime ≤ (maxLagTime lr.config).tdiv 2
deriving Decidable

def checkReplica (lr : LeaderReplicator) (now : Int) (isr : Finset ReplicaID)
    (entry : ReplicaID × ReplicationState) : Finset ReplicaID :=
  if entry.1 ∈ isr then
    if lr.Lags now entry.2 then isr.erase entry.1 else isr
  else if lr.CaughtUp now entry.2 then insert entry.1 isr
  else isr

def checkISRMembership (lr : LeaderReplicator) (now : Int) : LeaderReplicator :=
  { lr with isr := lr.replicas.entries.foldl (lr.checkReplica now) lr.isr }

/-- A check leaves a replica in sync: one that was and does not lag, or one
that was not and has caught up. -/
def Passes (lr : LeaderReplicator) (now : Int) (state : ReplicationState)
    (inSync : Prop) : Prop :=
  (inSync ∧ ¬ lr.Lags now state) ∨ (¬ inSync ∧ lr.CaughtUp now state)

variable (lr : LeaderReplicator)

theorem mem_checkReplica_self (now : Int) (isr : Finset ReplicaID)
    (rid : ReplicaID) (state : ReplicationState) :
    rid ∈ lr.checkReplica now isr (rid, state) ↔ lr.Passes now state (rid ∈ isr) := by
  unfold checkReplica Passes
  split_ifs <;> simp_all

theorem mem_checkReplica_of_ne (now : Int) (isr : Finset ReplicaID)
    {entry : ReplicaID × ReplicationState} {rid : ReplicaID}
    (hne : entry.1 ≠ rid) :
    rid ∈ lr.checkReplica now isr entry ↔ rid ∈ isr := by
  unfold checkReplica
  split_ifs <;> simp [hne.symm]

theorem mem_foldl_checkReplica (now : Int)
    {entries : List (ReplicaID × ReplicationState)}
    (hincreasing : Increasing entries) (isr : Finset ReplicaID)
    (rid : ReplicaID) :
    rid ∈ entries.foldl (lr.checkReplica now) isr ↔
      match lookupEntry rid entries with
      | none => rid ∈ isr
      | some state => lr.Passes now state (rid ∈ isr) := by
  induction entries generalizing isr with
  | nil => rfl
  | cons entry rest ih =>
    obtain ⟨hlt, hrest⟩ := pairwise_cons.mp hincreasing
    rw [foldl_cons, ih hrest, lookupEntry]
    by_cases hrid : entry.1 = rid
    · subst hrid
      simp only [lookupEntry_eq_none_of_lt hlt, ↓reduceIte]
      exact mem_checkReplica_self lr now isr entry.1 entry.2
    · simp only [mem_checkReplica_of_ne lr now isr hrid, hrid, ↓reduceIte]

theorem mem_isr_checkISRMembership (now : Int) (rid : ReplicaID) :
    rid ∈ (lr.checkISRMembership now).isr ↔
      match lr.replicas.find? rid with
      | none => rid ∈ lr.isr
      | some state => lr.Passes now state (rid ∈ lr.isr) :=
  mem_foldl_checkReplica lr now lr.replicas.increasing lr.isr rid

theorem find?_new {config : Config} {topic : String}
    {partitionID leaderEpoch : Int} {replicaID : ReplicaID}
    {replicas : List ReplicaID} {storedEnd storedHighWaterMark : Option Int}
    {now : Int} (rid : ReplicaID) :
    (new config topic partitionID leaderEpoch replicaID replicas storedEnd
        storedHighWaterMark now).replicas.find? rid =
      if rid ∈ replicas then some ⟨0, now⟩ else none := by
  split
  case isTrue hmem =>
    apply find?_writes_of_mem
    · exact mem_map.mpr ⟨rid, hmem, rfl⟩
    · intro other hother
      obtain ⟨_, _, heq⟩ := mem_map.mp hother
      exact (Prod.mk.inj heq).2.symm
  case isFalse hnot =>
    apply find?_writes_of_notMem
    intro value hvalue
    obtain ⟨other, hother, heq⟩ := mem_map.mp hvalue
    exact hnot ((Prod.mk.inj heq).1 ▸ hother)

theorem updateHighWaterMark_highWaterMark :
    lr.updateHighWaterMark.highWaterMark = max lr.highWaterMark lr.minLEO := by
  unfold updateHighWaterMark
  split
  case isTrue hlt => exact (max_eq_right hlt.le).symm
  case isFalse hle => exact (max_eq_left (not_lt.mp hle)).symm

end LeaderReplicator

inductive LeaderOp
  | updateLogEndOffset (newLEO : Int)
  | handleFetchRequest (storage : Int → Int → Option (List Message))
      (req : FetchRequest) (now : Int)
  | updateHighWaterMark
  | checkISRMembership (now : Int)
  | getHighWaterMark
  | stop

/-- Fetches come from other replicas than the leader. -/
def LeaderOp.FromOthers (leader : ReplicaID) : LeaderOp → Prop
  | .handleFetchRequest _ req _ => req.replicaID ≠ leader
  | _ => True

namespace LeaderReplicator

variable (lr : LeaderReplicator)

-- Reading changes nothing, and a stop ends the loop that updates and checks.
def step : LeaderOp → LeaderReplicator
  | .updateLogEndOffset newLEO => lr.updateLogEndOffset newLEO
  | .handleFetchRequest storage req now =>
    (lr.handleFetchRequest storage req now).1
  | .updateHighWaterMark => lr.updateHighWaterMark
  | .checkISRMembership now => lr.checkISRMembership now
  | .getHighWaterMark | .stop => lr

/-- What a replica reports by an operation: the offset of a fetch that is not
refused. -/
def report (op : LeaderOp) (rid : ReplicaID) : Option Int :=
  match op with
  | .handleFetchRequest storage req now =>
    if req.replicaID = rid ∧ (lr.handleFetchRequest storage req now).2.errorCode ∉
        [.partitionNotFound, .replicaNotInReplicas, .staleEpoch] then
      some req.fetchOffset
    else none
  | _ => none

/-- What a replica reports last in a run. -/
def lastReport (rid : ReplicaID) : LeaderReplicator → List LeaderOp → Option Int
  | _, [] => none
  | lr, op :: ops => ((lr.step op).lastReport rid ops).or (lr.report op rid)

theorem errorCode_serve (storage : Int → Int → Option (List Message))
    (req : FetchRequest) : (lr.serve storage req).errorCode ∉
      [.partitionNotFound, .replicaNotInReplicas, .staleEpoch] := by
  unfold serve
  dsimp only
  split_ifs
  · simp [respond]
  · simp [respond]
  · split <;> simp [respond, refuse]

/-- The table has what was reported, and what it had before otherwise. -/
theorem find?_step (op : LeaderOp) (rid : ReplicaID) :
    ((lr.step op).replicas.find? rid).map ReplicationState.logEndOffset =
      (lr.report op rid).or
        ((lr.replicas.find? rid).map ReplicationState.logEndOffset) := by
  cases op with
  | handleFetchRequest storage req now =>
    simp only [step, report, handleFetchRequest]
    by_cases hplace : req.topic ≠ lr.topic ∨ req.partitionID ≠ lr.partitionID
    · simp [hplace, refuse]
    by_cases hmember : lr.replicas.find? req.replicaID = none
    · simp [hplace, hmember, refuse]
    by_cases hepoch : req.leaderEpoch < lr.leaderEpoch
    · simp [hplace, hmember, hepoch, refuse]
    have hserved := errorCode_serve (lr.recordFetch req now) storage req
    simp only [hplace, hmember, hepoch, if_false, hserved, not_false_eq_true,
      and_true]
    rw [recordFetch, find?_insert]
    split_ifs <;> rfl
  | updateHighWaterMark =>
    simp only [step, report, updateHighWaterMark]
    split <;> rfl
  | _ => rfl

theorem find?_runSteps (ops : List LeaderOp) (rid : ReplicaID) :
    ((runSteps step lr ops).replicas.find? rid).map ReplicationState.logEndOffset =
      (lr.lastReport rid ops).or
        ((lr.replicas.find? rid).map ReplicationState.logEndOffset) := by
  induction ops generalizing lr with
  | nil => rfl
  | cons op ops ih =>
    change ((runSteps step (lr.step op) ops).replicas.find? rid).map _ = _
    rw [ih, find?_step, lastReport, Option.or_assoc]

/-- In no run the high water mark goes back, and whenever it is raised the log
and every in-sync replica's last report reach that far; a replica that has not
reported is at 0. -/
theorem highWaterMark_le_lastReport (config : Config) (topic : String)
    (partitionID leaderEpoch : Int) (leader : ReplicaID)
    (replicas : List ReplicaID) (storedEnd storedHighWaterMark : Option Int)
    (createdAt : Int) (ops : List LeaderOp) (op : LeaderOp) :
    let start := new config topic partitionID leaderEpoch leader replicas
      storedEnd storedHighWaterMark createdAt
    let lr := runSteps step start ops
    lr.highWaterMark ≤ (lr.step op).highWaterMark ∧
      (lr.highWaterMark < (lr.step op).highWaterMark →
        (lr.step op).highWaterMark ≤ lr.logEndOffset ∧
          ∀ rid ∈ lr.isr, rid ∈ replicas →
            (lr.step op).highWaterMark ≤ (start.lastReport rid ops).getD 0) := by
  intro start lr
  have hsame : (∃ mark, (lr.step op).highWaterMark = mark ∧
      mark = lr.highWaterMark) ∨ op = .updateHighWaterMark := by
    cases op with
    | updateHighWaterMark => exact Or.inr rfl
    | handleFetchRequest storage req now =>
      refine Or.inl ⟨_, rfl, ?_⟩
      simp only [step, handleFetchRequest]
      split_ifs <;> rfl
    | _ => exact Or.inl ⟨_, rfl, rfl⟩
  rcases hsame with ⟨_, rfl, hsame⟩ | rfl
  · exact ⟨hsame.ge, fun hraised => absurd hsame hraised.ne'⟩
  · have hmark : (lr.step .updateHighWaterMark).highWaterMark =
        max lr.highWaterMark lr.minLEO := updateHighWaterMark_highWaterMark lr
    rw [hmark]
    refine ⟨le_max_left _ _, fun hraised => ?_⟩
    have hmin : max lr.highWaterMark lr.minLEO = lr.minLEO :=
      max_eq_right (by omega)
    rw [hmin]
    refine ⟨(Finset.fold_min_le _).mpr (Or.inl le_rfl), fun rid hmem hrid => ?_⟩
    have htable := find?_runSteps start ops rid
    have hle : lr.minLEO ≤ lr.reported rid :=
      (Finset.fold_min_le _).mpr (Or.inr ⟨rid, hmem, le_rfl⟩)
    rw [find?_new, if_pos hrid, Option.map_some] at htable
    obtain ⟨state, hstate, hreport⟩ : ∃ state, lr.replicas.find? rid = some state ∧
          state.logEndOffset = (start.lastReport rid ops).getD 0 := by
      cases hlast : start.lastReport rid ops with
      | none | some report =>
        rw [hlast] at htable
        exact Option.map_eq_some_iff.mp htable
    simpa only [reported, hstate, hreport] using hle

/-- The least log end offset over the in-sync replicas, the leader being where
its log ends. -/
def inSyncEnd : Int :=
  lr.isr.fold min lr.logEndOffset fun rid =>
    if rid = lr.replicaID then lr.logEndOffset else lr.reported rid

/-- After an operation the leader is in sync with itself, and an update has
raised the high water mark to what the in-sync replicas have. -/
def CountsItself (op : LeaderOp) : Prop :=
  lr.replicaID ∈ (lr.step op).isr ∧ (op = .updateHighWaterMark →
      (lr.step op).highWaterMark = max lr.highWaterMark lr.inSyncEnd)

/-- An update has nothing to raise that is above 0, and a check finds the log
within the limit on messages and the leader within the limit on time. -/
def SpareItself (createdAt : Int) (lr : LeaderReplicator) : LeaderOp → Prop
  | .updateHighWaterMark => lr.inSyncEnd ≤ max lr.highWaterMark 0
  | .checkISRMembership now =>
    Int.bmod lr.logEndOffset (2 ^ 64) ≤ lr.config.replicaLagMaxMessages ∧
      now - createdAt ≤ maxLagTime lr.config
  | _ => True

instance (createdAt : Int) (lr : LeaderReplicator) (op : LeaderOp) :
    Decidable (lr.SpareItself createdAt op) := by
  cases op <;> unfold SpareItself <;> infer_instance

/-- The leader is in its table as it was entered, and in sync. -/
structure Untouched (leader : ReplicaID) (createdAt : Int)
    (lr : LeaderReplicator) : Prop where
  replicaID : lr.replicaID = leader
  entry : lr.replicas.find? leader = some ⟨0, createdAt⟩
  inSync : leader ∈ lr.isr

theorem handleFetchRequest_fst (storage : Int → Int → Option (List Message))
    (req : FetchRequest) (now : Int) :
    (lr.handleFetchRequest storage req now).1 = lr ∨
      (lr.handleFetchRequest storage req now).1 = lr.recordFetch req now := by
  unfold handleFetchRequest
  split_ifs
  · exact .inl rfl
  · exact .inl rfl
  · exact .inl rfl
  · exact .inr rfl

section
variable {leader : ReplicaID} {createdAt : Int} {lr : LeaderReplicator}

section

variable (huntouched : Untouched leader createdAt lr)

include huntouched

/-- The leader's own entry keeps the least offset from rising above 0. -/
theorem Untouched.minLEO_eq : lr.minLEO = min lr.inSyncEnd 0 := by
  obtain ⟨rfl, hentry, hmem⟩ := huntouched
  have hown : lr.reported lr.replicaID = 0 := by rw [reported, hentry]
  apply eq_of_forall_le_iff
  intro bound
  rw [minLEO, inSyncEnd, le_min_iff, Finset.le_fold_min, Finset.le_fold_min]
  constructor
  · rintro ⟨hend, hall⟩
    have hzero : bound ≤ 0 := hown ▸ hall lr.replicaID hmem
    refine ⟨⟨hend, fun rid hrid => ?_⟩, hzero⟩
    split
    · exact hend
    · exact hall rid hrid
  · rintro ⟨⟨hend, hall⟩, hzero⟩
    refine ⟨hend, fun rid hrid => ?_⟩
    by_cases hleader : rid = lr.replicaID
    · rw [hleader, hown]
      exact hzero
    · have hbound := hall rid hrid
      rw [if_neg hleader] at hbound
      exact hbound

theorem Untouched.raises_iff : lr.updateHighWaterMark.highWaterMark =
        max lr.highWaterMark lr.inSyncEnd ↔
      lr.inSyncEnd ≤ max lr.highWaterMark 0 := by
  rw [updateHighWaterMark_highWaterMark, huntouched.minLEO_eq]
  omega

theorem Untouched.mem_isr_check_iff (now : Int) :
    leader ∈ (lr.checkISRMembership now).isr ↔
      Int.bmod lr.logEndOffset (2 ^ 64) ≤ lr.config.replicaLagMaxMessages ∧
        now - createdAt ≤ maxLagTime lr.config := by
  rw [mem_isr_checkISRMembership, huntouched.entry]
  simp only [Passes, huntouched.inSync, Lags, messageLag, true_and,
    not_true_eq_false, false_and, or_false, not_or, not_lt, sub_zero]

end

@[simp] theorem updateHighWaterMark_isr (lr : LeaderReplicator) :
    lr.updateHighWaterMark.isr = lr.isr := by
  unfold updateHighWaterMark
  split <;> rfl

theorem handleFetchRequest_isr (lr : LeaderReplicator)
    (storage : Int → Int → Option (List Message)) (req : FetchRequest)
    (now : Int) : (lr.handleFetchRequest storage req now).1.isr = lr.isr := by
  rcases lr.handleFetchRequest_fst storage req now with hfst | hfst
  · rw [hfst]
  · rw [hfst, recordFetch]

theorem Untouched.countsItself_iff
    (huntouched : Untouched leader createdAt lr) (op : LeaderOp) :
    lr.CountsItself op ↔ lr.SpareItself createdAt op := by
  have hmem := huntouched.inSync
  have hid := huntouched.replicaID
  cases op with
  | updateLogEndOffset newLEO =>
    simp [CountsItself, SpareItself, step, updateLogEndOffset, hid, hmem]
  | handleFetchRequest storage req now =>
    simp [CountsItself, SpareItself, step, handleFetchRequest_isr, hid, hmem]
  | updateHighWaterMark =>
    simpa [CountsItself, SpareItself, step, hid, hmem] using huntouched.raises_iff
  | checkISRMembership now =>
    simpa [CountsItself, SpareItself, step, hid]
      using huntouched.mem_isr_check_iff now
  | getHighWaterMark | stop =>
    simp [CountsItself, SpareItself, step, hid, hmem]

theorem Untouched.step (huntouched : Untouched leader createdAt lr)
    {op : LeaderOp} (hothers : op.FromOthers leader)
    (hspare : lr.SpareItself createdAt op) :
    Untouched leader createdAt (lr.step op) := by
  have hin : leader ∈ (lr.step op).isr :=
    huntouched.replicaID ▸ ((huntouched.countsItself_iff op).mpr hspare).1
  obtain ⟨hid, hentry, _⟩ := huntouched
  cases op with
  | updateLogEndOffset newLEO => exact ⟨hid, hentry, hin⟩
  | handleFetchRequest storage req now =>
    rcases lr.handleFetchRequest_fst storage req now with hfst | hfst
    · rw [LeaderReplicator.step, hfst] at hin ⊢
      exact ⟨hid, hentry, hin⟩
    · rw [LeaderReplicator.step, hfst] at hin ⊢
      refine ⟨hid, ?_, hin⟩
      rw [recordFetch, find?_insert_of_ne _ hothers, hentry]
  | updateHighWaterMark =>
    refine ⟨?_, ?_, hin⟩ <;>
      simp only [LeaderReplicator.step, updateHighWaterMark] <;> split <;>
        assumption
  | checkISRMembership now | getHighWaterMark | stop => exact ⟨hid, hentry, hin⟩

end

section
variable (config : Config) (topic : String) (partitionID leaderEpoch : Int)
  {leader : ReplicaID} {replicas : List ReplicaID}
  (storedEnd storedHighWaterMark : Option Int) (createdAt : Int)

/-- A leader 1 with a follower 2, the default limits and an empty log, created
at time 0. -/
def leaderOfTwo : LeaderReplicator :=
  new ⟨1048576, 4000, 10000⟩ "orders" 0 1 1 [1, 2] (some 0) (some 0) 0

/-- The fetch of the follower of `leaderOfTwo`. -/
def fetchOfTwo (fetchOffset : Int) : FetchRequest :=
  ⟨2, "orders", 0, fetchOffset, 1048576, 1⟩

example : AllAllowed LeaderReplicator.step (SpareItself 0) leaderOfTwo
    [.updateLogEndOffset 5, .updateHighWaterMark,
      .checkISRMembership 5000000000] := by decide +kernel

end

end LeaderReplicator

open List

structure ISRChangeNotification where
  topic : String
  partitionID : Int
  newISR : Finset ReplicaID
  reason : String
  timestamp : Int

/-- An operation, and the order in which a check walks the table. -/
structure NotifiedOp where
  op : LeaderOp
  walk : List (ReplicaID × ReplicationState) → List (ReplicaID × ReplicationState)
  walk_perm : ∀ entries, (walk entries).Perm entries

/-- A leader, the notifications that nobody has received, and whether a check
waits for room behind them. -/
structure NotifyingLeader where
  leader : LeaderReplicator
  isrChangeCh : List ISRChangeNotification
  blocked : Bool

def isrChangeChSize : Nat := 10

namespace LeaderReplicator

/-- A check finds that the replica leaves the in-sync replicas or comes
back. -/
def Moves (lr : LeaderReplicator) (now : Int)
    (entry : ReplicaID × ReplicationState) : Prop :=
  (entry.1 ∈ lr.isr ∧ lr.Lags now entry.2) ∨
    (entry.1 ∉ lr.isr ∧ lr.CaughtUp now entry.2)
deriving Decidable

/-- The number of replicas that an operation moves. -/
def moves (lr : LeaderReplicator) : LeaderOp → Nat
  | .checkISRMembership now => lr.replicas.entries.countP (lr.Moves now ·)
  | _ => 0

/-- The number of moves over a run. -/
def totalMoves : LeaderReplicator → List LeaderOp → Nat
  | _, [] => 0
  | lr, op :: ops => lr.moves op + (lr.step op).totalMoves ops

/-- Replicas are checked independently of each other. -/
theorem checkReplica_comm (lr : LeaderReplicator) (now : Int)
    (isr : Finset ReplicaID) {first second : ReplicaID × ReplicationState}
    (hne : first.1 ≠ second.1) :
    lr.checkReplica now (lr.checkReplica now isr first) second =
      lr.checkReplica now (lr.checkReplica now isr second) first := by
  ext rid
  by_cases hfirst : first.1 = rid
  · subst hfirst
    rw [mem_checkReplica_of_ne _ _ _ hne.symm, mem_checkReplica_self,
      mem_checkReplica_self, mem_checkReplica_of_ne _ _ _ hne.symm]
  · rw [mem_checkReplica_of_ne _ _ _ hfirst]
    by_cases hsecond : second.1 = rid
    · subst hsecond
      rw [mem_checkReplica_self, mem_checkReplica_self,
        mem_checkReplica_of_ne _ _ _ hne]
    · simp only [mem_checkReplica_of_ne _ _ _ hsecond,
        mem_checkReplica_of_ne _ _ _ hfirst]

end LeaderReplicator

namespace NotifyingLeader

variable (state : NotifyingLeader)

/-- Tell of new in-sync replicas, or wait for room to do so. -/
def notify (now : Int) (isr : Finset ReplicaID) (reason : String) :
    NotifyingLeader :=
  let leader := { state.leader with isr := isr }
  if state.isrChangeCh.length < isrChangeChSize then
    ⟨leader, state.isrChangeCh ++
      [⟨leader.topic, leader.partitionID, isr, reason, now⟩], false⟩
  else ⟨leader, state.isrChangeCh, true⟩

def checkEntry (now : Int) (state : NotifyingLeader)
    (entry : ReplicaID × ReplicationState) : NotifyingLeader :=
  let (rid, replica) := entry
  if state.blocked then state
  else if rid ∈ state.leader.isr then
    if state.leader.Lags now replica then
      state.notify now (state.leader.isr.erase rid)
        s!"Replica {rid} exceeded lag limits"
    else state
  else if state.leader.CaughtUp now replica then
    state.notify now (insert rid state.leader.isr) s!"Replica {rid} caught up"
  else state

/-- One operation.  All of them need the lock, which a check that waits does
not give back, and a stop waits for the loop that checks. -/
def step (op : NotifiedOp) : NotifyingLeader :=
  if state.blocked then state
  else
    match op.op with
    | .checkISRMembership now =>
      (op.walk state.leader.replicas.entries).foldl (checkEntry now) state
    | other => { state with leader := state.leader.step other }

/-- Some notifications are sent and the leader is then the given one, or there
is no room for them all and the operation does not finish. -/
def Sends (count : Nat) (leader : LeaderReplicator) (after : NotifyingLeader) :
    Prop :=
  if state.isrChangeCh.length + count ≤ isrChangeChSize then
    after.blocked = false ∧ after.leader = leader ∧
      after.isrChangeCh.length = state.isrChangeCh.length + count
  else after.blocked = true

variable {state} (now : Int)

/-- What waits after a first part does not go on. -/
theorem Sends.trans {count more : Nat} {first last : LeaderReplicator}
    {middle after : NotifyingLeader} (hfirst : state.Sends count first middle)
    (hrest : middle.blocked = false → middle.leader = first →
      middle.isrChangeCh.length ≤ isrChangeChSize → middle.Sends more last after)
    (hblocked : middle.blocked = true → after = middle) :
    state.Sends (count + more) last after := by
  unfold Sends at *
  by_cases hfits : state.isrChangeCh.length + count ≤ isrChangeChSize
  · rw [if_pos hfits] at hfirst
    obtain ⟨hfree, hleader, hlength⟩ := hfirst
    have hlast := hrest hfree hleader (hlength.trans_le hfits)
    rwa [hlength, Nat.add_assoc] at hlast
  · rw [if_neg hfits] at hfirst
    rw [if_neg (by omega), hblocked hfirst]
    exact hfirst

theorem sends_checkEntry (hfree : state.blocked = false)
    (hroom : state.isrChangeCh.length ≤ isrChangeChSize)
    (entry : ReplicaID × ReplicationState) :
    state.Sends (if decide (state.leader.Moves now entry) then 1 else 0)
      { state.leader with
        isr := state.leader.checkReplica now state.leader.isr entry }
      (state.checkEntry now entry) := by
  unfold Sends checkEntry LeaderReplicator.checkReplica notify
  by_cases hmem : entry.1 ∈ state.leader.isr
  · by_cases hlags : state.leader.Lags now entry.2
    · simp [LeaderReplicator.Moves, hfree, hmem, hlags]
      split_ifs <;> simp
    · simp [LeaderReplicator.Moves, hfree, hmem, hlags, hroom]
  · by_cases hcaught : state.leader.CaughtUp now entry.2
    · simp [LeaderReplicator.Moves, hfree, hmem, hcaught]
      split_ifs <;> simp
    · simp [LeaderReplicator.Moves, hfree, hmem, hcaught, hroom]

/-- A walk over the table sends a notification for each move. -/
theorem sends_foldl_checkEntry {entries : List (ReplicaID × ReplicationState)}
    (hnodup : (entries.map Prod.fst).Nodup) (hfree : state.blocked = false)
    (hroom : state.isrChangeCh.length ≤ isrChangeChSize) :
    state.Sends (entries.countP (state.leader.Moves now ·))
      { state.leader with
        isr := entries.foldl (state.leader.checkReplica now) state.leader.isr }
      (entries.foldl (checkEntry now) state) := by
  induction entries generalizing state with
  | nil => simp [Sends, hfree, hroom]
  | cons entry rest ih =>
    obtain ⟨hout, hrest⟩ := nodup_cons.mp hnodup
    rw [countP_cons, Nat.add_comm, foldl_cons]
    refine (sends_checkEntry now hfree hroom entry).trans
      (fun hnext hleader hlength => ?_) fun hblocked =>
        runSteps_invariant (· = state.checkEntry now entry)
          (fun other _ hother => by rw [hother, checkEntry, if_pos hblocked])
          rfl rest
    -- the other entries move as they did before
    have hcount : rest.countP ((state.checkEntry now entry).leader.Moves now ·) =
        rest.countP (state.leader.Moves now ·) := by
      refine countP_congr fun other hother => ?_
      have hne : entry.1 ≠ other.1 := fun heq =>
        hout (heq ▸ mem_map_of_mem hother)
      have hmem := state.leader.mem_checkReplica_of_ne now state.leader.isr hne
      rw [decide_eq_true_eq, decide_eq_true_eq, hleader]
      exact or_congr (and_congr_left' hmem) (and_congr_left' (not_congr hmem))
    have hsends := ih hrest hnext hlength
    rwa [hcount, hleader] at hsends

/-- An operation leaves the leader as it would without notifications. -/
theorem sends_step (op : NotifiedOp) (hfree : state.blocked = false)
    (hroom : state.isrChangeCh.length ≤ isrChangeChSize) :
    state.Sends (state.leader.moves op.op) (state.leader.step op.op)
      (state.step op) := by
  obtain ⟨op, walk, hwalk⟩ := op
  cases op with
  | checkISRMembership now =>
    have hperm := hwalk state.leader.replicas.entries
    have hkeys : (state.leader.replicas.entries.map Prod.fst).Nodup :=
      pairwise_map.mpr (state.leader.replicas.increasing.imp ne_of_lt)
    have hsame := hperm.foldl_eq' (fun first hfirst second hsecond isr => by
      by_cases heq : first.1 = second.1
      · rw [inj_on_of_nodup_map hkeys (hperm.subset hfirst)
          (hperm.subset hsecond) heq]
      · exact state.leader.checkReplica_comm now isr heq) state.leader.isr
    have hsends := sends_foldl_checkEntry now
      ((hperm.map Prod.fst).nodup_iff.mpr hkeys) hfree hroom
    rw [hperm.countP_eq, hsame] at hsends
    simp only [step, hfree, Bool.false_eq_true, if_false]
    exact hsends
  | _ => simp [Sends, step, hfree, hroom, LeaderReplicator.moves]

theorem sends_runSteps (ops : List NotifiedOp) (hfree : state.blocked = false)
    (hroom : state.isrChangeCh.length ≤ isrChangeChSize) :
    state.Sends (state.leader.totalMoves (ops.map NotifiedOp.op))
      (runSteps LeaderReplicator.step state.leader (ops.map NotifiedOp.op))
      (runSteps step state ops) := by
  induction ops generalizing state with
  | nil => simp [Sends, runSteps, LeaderReplicator.totalMoves, hfree, hroom]
  | cons op ops ih =>
    refine (sends_step op hfree hroom).trans (fun hnext hleader hlength => ?_)
      fun hblocked => ?_
    · have hsends := ih hnext hlength
      rwa [hleader] at hsends
    · exact runSteps_invariant (· = state.step op)
        (fun other op hother => by rw [hother, step, if_pos hblocked]) rfl ops

/-- Every operation of a run finishes exactly if no more than ten replicas
leave the in-sync replicas or come back over the whole run. -/
theorem not_blocked_iff_totalMoves_le (lr : LeaderReplicator)
    (ops : List NotifiedOp) :
    (runSteps step ⟨lr, [], false⟩ ops).blocked = false ↔
      lr.totalMoves (ops.map NotifiedOp.op) ≤ isrChangeChSize := by
  have hsends : Sends ⟨lr, [], false⟩ _ _ _ :=
    sends_runSteps ops rfl (Nat.zero_le _)
  simp only [Sends, length_nil, Nat.zero_add] at hsends
  split_ifs at hsends with hfits
  · simp [hsends.1, hfits]
  · simp [hsends, hfits]

/-- A leader of eleven replicas that do not fetch for ten seconds waits for
room for the last notification, and does not take a new log end. -/
theorem not_finishes_eleven :
    let state : NotifyingLeader := runSteps step
      ⟨.new ⟨1048576, 4000, 10000⟩ "orders" 0 1 1 (List.range 11) (some 0)
        (some 0) 0, [], false⟩
      [⟨.checkISRMembership 10000000001, id, fun _ => .rfl⟩,
        ⟨.updateLogEndOffset 5, id, fun _ => .rfl⟩]
    state.blocked = true ∧ state.leader.logEndOffset = 0 := by
  decide +kernel

end NotifyingLeader

end Streambus.Replication
