/-
The follower's side of the replication of a partition.  A follower fetches
from the end of its log on and appends what it is sent.  It takes over the
high water mark of a response before it appends the messages, and it starts
again at 0 with the mark it has when its offset is out of range.
-/
import Streambus.LeaderInSync

namespace Streambus.Replication

/-- The log of a partition on one replica, with the high water mark stored
beside it. -/
structure PartitionStore where
  log : List Record
  highWaterMark : Int
deriving DecidableEq

def PartitionStore.truncate (storage : PartitionStore) (offset : Int) :
    PartitionStore :=
  { storage with log := storage.log.take offset.toNat }

/-- Records as messages whose offsets start at `offset`. -/
def messagesFrom (offset : Int) : List Record → List Message
  | [] => []
  | record :: rest => ⟨offset, record⟩ :: messagesFrom (offset + 1) rest

/-- Read a log whose records have their places as offsets. -/
def readRange (log : List Record) (startOffset endOffset : Int) :
    Option (List Message) :=
  some (messagesFrom startOffset
    ((log.drop startOffset.toNat).take (endOffset - startOffset).toNat))

/-- The calls of the storage that fail while a response is handled. -/
structure StorageFaults where
  truncate : Bool
  setHighWaterMark : Bool
  appendMessages : Bool
deriving DecidableEq

def StorageFaults.none : StorageFaults := ⟨false, false, false⟩

inductive FetchFailure
  | truncateFailed
  | appendFailed
  | leaderChanged
  | fetchError (code : ErrorCode)
deriving DecidableEq

structure FollowerReplicator where
  config : Config
  topic : String
  partitionID : Int
  replicaID : ReplicaID
  leaderEpoch : Int
  logEndOffset : Int
  highWaterMark : Int
  storage : PartitionStore
deriving DecidableEq

namespace FollowerReplicator

/-- A follower starts at the end of its log, or at 0 if the storage does not
say where that is. -/
def new (config : Config) (topic : String) (partitionID : Int)
    (replicaID : ReplicaID) (leaderEpoch : Int) (storage : PartitionStore)
    (fails : Bool) : FollowerReplicator :=
  ⟨config, topic, partitionID, replicaID, leaderEpoch,
    if fails then 0 else storage.log.length, 0, storage⟩

variable (fr : FollowerReplicator) (resp : FetchResponse)
  (faults : StorageFaults)

/-- The request that a fetch sends. -/
def performFetch : FetchRequest :=
  ⟨fr.replicaID, fr.topic, fr.partitionID, fr.logEndOffset,
    fr.config.fetchMaxBytes, fr.leaderEpoch⟩

def truncate (offset : Int) : FollowerReplicator :=
  { fr with storage := fr.storage.truncate offset }

def handleFetchError : FollowerReplicator × Option FetchFailure :=
  match resp.errorCode with
  | .staleEpoch => ({ fr with leaderEpoch := resp.leaderEpoch }, none)
  | .offsetOutOfRange =>
    if faults.truncate then
      ({ fr with logEndOffset := 0 }, some .truncateFailed)
    else (truncate { fr with logEndOffset := 0 } 0, none)
  | .notLeader => (fr, some .leaderChanged)
  | code => (fr, some (.fetchError code))

/-- A new epoch truncates the log where the follower says it ends. -/
def updateEpoch : FollowerReplicator :=
  if fr.leaderEpoch < resp.leaderEpoch then
    truncate { fr with leaderEpoch := resp.leaderEpoch } fr.logEndOffset
  else fr

-- A mark that cannot be stored is taken over all the same.
def raiseHighWaterMark : FollowerReplicator :=
  if fr.highWaterMark < resp.highWaterMark then
    { fr with
      highWaterMark := resp.highWaterMark
      storage := if faults.setHighWaterMark then fr.storage
        else { fr.storage with highWaterMark := resp.highWaterMark } }
  else fr

def appendMessages : FollowerReplicator × Option FetchFailure :=
  match resp.messages.getLast? with
  | none => (fr, none)
  | some last =>
    if faults.appendMessages then (fr, some .appendFailed)
    else
      ({ fr with
        logEndOffset := last.offset + 1
        storage := { fr.storage with
          log := fr.storage.log ++ resp.messages.map Message.record } }, none)

/-- The response carries no error, and the change of epoch succeeds if there
is one. -/
def Takes : Prop :=
  resp.errorCode = .none ∧
    ¬(fr.leaderEpoch < resp.leaderEpoch ∧ faults.truncate = true)
deriving Decidable

def handleFetchResponse : FollowerReplicator × Option FetchFailure :=
  if resp.errorCode ≠ .none then fr.handleFetchError resp faults
  else if fr.leaderEpoch < resp.leaderEpoch ∧ faults.truncate = true then
    ({ fr with leaderEpoch := resp.leaderEpoch }, some .truncateFailed)
  else
    ((fr.updateEpoch resp).raiseHighWaterMark resp faults).appendMessages resp faults

def step (event : FetchResponse × StorageFaults) : FollowerReplicator :=
  (fr.handleFetchResponse event.1 event.2).1

/-- The high water mark and the one in the storage are within the log. -/
def Marked : Prop :=
  fr.highWaterMark ≤ fr.logEndOffset ∧ fr.storage.highWaterMark ≤ fr.logEndOffset

/-- A response that is taken leaves the marks within a bound: the mark held
before, the mark it carries, and the stored one unless that is written over. -/
def TakenWithin (event : FetchResponse × StorageFaults) (bound : Int) : Prop :=
  fr.highWaterMark ≤ bound ∧ event.1.highWaterMark ≤ bound ∧
    (fr.storage.highWaterMark ≤ bound ∨ fr.highWaterMark < event.1.highWaterMark ∧
        event.2.setHighWaterMark = false)
deriving Decidable

/-- An answer that the offset is out of range, which sets the end of the log to
0, finds no mark above 0; messages that are appended reach up to the marks; and
whatever else comes, the log reaches up to them already. -/
def Covered (event : FetchResponse × StorageFaults) : Prop :=
  if event.1.errorCode = .offsetOutOfRange then
    fr.highWaterMark ≤ 0 ∧ fr.storage.highWaterMark ≤ 0
  else if fr.Takes event.1 event.2 then
    match event.1.messages.getLast?, event.2.appendMessages with
    | some last, false => fr.TakenWithin event (last.offset + 1)
    | _, _ => fr.TakenWithin event fr.logEndOffset
  else fr.Marked

/-- A response moves the marks as far as it says, and the end of the log by
its messages. -/
theorem step_marks (event : FetchResponse × StorageFaults) :
    (fr.step event).highWaterMark = (if fr.Takes event.1 event.2 then
      max fr.highWaterMark event.1.highWaterMark else fr.highWaterMark) ∧
    (fr.step event).storage.highWaterMark =
      if fr.Takes event.1 event.2 ∧ fr.highWaterMark < event.1.highWaterMark ∧
          event.2.setHighWaterMark = false then event.1.highWaterMark
      else fr.storage.highWaterMark := by
  obtain ⟨resp, faults⟩ := event
  by_cases herror : resp.errorCode = .none
  · by_cases hepoch : fr.leaderEpoch < resp.leaderEpoch ∧ faults.truncate = true
    · simp [step, handleFetchResponse, Takes, herror, hepoch]
    · have hmarks : (fr.updateEpoch resp).highWaterMark = fr.highWaterMark ∧
          (fr.updateEpoch resp).storage.highWaterMark = fr.storage.highWaterMark := by
        unfold updateEpoch
        split_ifs <;> exact ⟨rfl, rfl⟩
      have hkept : ∀ fr : FollowerReplicator,
          (fr.appendMessages resp faults).1.highWaterMark = fr.highWaterMark ∧
            (fr.appendMessages resp faults).1.storage.highWaterMark =
              fr.storage.highWaterMark := by
        intro fr
        unfold appendMessages
        split
        · exact ⟨rfl, rfl⟩
        · split_ifs <;> exact ⟨rfl, rfl⟩
      simp only [step, handleFetchResponse, Takes, herror, hepoch, ne_eq,
        not_true_eq_false, not_false_eq_true, and_self, if_true, if_false,
        hkept, raiseHighWaterMark, hmarks, true_and]
      split_ifs <;> simp_all <;> omega
  · have hkept : (fr.handleFetchError resp faults).1.highWaterMark =
          fr.highWaterMark ∧
        (fr.handleFetchError resp faults).1.storage.highWaterMark =
          fr.storage.highWaterMark := by
      unfold handleFetchError
      split <;> try split_ifs
      all_goals exact ⟨rfl, rfl⟩
    simp [step, handleFetchResponse, Takes, herror, hkept]

/-- Where the log ends after a response. -/
theorem step_logEndOffset (event : FetchResponse × StorageFaults) :
    (fr.step event).logEndOffset =
      if event.1.errorCode = .offsetOutOfRange then 0
      else if fr.Takes event.1 event.2 then
        match event.1.messages.getLast?, event.2.appendMessages with
        | some last, false => last.offset + 1
        | _, _ => fr.logEndOffset
      else fr.logEndOffset := by
  obtain ⟨resp, faults⟩ := event
  by_cases herror : resp.errorCode = .none
  · by_cases hepoch : fr.leaderEpoch < resp.leaderEpoch ∧ faults.truncate = true
    · simp [step, handleFetchResponse, Takes, herror, hepoch]
    · have hkept : ((fr.updateEpoch resp).raiseHighWaterMark resp
          faults).logEndOffset = fr.logEndOffset := by
        unfold raiseHighWaterMark updateEpoch
        split_ifs <;> rfl
      simp only [step, handleFetchResponse, Takes, herror, hepoch, ne_eq,
        not_true_eq_false, not_false_eq_true, and_self, if_true, if_false,
        appendMessages, reduceCtorEq]
      cases resp.messages.getLast? with
      | none => exact hkept
      | some last => cases faults.appendMessages <;> simp [hkept]
  · have hnot : ¬fr.Takes resp faults := fun htakes => herror htakes.1
    simp only [step, handleFetchResponse, herror, hnot, ne_eq,
      not_false_eq_true, if_true, if_false, handleFetchError]
    split <;> simp_all
    split_ifs <;> rfl

/-- The marks are within the log after every response exactly if every response
leaves them covered. -/
theorem allMarked_iff_allCovered (events : List (FetchResponse × StorageFaults)) :
    AllAllowed step (fun fr event => (fr.step event).Marked) fr events ↔
      AllAllowed step Covered fr events := by
  refine allAllowed_iff (fun _ => True) (fun event _ fr _ => ?_)
    (fun _ _ _ _ _ => trivial) trivial
  obtain ⟨hmark, hstored⟩ := fr.step_marks event
  have htaken : fr.Takes event.1 event.2 → ∀ bound,
      ((fr.step event).highWaterMark ≤ bound ∧
        (fr.step event).storage.highWaterMark ≤ bound ↔
          fr.TakenWithin event bound) := by
    intro htakes bound
    rw [hmark, hstored, if_pos htakes, TakenWithin, max_le_iff]
    simp only [htakes, true_and]
    split_ifs with hwrites
    · exact ⟨fun h => ⟨h.1.1, h.1.2, Or.inr hwrites⟩, fun h => ⟨⟨h.1, h.2.1⟩, h.2.1⟩⟩
    · rw [or_iff_left hwrites, and_assoc]
  have hkept : ¬fr.Takes event.1 event.2 →
      (fr.step event).highWaterMark = fr.highWaterMark ∧
        (fr.step event).storage.highWaterMark = fr.storage.highWaterMark := by
    intro hnot
    rw [hmark, hstored, if_neg hnot, if_neg fun h => hnot h.1]
    exact ⟨rfl, rfl⟩
  rw [Marked, fr.step_logEndOffset event, Covered]
  by_cases hrange : event.1.errorCode = .offsetOutOfRange
  · have hnot : ¬fr.Takes event.1 event.2 := fun htakes => by
      rw [htakes.1] at hrange
      cases hrange
    rw [if_pos hrange, if_pos hrange, (hkept hnot).1, (hkept hnot).2]
  · rw [if_neg hrange, if_neg hrange]
    by_cases htakes : fr.Takes event.1 event.2
    · rw [if_pos htakes, if_pos htakes]
      split <;> exact htaken htakes _
    · rw [if_neg htakes, if_neg htakes, (hkept htakes).1, (hkept htakes).2, Marked]

/-- A follower of the topic "orders" with an empty log. -/
def emptyFollower (fetchMaxBytes : Int) : FollowerReplicator :=
  new ⟨fetchMaxBytes, 4000, 10000⟩ "orders" 0 2 1 ⟨[], 0⟩ false

/-- A log of empty records. -/
def emptyRecords (count : Nat) : List Record :=
  List.replicate count ⟨[], [], 0, []⟩

/-- Its leader, which has as many records all of which count as replicated. -/
def settledLeader (count : Nat) : LeaderReplicator :=
  .new ⟨1048576, 4000, 10000⟩ "orders" 0 1 1 [1, 2] (some count) (some count) 0

/-- A follower that fetches one of two messages has the high water mark of
both. -/
theorem not_marked_emptyFollower :
    let after := (emptyFollower 1024).step
      (((settledLeader 2).handleFetchRequest (readRange (emptyRecords 2))
        (emptyFollower 1024).performFetch 0).2, .none)
    after.highWaterMark = 2 ∧ after.storage.highWaterMark = 2 ∧
      after.logEndOffset = 1 := by
  decide +kernel

/-- One fetch, its answer and what the follower makes of it. -/
def round (log : List Record) (pair : LeaderReplicator × FollowerReplicator)
    (now : Int) : LeaderReplicator × FollowerReplicator :=
  let (lr, resp) :=
    pair.1.handleFetchRequest (readRange log) pair.2.performFetch now
  (lr, (pair.2.handleFetchResponse resp .none).1)

/-- The pair after some rounds. -/
def rounds (log : List Record) (clock : Nat → Int)
    (pair : LeaderReplicator × FollowerReplicator) :
    Nat → LeaderReplicator × FollowerReplicator
  | 0 => pair
  | n + 1 => round log (rounds log clock pair n) (clock n)

/-- Every round that starts below the end of the leader's log appends
something, and one reaches it. -/
def CatchesUp (log : List Record) (clock : Nat → Int)
    (pair : LeaderReplicator × FollowerReplicator) : Prop :=
  (∀ n, (rounds log clock pair n).2.logEndOffset < log.length →
      (rounds log clock pair n).2.logEndOffset <
        (rounds log clock pair (n + 1)).2.logEndOffset) ∧
    ∃ n, (rounds log clock pair n).2.logEndOffset = log.length

/-- A leader of a log and a follower whose log begins it. -/
structure Follows (log : List Record)
    (pair : LeaderReplicator × FollowerReplicator) : Prop where
  topic : pair.2.topic = pair.1.topic
  partitionID : pair.2.partitionID = pair.1.partitionID
  member : (pair.1.replicas.find? pair.2.replicaID).isSome
  leader_end : pair.1.logEndOffset = log.length
  copied : ∃ count ≤ log.length, pair.2.logEndOffset = count ∧
    pair.2.storage.log = log.take count

theorem messagesFrom_concat (offset : Int) (front : List Record) (last : Record) :
    messagesFrom offset (front ++ [last]) =
      messagesFrom offset front ++ [⟨offset + front.length, last⟩] := by
  induction front generalizing offset with
  | nil => simp [messagesFrom]
  | cons record front ih =>
    simp [messagesFrom, ih]
    ring

@[simp] theorem map_record_messagesFrom (offset : Int) (records : List Record) :
    (messagesFrom offset records).map Message.record = records := by
  induction records generalizing offset with
  | nil => rfl
  | cons record rest ih => rw [messagesFrom, List.map_cons, ih]

/-- What fits into the bytes is at least the first message. -/
theorem takeBytes_messagesFrom (maxBytes total offset : Int) (records : List Record) :
    ∃ count, takeBytes maxBytes total (messagesFrom offset records) =
        messagesFrom offset (records.take count) ∧
      (total < maxBytes → 0 < count) := by
  induction records generalizing total offset with
  | nil => exact ⟨1, rfl, fun _ => Nat.one_pos⟩
  | cons record rest ih =>
    rw [messagesFrom, takeBytes]
    split_ifs with hfull
    · exact ⟨0, rfl, fun hlt => absurd hfull (not_le.mpr hlt)⟩
    · obtain ⟨count, htake, -⟩ := ih _ _
      exact ⟨count + 1, by rw [htake]; rfl, fun _ => Nat.succ_pos count⟩

variable {log : List Record} {pair : LeaderReplicator × FollowerReplicator}
  {fr : FollowerReplicator} {resp : FetchResponse}

/-- A follower appends what comes with its epoch. -/
theorem handleFetchResponse_messagesFrom {records : List Record}
    (hcode : resp.errorCode = .none) (hepoch : resp.leaderEpoch ≤ fr.leaderEpoch)
    (hmessages : resp.messages = messagesFrom fr.logEndOffset records) :
    ∃ mark stored, (fr.handleFetchResponse resp .none).1 = { fr with
      logEndOffset := fr.logEndOffset + records.length
      highWaterMark := mark
      storage := ⟨fr.storage.log ++ records, stored⟩ } := by
  have hraised : ∃ mark stored, fr.raiseHighWaterMark resp .none = { fr with
      highWaterMark := mark, storage := ⟨fr.storage.log, stored⟩ } := by
    unfold raiseHighWaterMark
    split
    · exact ⟨resp.highWaterMark, resp.highWaterMark, rfl⟩
    · exact ⟨fr.highWaterMark, fr.storage.highWaterMark, rfl⟩
  obtain ⟨mark, stored, hraised⟩ := hraised
  refine ⟨mark, stored, ?_⟩
  simp only [handleFetchResponse, hcode, updateEpoch, not_lt.mpr hepoch, ne_eq,
    not_true_eq_false, false_and, if_false, hraised, appendMessages, hmessages]
  rcases records.eq_nil_or_concat with rfl | ⟨front, last, rfl⟩
  · simp [messagesFrom]
  · simp [messagesFrom_concat, StorageFaults.none]
    ring

section

variable (hfollows : Follows log pair)
  (hpositive : 0 < pair.2.config.fetchMaxBytes)
  (hepoch : pair.1.leaderEpoch ≤ pair.2.leaderEpoch)

include hfollows hpositive hepoch

/-- The answer to a follower with the leader's epoch: records behind its end,
at least one if the follower asks for a kilobyte. -/
theorem Follows.answer (now : Int) :
    ∃ resp count, pair.1.handleFetchRequest (readRange log) pair.2.performFetch now =
          (pair.1.recordFetch pair.2.performFetch now, resp) ∧
      resp.errorCode = .none ∧ resp.leaderEpoch = pair.1.leaderEpoch ∧
      resp.messages = messagesFrom pair.2.logEndOffset
        ((log.drop pair.2.logEndOffset.toNat).take count) ∧
      (pair.2.logEndOffset < log.length →
        (0 < count ↔ 1024 ≤ pair.2.config.fetchMaxBytes)) := by
  obtain ⟨lr, fr⟩ := pair
  obtain ⟨htopic, hpartition, hmember, hleader, stored, hle, hend, -⟩ := hfollows
  dsimp only at *
  have hfetch : lr.handleFetchRequest (readRange log) fr.performFetch now =
      (lr.recordFetch fr.performFetch now,
        (lr.recordFetch fr.performFetch now).serve (readRange log)
          fr.performFetch) := by
    simp [LeaderReplicator.handleFetchRequest, performFetch, htopic,
      hpartition, Option.isSome_iff_ne_none.mp hmember, not_lt.mpr hepoch]
  have hrange : ¬(fr.logEndOffset < 0 ∨ lr.logEndOffset < fr.logEndOffset) := by
    omega
  by_cases hcaught : lr.logEndOffset ≤ fr.logEndOffset
  · refine ⟨_, 0, hfetch, ?_⟩
    simp only [LeaderReplicator.serve, LeaderReplicator.recordFetch,
      performFetch, hrange, hcaught, if_true, if_false]
    exact ⟨rfl, rfl, rfl, fun hlt => by omega⟩
  · obtain ⟨count, htake, hsome⟩ := takeBytes_messagesFrom
      fr.config.fetchMaxBytes 0 fr.logEndOffset
      ((log.drop fr.logEndOffset.toNat).take (min (fr.logEndOffset +
        fr.config.fetchMaxBytes.tdiv 1024) lr.logEndOffset - fr.logEndOffset).toNat)
    rw [List.take_take] at htake
    refine ⟨_, min count (min (fr.logEndOffset + fr.config.fetchMaxBytes.tdiv
      1024) lr.logEndOffset - fr.logEndOffset).toNat, hfetch, ?_⟩
    simp only [LeaderReplicator.serve, LeaderReplicator.recordFetch,
      performFetch, hrange, hcaught, if_false, readRange, htake]
    refine ⟨rfl, rfl, trivial, fun _ => ?_⟩
    have hdiv := Int.tdiv_eq_ediv_of_nonneg (b := 1024) hpositive.le
    rw [hdiv]
    have hcount := hsome hpositive
    omega

/-- A round with the leader's epoch keeps the follower's log a beginning of the
leader's, and appends something if the follower asks for a kilobyte. -/
theorem Follows.round (now : Int) : Follows log (round log pair now) ∧
      (round log pair now).2.config = pair.2.config ∧
      (round log pair now).1.leaderEpoch ≤ (round log pair now).2.leaderEpoch ∧
      (pair.2.logEndOffset < log.length →
        (pair.2.logEndOffset < (round log pair now).2.logEndOffset ↔
          1024 ≤ pair.2.config.fetchMaxBytes)) := by
  obtain ⟨resp, count, hfetch, hcode, hnew, hmessages, hprogress⟩ :=
    hfollows.answer hpositive hepoch now
  obtain ⟨mark, stored, hresult⟩ :=
    handleFetchResponse_messagesFrom hcode (hnew ▸ hepoch) hmessages
  obtain ⟨lr, fr⟩ := pair
  obtain ⟨htopic, hpartition, hmember, hleader, copied, hle, hend, hcopy⟩ :=
    hfollows
  dsimp only at *
  have htoNat : fr.logEndOffset.toNat = copied := by omega
  have hlength : ((log.drop copied).take count).length =
      min count (log.length - copied) := by simp
  simp only [FollowerReplicator.round, hfetch, hresult, htoNat]
  refine ⟨⟨htopic, hpartition, ?_, hleader, min (copied + count) log.length,
    min_le_right _ _, ?_, ?_⟩, trivial, hepoch, fun hbehind => ?_⟩
  · simp [LeaderReplicator.recordFetch, performFetch]
  · simp only [hlength]
    omega
  · simp only [hcopy]
    rw [← List.take_add, List.take_eq_take_min]
  · rw [← hprogress hbehind, hlength]
    omega

end

/-- A follower behind its leader catches up exactly if it asks for a kilobyte
and knows the leader's epoch. -/
theorem catchesUp_iff (log : List Record) (clock : Nat → Int)
    (pair : LeaderReplicator × FollowerReplicator)
    (hfollows : Follows log pair) (hbehind : pair.2.logEndOffset < log.length)
    (hpositive : 0 < pair.2.config.fetchMaxBytes) :
    CatchesUp log clock pair ↔ 1024 ≤ pair.2.config.fetchMaxBytes ∧
      pair.1.leaderEpoch ≤ pair.2.leaderEpoch := by
  constructor
  · rintro ⟨hprogress, -⟩
    have hfirst := hprogress 0 hbehind
    by_cases hepoch : pair.1.leaderEpoch ≤ pair.2.leaderEpoch
    · exact ⟨((hfollows.round hpositive hepoch (clock 0)).2.2.2 hbehind).mp
        hfirst, hepoch⟩
    · obtain ⟨htopic, hpartition, hmember, -⟩ := hfollows
      simp [rounds, FollowerReplicator.round,
        LeaderReplicator.handleFetchRequest, performFetch, htopic, hpartition,
        Option.isSome_iff_ne_none.mp hmember, not_le.mp hepoch,
        LeaderReplicator.refuse, handleFetchResponse, handleFetchError] at hfirst
  · rintro ⟨hkilobyte, hepoch⟩
    have hrounds : ∀ n, Follows log (rounds log clock pair n) ∧
        (rounds log clock pair n).2.config = pair.2.config ∧
        (rounds log clock pair n).1.leaderEpoch ≤
          (rounds log clock pair n).2.leaderEpoch := by
      intro n
      induction n with
      | zero => exact ⟨hfollows, rfl, hepoch⟩
      | succ n ih =>
        obtain ⟨hbefore, hconfig, hknown⟩ := ih
        obtain ⟨hafter, hsame, hstill, -⟩ :=
          hbefore.round (hconfig ▸ hpositive) hknown (clock n)
        exact ⟨hafter, hsame.trans hconfig, hstill⟩
    have hprogress : ∀ n, (rounds log clock pair n).2.logEndOffset < log.length →
          (rounds log clock pair n).2.logEndOffset <
            (rounds log clock pair (n + 1)).2.logEndOffset := by
      intro n hlt
      obtain ⟨hbefore, hconfig, hknown⟩ := hrounds n
      exact ((hbefore.round (hconfig ▸ hpositive) hknown (clock n)).2.2.2
        hlt).mpr (hconfig ▸ hkilobyte)
    refine ⟨hprogress, ?_⟩
    by_contra hnever
    have hbelow : ∀ n, 0 ≤ (rounds log clock pair n).2.logEndOffset ∧
        (rounds log clock pair n).2.logEndOffset < log.length := by
      intro n
      obtain ⟨-, -, -, -, copied, hle, hend, -⟩ := (hrounds n).1
      have hne : (copied : Int) ≠ log.length := fun heq =>
        hnever ⟨n, hend.trans heq⟩
      rw [hend]
      omega
    -- then every round brings the end a record closer
    have hreach : ∀ n : Nat, n ≤ (rounds log clock pair n).2.logEndOffset := by
      intro n
      induction n with
      | zero => exact (hbelow 0).1
      | succ n ih =>
        have hstep := hprogress n (hbelow n).2
        push_cast
        omega
    exact absurd (hbelow log.length).2 (not_lt.mpr (hreach log.length))

/-- A follower that asks for a megabyte fetches three records. -/
theorem catchesUp_megabyte : CatchesUp (emptyRecords 3) (fun _ => 0)
      (settledLeader 3, emptyFollower 1048576) :=
  (catchesUp_iff _ _ _ ⟨rfl, rfl, by decide +kernel, rfl, 0, by decide, rfl,
    rfl⟩ (by decide +kernel) (by decide)).mpr (by decide +kernel)

/-- A follower that asks for 1023 bytes gets nothing, however often it asks. -/
theorem not_catchesUp_1023 : ¬ CatchesUp (emptyRecords 1) (fun _ => 0)
      (settledLeader 1, emptyFollower 1023) := by
  intro hcatches
  have hfirst := hcatches.1 0 (by decide +kernel)
  exact absurd hfirst (by decide +kernel)

end FollowerReplicator

end Streambus.Replication
