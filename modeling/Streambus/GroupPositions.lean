/-
A member of a consumer group on the client's side.  It joins the group, takes
over the positions the group has committed for the partitions it is assigned,
and fetches from each of them in turn.  The positions it commits are where its
fetches have got to, whether or not the `Poll` that a fetch belongs to returns
what it brought.
-/
import Streambus.OffsetStorage
import Streambus.Partition

namespace Streambus.Client

open List

open Streambus.Group (VisitOrder)

inductive ConsumerState
  | unjoined
  | joining
  | rebalancing
  | stable
deriving DecidableEq

/-- A value for each of some partitions. -/
abbrev ByPartition (ν : Type) := OrderedMap Bytes (OrderedMap Int ν)

namespace ByPartition

variable {ν : Type} (table : ByPartition ν)

def get? (topic : Bytes) (partition : Int) : Option ν :=
  (table.find? topic).bind fun row => row.find? partition

/-- A topic without an entry gets one. -/
def set (topic : Bytes) (partition : Int) (value : ν) : ByPartition ν :=
  table.insert topic (((table.find? topic).getD ∅).insert partition value)

end ByPartition

abbrev Positions := ByPartition Int

/-- A partition without a position is read from the start. -/
def Positions.start (positions : Positions) (topic : Bytes) (partition : Int) : Int :=
  (ByPartition.get? positions topic partition).getD 0

abbrev Assignment := OrderedMap Bytes (List Int)

/-- No topic is assigned a partition twice. -/
def Assignment.Once (assignment : Assignment) : Prop :=
  ∀ entry ∈ assignment.entries, entry.2.Nodup
deriving Decidable

def Assignment.count (assignment : Assignment) : Nat :=
  (assignment.entries.map fun entry => entry.2.length).sum

structure GroupConsumer where
  memberId : Bytes
  generationId : Int32
  assignment : Assignment
  /-- The next offset to fetch. -/
  positions : Positions
  /-- The coordinator has told of a rebalance. -/
  rejoinNeeded : Bool
  state : ConsumerState
deriving DecidableEq

def newGroupConsumer : GroupConsumer :=
  ⟨[], 0, ∅, ∅, false, .unjoined⟩

/-- How a round of joining ends: without a membership, without an assignment
or the committed offsets, or with both. -/
inductive JoinOutcome
  | refused
  | unassigned (memberId : Bytes) (generationId : Int32)
  | assigned (memberId : Bytes) (generationId : Int32)
      (assignment : Assignment) (committed : Positions)

/-- What a fetch brings, or nothing where it fails. -/
abbrev FetchAnswer := Option (List ProtocolMessage)

abbrev PollResult := ByPartition (List ProtocolMessage)

inductive PollError
  | notSubscribed
  | rejoining
  | fetching (topic : Bytes) (partition : Int)
deriving DecidableEq

inductive HeartbeatAnswer
  | failed
  | ok
  | unknownMember
  | stale
deriving DecidableEq

inductive CommitAnswer
  | failed
  | ok
  | stale
  | otherError
deriving DecidableEq

namespace GroupConsumer

variable (gc : GroupConsumer)

def applyAssignment (assignment : Assignment) (committed : Positions) :
    GroupConsumer :=
  { gc with
    assignment
    positions := assignment.mapValues fun topic partitions =>
      OrderedMap.ofEntries (partitions.map fun partition =>
        (partition, committed.start topic partition))
    state := .stable
    rejoinNeeded := false }

def joinGroup : JoinOutcome → GroupConsumer × Bool
  | .refused => (gc, false)
  | .unassigned memberId generationId =>
    ({ gc with memberId, generationId, state := .rebalancing }, false)
  | .assigned memberId generationId assignment committed =>
    ({ gc with memberId, generationId, state := .rebalancing }
      |>.applyAssignment assignment committed, true)

def subscribe (outcome : JoinOutcome) : GroupConsumer × Bool :=
  if gc.state ≠ .unjoined then (gc, false)
  else
    let (joined, ok) := { gc with state := .joining }.joinGroup outcome
    if ok then (joined, true)
    else ({ joined with state := .unjoined }, false)

def markRejoinNeeded : GroupConsumer :=
  { gc with
    rejoinNeeded := true
    state := if gc.state = .stable then .rebalancing else gc.state }

def rejoin (outcome : JoinOutcome) : GroupConsumer × Bool :=
  let (joined, ok) :=
    { gc with state := .rebalancing, rejoinNeeded := false }.joinGroup outcome
  if ok then (joined, true) else (joined.markRejoinNeeded, false)

def heartbeatOnce (answer : HeartbeatAnswer) :
    GroupConsumer :=
  if gc.state ≠ .stable ∨ gc.memberId = [] then gc
  else match answer with
    | .failed => gc
    | .ok => gc
    | .stale => gc.markRejoinNeeded
    | .unknownMember =>
      { gc with memberId := [], rejoinNeeded := true, state := .rebalancing }

/-- The offset to resume from. -/
def nextOffset (offset : Int) (messages : List ProtocolMessage) : Int :=
  messages.foldl (fun next message =>
    if message.offset ≥ next then message.offset + 1 else next) offset

def fetchPartition (answer : FetchAnswer) (offset : Int) :
    Option (List ProtocolMessage × Int) :=
  answer.map fun messages => (messages, nextOffset offset messages)

/-- A `Poll` under way. -/
structure Polling where
  /-- The positions of the consumer. -/
  positions : Positions
  /-- The answers to the fetches to come. -/
  answers : List FetchAnswer
  /-- What the fetches have brought so far. -/
  fetched : List ((Bytes × Int) × List ProtocolMessage)

/-- The fetch of one partition came back. -/
def Polling.advance (polling : Polling) (topic : Bytes) (partition : Int)
    (messages : List ProtocolMessage) (next : Int) : Polling where
  positions := polling.positions.set topic partition next
  answers := polling.answers.tail
  fetched := polling.fetched ++ [((topic, partition), messages)]

/-- The loop over the partitions of a topic.  The position of a partition has
moved before the next one is fetched. -/
def pollPartitions (starts : Positions) (topic : Bytes) :
    List Int → Polling → OrderedMap Int (List ProtocolMessage) →
      Polling × Except PollError (OrderedMap Int (List ProtocolMessage))
  | [], polling, row => (polling, .ok row)
  | partition :: rest, polling, row =>
    match fetchPartition (polling.answers.headD none)
        (starts.start topic partition) with
    | none => (polling, .error (.fetching topic partition))
    | some (messages, next) =>
      pollPartitions starts topic rest (polling.advance topic partition messages next)
        (row.insert partition messages)

def pollTopics (starts : Positions) : List (Bytes × List Int) → Polling → PollResult →
      Polling × Except PollError PollResult
  | [], polling, result => (polling, .ok result)
  | (topic, partitions) :: rest, polling, result =>
    match pollPartitions starts topic partitions polling ∅ with
    | (polling, .error err) => (polling, .error err)
    | (polling, .ok row) =>
      pollTopics starts rest polling (result.insert topic row)

/-- What a `Poll` leaves and returns, and what the broker returned to it. -/
structure PollReturn where
  consumer : GroupConsumer
  fetched : List ((Bytes × Int) × List ProtocolMessage)
  result : Except PollError PollResult

def fetchAssigned (order : VisitOrder (Bytes × List Int))
    (answers : List FetchAnswer) :
    PollReturn :=
  let (polling, result) := pollTopics gc.positions
    (order.visit gc.assignment.entries) ⟨gc.positions, answers, []⟩ ∅
  ⟨{ gc with positions := polling.positions }, polling.fetched, result⟩

/-- The consumer that the fetches of a `Poll` start from. -/
def polled (outcome : JoinOutcome) : GroupConsumer × Bool :=
  if gc.rejoinNeeded = true ∨ gc.state ≠ .stable then gc.rejoin outcome
  else (gc, true)

def poll (outcome : JoinOutcome) (order : VisitOrder (Bytes × List Int))
    (answers : List FetchAnswer) :
    PollReturn :=
  if gc.state = .unjoined then ⟨gc, [], .error .notSubscribed⟩
  else
    let (gc, ok) := gc.polled outcome
    if ok then gc.fetchAssigned order answers
    else ⟨gc, [], .error .rejoining⟩

/-- The offsets that `CommitSync(nil)` sends, where it sends any. -/
def commitOffsets : Option Positions :=
  if gc.state = .unjoined ∨ gc.memberId = [] then none
  else if gc.positions = ∅ then none
  else some gc.positions

def commitSync (answer : CommitAnswer) : GroupConsumer :=
  match gc.commitOffsets, answer with
  | some _, .stale => gc.markRejoinNeeded
  | _, _ => gc

end GroupConsumer

namespace GroupConsumer

/-- The loop over a topic's partitions reports every fetch, and writes what
each of them brought. -/
theorem pollPartitions_fetched (starts : Positions) (topic : Bytes)
    (partitions : List Int) (polling : Polling)
    (row : OrderedMap Int (List ProtocolMessage)) :
    ∃ batch : List (Int × List ProtocolMessage),
      (pollPartitions starts topic partitions polling row).1.fetched =
        polling.fetched ++ batch.map (fun entry => ((topic, entry.1), entry.2)) ∧
      ∀ out, (pollPartitions starts topic partitions polling row).2 = .ok out →
        out = row.writes batch ∧ batch.map Prod.fst = partitions := by
  induction partitions generalizing polling row with
  | nil =>
    refine ⟨[], (append_nil _).symm, ?_⟩
    rintro out ⟨⟩
    exact ⟨rfl, rfl⟩
  | cons partition rest ih =>
    rw [pollPartitions]
    split
    · exact ⟨[], (append_nil _).symm, fun out hout => nomatch hout⟩
    next messages next _ =>
      obtain ⟨batch, hfetched, hdone⟩ := ih
        (polling.advance topic partition messages next)
        (row.insert partition messages)
      refine ⟨(partition, messages) :: batch, ?_, ?_⟩
      · rw [hfetched, Polling.advance, append_assoc]
        rfl
      · intro out hout
        obtain ⟨hwrites, hkeys⟩ := hdone out hout
        exact ⟨hwrites, congrArg (partition :: ·) hkeys⟩

/-- What the fetches of one topic brought. -/
abbrev TopicFetches := Bytes × List (Int × List ProtocolMessage)

variable (fetches : TopicFetches)

def TopicFetches.listed : List ((Bytes × Int) × List ProtocolMessage) :=
  fetches.2.map fun entry => ((fetches.1, entry.1), entry.2)

def TopicFetches.row : Bytes × OrderedMap Int (List ProtocolMessage) :=
  (fetches.1, OrderedMap.writes ∅ fetches.2)

theorem pollTopics_fetched {starts : Positions}
    (visits : List (Bytes × List Int)) (polling : Polling)
    (result out : PollResult)
    (hout : (pollTopics starts visits polling result).2 = .ok out) :
    ∃ rows : List TopicFetches, (pollTopics starts visits polling result).1.fetched =
        polling.fetched ++ rows.flatMap TopicFetches.listed ∧
      rows.map (fun fetches => (fetches.1, fetches.2.map Prod.fst)) = visits ∧
      out = result.writes (rows.map TopicFetches.row) := by
  induction visits generalizing polling result with
  | nil =>
    cases hout
    exact ⟨[], (append_nil _).symm, rfl, rfl⟩
  | cons visit rest ih =>
    obtain ⟨topic, partitions⟩ := visit
    obtain ⟨batch, hfetched, hdone⟩ :=
      pollPartitions_fetched starts topic partitions polling ∅
    rw [pollTopics] at hout ⊢
    split at hout
    · exact nomatch hout
    next after row hrow =>
      rw [hrow] at hfetched hdone
      obtain ⟨hwrites, hkeys⟩ := hdone row rfl
      obtain ⟨rows, hlisted, hvisits, hresult⟩ := ih after _ hout
      refine ⟨(topic, batch) :: rows, ?_, ?_, ?_⟩
      · rw [hlisted, hfetched, append_assoc]
        rfl
      · rw [map_cons, hvisits, hkeys]
      · rw [hresult, hwrites]
        rfl

/-- What the fetches of some partitions bring, up to one that fails. -/
def brought : Nat → List FetchAnswer → List (List ProtocolMessage)
  | count + 1, some messages :: answers => messages :: brought count answers
  | _, _ => []

theorem brought_add (count more : Nat) (answers : List FetchAnswer) :
    brought (count + more) answers = brought count answers ++
      if (brought count answers).length = count then
        brought more (answers.drop count)
      else [] := by
  induction count generalizing answers with
  | zero => simp [brought]
  | succ count ih =>
    rw [Nat.succ_add]
    rcases answers with _ | ⟨_ | messages, answers⟩ <;> simp [brought, ih]

theorem pollPartitions_brought (starts : Positions) (topic : Bytes)
    (partitions : List Int) (polling : Polling)
    (row : OrderedMap Int (List ProtocolMessage)) :
    let back := pollPartitions starts topic partitions polling row
    let there := brought partitions.length polling.answers
    back.1.fetched.map Prod.snd = polling.fetched.map Prod.snd ++ there ∧
      (back.2.isOk = true → there.length = partitions.length ∧
        back.1.answers = polling.answers.drop partitions.length) ∧
      (back.2.isOk = false → there.length < partitions.length) := by
  induction partitions generalizing polling row with
  | nil => simp [pollPartitions, brought, Except.isOk, Except.toBool]
  | cons partition rest ih =>
    rcases hanswers : polling.answers with _ | ⟨_ | messages, answers⟩
    · simp [pollPartitions, fetchPartition, brought, hanswers, Except.isOk,
        Except.toBool]
    · simp [pollPartitions, fetchPartition, brought, hanswers, Except.isOk,
        Except.toBool]
    · have hrest := ih (polling.advance topic partition messages
        (nextOffset (starts.start topic partition) messages))
        (row.insert partition messages)
      simpa [pollPartitions, fetchPartition, brought, hanswers,
        Polling.advance] using hrest

/-- A `Poll` brings what its fetches bring up to one that fails, and it fails
if one does. -/
theorem pollTopics_brought (starts : Positions)
    (visits : List (Bytes × List Int)) (polling : Polling)
    (result : PollResult) :
    let back := pollTopics starts visits polling result
    let count := (visits.map fun visit => visit.2.length).sum
    back.1.fetched.map Prod.snd =
        polling.fetched.map Prod.snd ++ brought count polling.answers ∧
      (back.2.isOk = false → (brought count polling.answers).length < count) := by
  induction visits generalizing polling result with
  | nil => simp [pollTopics, brought, Except.isOk, Except.toBool]
  | cons visit rest ih =>
    obtain ⟨topic, partitions⟩ := visit
    have hrow := pollPartitions_brought starts topic partitions polling ∅
    intro back count
    -- the row's fetches come first, and the others only if they all came back
    have hadd := brought_add partitions.length
      (rest.map fun visit => visit.2.length).sum polling.answers
    simp only [back, count, map_cons, sum_cons, hadd, pollTopics]
    rcases hback : pollPartitions starts topic partitions polling ∅ with
      ⟨after, err | row⟩
    all_goals
      rw [hback] at hrow
      obtain ⟨hfetched, hdone, hfails⟩ := hrow
    · have hshort := hfails rfl
      rw [if_neg hshort.ne, append_nil]
      exact ⟨hfetched, fun _ => Nat.lt_add_right _ hshort⟩
    · obtain ⟨hall, hanswers⟩ := hdone rfl
      obtain ⟨hrest, hless⟩ := ih after (result.insert topic row)
      rw [hanswers] at hrest hless
      rw [if_pos hall, length_append, hall]
      refine ⟨?_, fun herror => Nat.add_lt_add_left (hless herror) _⟩
      rw [hrest, hfetched, append_assoc]

/-- Fetches that all come back are all returned. -/
theorem fetchAssigned_delivers {gc : GroupConsumer}
    {order : VisitOrder (Bytes × List Int)} {answers : List FetchAnswer}
    (honce : gc.assignment.Once) {result : PollResult}
    (hresult : (gc.fetchAssigned order answers).result = .ok result)
    {topic : Bytes} {partition : Int} {messages : List ProtocolMessage}
    (hfetched : ((topic, partition), messages) ∈
      (gc.fetchAssigned order answers).fetched) :
    result.get? topic partition = some messages := by
  obtain ⟨rows, hlisted, hvisits, hwrites⟩ := pollTopics_fetched
    (order.visit gc.assignment.entries) ⟨gc.positions, answers, []⟩ ∅ result
    hresult
  change _ ∈ (pollTopics gc.positions (order.visit gc.assignment.entries)
    ⟨gc.positions, answers, []⟩ ∅).1.fetched at hfetched
  rw [hlisted, nil_append, mem_flatMap] at hfetched
  obtain ⟨fetches, hmem, hentry⟩ := hfetched
  obtain ⟨entry, hbatch, heq⟩ := mem_map.mp hentry
  cases heq
  have hperm := order.perm gc.assignment.entries
  rw [← hvisits] at hperm
  have htopics : ((rows.map TopicFetches.row).map Prod.fst).Nodup := by
    have hkeys := (hperm.map Prod.fst).nodup_iff.mpr
      (gc.assignment.keys_pairwise.imp ne_of_lt)
    rw [map_map] at hkeys ⊢
    exact hkeys
  have hparts : (fetches.2.map Prod.fst).Nodup :=
    honce _ (hperm.mem_iff.mp (mem_map_of_mem hmem))
  have hrow := OrderedMap.find?_writes_of_nodup htopics (mem_map_of_mem hmem) ∅
  have hcell := OrderedMap.find?_writes_of_nodup hparts hbatch ∅
  rw [hwrites, ByPartition.get?, hrow]
  exact hcell

/-- A `Poll` that fails has brought what its fetches brought before. -/
theorem fetchAssigned_brought (gc : GroupConsumer)
    (order : VisitOrder (Bytes × List Int)) (answers : List FetchAnswer) :
    let back := gc.fetchAssigned order answers
    let there := brought gc.assignment.count answers
    back.fetched.map Prod.snd = there ∧
      (back.result.isOk = false → there.length < gc.assignment.count) := by
  have hcount := ((order.perm gc.assignment.entries).map
    fun entry => entry.2.length).sum_eq
  have hback := pollTopics_brought gc.positions
    (order.visit gc.assignment.entries) ⟨gc.positions, answers, []⟩ ∅
  rw [hcount] at hback
  exact hback

/-- The assignment that a `Poll` reads: the one in force, or the one that the
member joins again with. -/
def reads (gc : GroupConsumer) (outcome : JoinOutcome) : Assignment :=
  if gc.rejoinNeeded = true ∨ gc.state ≠ .stable then
    match outcome with
    | .assigned _ _ assignment _ => assignment
    | _ => ∅
  else gc.assignment

theorem assignment_polled {gc : GroupConsumer} {outcome : JoinOutcome}
    (hok : (gc.polled outcome).2 = true) :
    (gc.polled outcome).1.assignment = gc.reads outcome := by
  unfold polled reads at *
  split
  next hrejoin =>
    rw [if_pos hrejoin] at hok
    cases outcome with
    | assigned => rfl
    | refused | unassigned => exact nomatch hok
  next => rfl

end GroupConsumer

/-- A member with what has happened to it. -/
structure ConsumerRun where
  consumer : GroupConsumer
  /-- The positions that the assignment in force started from. -/
  started : Positions
  /-- What the broker has returned to the member. -/
  returned : List ((Bytes × Int) × ProtocolMessage)
  /-- The results of the `Poll`s that returned without an error. -/
  results : List PollResult

inductive ConsumerOp
  | subscribe (outcome : JoinOutcome)
  | poll (outcome : JoinOutcome) (order : VisitOrder (Bytes × List Int))
      (answers : List FetchAnswer)
  | heartbeat (answer : HeartbeatAnswer)
  | commit (answer : CommitAnswer)

namespace ConsumerRun

def start : ConsumerRun := ⟨newGroupConsumer, ∅, [], []⟩

variable (run : ConsumerRun) {outcome : JoinOutcome}

/-- A round of joining that ends well starts an assignment. -/
def startedBy (joined : GroupConsumer × Bool) :
    Positions :=
  if joined.2 then joined.1.positions else run.started

def afterPoll (outcome : JoinOutcome) (back : GroupConsumer.PollReturn) :
    ConsumerRun where
  consumer := back.consumer
  started :=
    if run.consumer.state ≠ .unjoined ∧ (run.consumer.rejoinNeeded = true ∨
        run.consumer.state ≠ .stable) then
      run.startedBy (run.consumer.rejoin outcome)
    else run.started
  returned := run.returned ++ back.fetched.flatMap fun fetch =>
    fetch.2.map fun message => (fetch.1, message)
  results := match back.result with
    | .ok result => run.results ++ [result]
    | .error _ => run.results

def step : ConsumerOp → ConsumerRun
  | .subscribe outcome =>
    { run with
      consumer := (run.consumer.subscribe outcome).1
      started := run.startedBy (run.consumer.subscribe outcome) }
  | .poll outcome order answers =>
    run.afterPoll outcome (run.consumer.poll outcome order answers)
  | .heartbeat answer =>
    { run with consumer := run.consumer.heartbeatOnce answer }
  | .commit answer =>
    { run with consumer := run.consumer.commitSync answer }

/-- A `Poll` that returned without an error had the message in its result. -/
def Delivered (topic : Bytes) (partition : Int) (message : ProtocolMessage) :
    Prop :=
  ∃ result ∈ run.results, ∃ messages,
    result.get? topic partition = some messages ∧ message ∈ messages

/-- An offset that `CommitSync(nil)` would commit here has only delivered
messages below it, of those the broker has returned from the position that
the member started at. -/
def CommitsDelivered : Prop :=
  ∀ offsets, run.consumer.commitOffsets = some offsets → ∀ topic partition committed,
      offsets.get? topic partition = some committed →
        ∀ message, ((topic, partition), message) ∈ run.returned →
          run.started.start topic partition ≤ message.offset →
            message.offset < committed → run.Delivered topic partition message

/-- The fetches of some partitions all come back, or they bring nothing before
one fails. -/
def Answered (count : Nat) (answers : List FetchAnswer) : Prop :=
  (GroupConsumer.brought count answers).length = count ∨
    ∀ messages ∈ GroupConsumer.brought count answers, messages = []
deriving Decidable

/-- A `Poll` is assigned no partition twice, and no fetch of it fails after
another has brought messages. -/
def Whole : ConsumerOp → Prop
  | .poll outcome _ answers => run.consumer.state ≠ .unjoined →
    (run.consumer.reads outcome).Once ∧
      Answered (run.consumer.reads outcome).count answers
  | _ => True

instance (run : ConsumerRun) (op : ConsumerOp) : Decidable (run.Whole op) := by
  cases op <;> unfold Whole <;> infer_instance

/-- All that the broker has returned has been delivered. -/
def Caught : Prop :=
  ∀ topic partition message, ((topic, partition), message) ∈ run.returned →
    run.Delivered topic partition message

theorem caught_start : start.Caught := fun _ _ _ hmem => nomatch hmem

theorem caught_afterPoll {run : ConsumerRun} (hrun : run.Caught)
    {back : GroupConsumer.PollReturn}
    (hdelivers : ∀ result, back.result = .ok result → ∀ topic partition messages,
        ((topic, partition), messages) ∈ back.fetched →
          result.get? topic partition = some messages)
    (hfails : back.result.isOk = false → ∀ fetch ∈ back.fetched, fetch.2 = []) :
    (run.afterPoll outcome back).Caught := by
  intro topic partition message hmem
  rcases mem_append.mp hmem with hold | hnew
  · obtain ⟨result, hresult, hfound⟩ := hrun topic partition message hold
    refine ⟨result, ?_, hfound⟩
    unfold afterPoll
    dsimp only
    split
    · exact mem_append_left _ hresult
    · exact hresult
  · obtain ⟨⟨key, messages⟩, hfetch, hmessage⟩ := mem_flatMap.mp hnew
    obtain ⟨_, hin, heq⟩ := mem_map.mp hmessage
    cases heq
    cases hresult : back.result with
    | error err =>
      rw [hfails (by rw [hresult]; rfl) _ hfetch] at hin
      exact nomatch hin
    | ok result =>
      refine ⟨result, ?_, messages, hdelivers result hresult _ _ _ hfetch, hin⟩
      rw [afterPoll, hresult]
      exact mem_append_right _ (mem_singleton_self result)

theorem caught_step {run : ConsumerRun} (hrun : run.Caught) {op : ConsumerOp}
    (hwhole : run.Whole op) : (run.step op).Caught := by
  cases op with
  | subscribe outcome => exact hrun
  | poll outcome order answers =>
    change (run.afterPoll outcome _).Caught
    unfold GroupConsumer.poll
    split
    · exact caught_afterPoll hrun (fun _ hresult => nomatch hresult)
        fun _ _ hfetch => nomatch hfetch
    next hstate =>
      obtain ⟨honce, hanswered⟩ := hwhole hstate
      dsimp only
      split
      next hjoined =>
        rw [← GroupConsumer.assignment_polled hjoined] at honce hanswered
        obtain ⟨hfetched, hfails⟩ := GroupConsumer.fetchAssigned_brought
          (run.consumer.polled outcome).1 order answers
        refine caught_afterPoll hrun (fun result hresult _ _ _ =>
          GroupConsumer.fetchAssigned_delivers honce hresult) ?_
        intro herror fetch hfetch
        refine (hanswered.resolve_left (hfails herror).ne) fetch.2 ?_
        rw [← hfetched]
        exact mem_map_of_mem hfetch
      next =>
        exact caught_afterPoll hrun (fun _ hresult => nomatch hresult)
          fun _ _ hfetch => nomatch hfetch
  | heartbeat answer | commit answer => exact hrun

/-- Where no fetch of a `Poll` fails after another brought messages, the
committed positions pass delivered messages only. -/
theorem commitsDelivered_of_whole {ops : List ConsumerOp}
    (hwhole : AllAllowed step Whole start ops) :
    (runSteps step start ops).CommitsDelivered := by
  have hcaught : (runSteps step start ops).Caught :=
    hwhole.invariant Caught (fun _ _ hrun hop => caught_step hrun hop) caught_start
  intro _ _ topic partition _ _ message hreturned _ _
  exact hcaught topic partition message hreturned

/-- A topic with two partitions, both assigned to one member. -/
def orders : Bytes := [111]

def joins (committed : Positions) : JoinOutcome :=
  .assigned [109] 1 (OrderedMap.ofEntries [(orders, [0, 1])]) committed

def placed (offset : Int) : ProtocolMessage := ⟨offset, [], [], ∅, 0⟩

/-- The member reads a message from each partition and commits.  A fetch of
the first partition fails, then the group rebalances and the member goes on
from where it had committed. -/
def rebalanced : List ConsumerOp :=
  [.subscribe (joins ∅),
    .poll .refused VisitOrder.sorted [some [placed 0], some [placed 0]],
    .commit .ok, .poll .refused VisitOrder.sorted [none],
    .heartbeat .stale,
    .poll (joins (OrderedMap.ofEntries
        [(orders, OrderedMap.ofEntries [(0, 1), (1, 1)])]))
      VisitOrder.sorted [some [placed 1], some []]]

theorem commitsDelivered_of_whole_rebalanced :
    AllAllowed step Whole start rebalanced ∧
      (runSteps step start rebalanced).consumer.commitOffsets =
        some (OrderedMap.ofEntries
          [(orders, OrderedMap.ofEntries [(0, 2), (1, 1)])]) ∧
      (runSteps step start rebalanced).CommitsDelivered := by
  have hwhole : AllAllowed step Whole start rebalanced := by decide +kernel
  exact ⟨hwhole, by decide +kernel, commitsDelivered_of_whole hwhole⟩

/-- The fetch of the second partition fails after the first has brought a
message. -/
def halfPolled : List ConsumerOp :=
  [.subscribe (joins ∅), .poll .refused VisitOrder.sorted [some [placed 0], none]]

/-- The member commits past a message that no `Poll` has returned. -/
theorem commits_undelivered :
    ¬ (runSteps step start halfPolled).CommitsDelivered := by
  intro hcommits
  have hoffsets : (runSteps step start halfPolled).consumer.commitOffsets =
      some (OrderedMap.ofEntries
        [(orders, OrderedMap.ofEntries [(0, 1), (1, 0)])]) := by
    decide +kernel
  have hresults : (runSteps step start halfPolled).results = [] := by
    decide +kernel
  obtain ⟨result, hresult, -⟩ := hcommits _ hoffsets orders 0 1
    (by decide +kernel) (placed 0) (by decide +kernel) (by decide +kernel)
    (by decide +kernel)
  exact nomatch hresult

end ConsumerRun

end Streambus.Client
