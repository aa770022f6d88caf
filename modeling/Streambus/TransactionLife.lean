/-
The life of one transaction, from its start to its completion.  While it is
ongoing a transaction takes on partitions, a consumer group and offsets; it is
prepared for one outcome, marked on its partitions, has its offsets published
if it commits, and completes.  What a life consists of is a list of events;
which event may follow which is what a transaction is for.
-/
import Mathlib.Data.String.Basic
import Streambus.OrderedMap

namespace Streambus

open List Option OrderedMap

inductive TransactionState where
  | empty
  | ongoing
  | prepareCommit
  | prepareAbort
  | completeCommit
  | completeAbort
deriving Repr, DecidableEq

namespace TransactionState

def prepare (commit : Bool) : TransactionState :=
  if commit then prepareCommit else prepareAbort

def complete (commit : Bool) : TransactionState :=
  if commit then completeCommit else completeAbort

/-- The states a transaction has been through when it is in a state. -/
def path : TransactionState → List TransactionState
  | empty => []
  | ongoing => [ongoing]
  | prepareCommit => [ongoing, prepareCommit]
  | prepareAbort => [ongoing, prepareAbort]
  | completeCommit => [ongoing, prepareCommit, completeCommit]
  | completeAbort => [ongoing, prepareAbort, completeAbort]

end TransactionState

structure PartitionMetadata where
  topic : String
  partition : Int
deriving Repr, DecidableEq

structure OffsetMetadata where
  offset : Int
  metadata : String
deriving Repr, DecidableEq

/-- Values by topic and partition. -/
abbrev PartitionMap (ν : Type) := OrderedMap String (OrderedMap Int ν)

namespace PartitionMap

variable {ν : Type}

def lookup (map : PartitionMap ν) (topic : String) (partition : Int) : Option ν :=
  (map.find? topic).bind fun inner => inner.find? partition

/-- Write the value of one partition. -/
def set (map : PartitionMap ν) (topic : String) (partition : Int) (value : ν) :
    PartitionMap ν :=
  map.insert topic (((map.find? topic).getD ∅).insert partition value)

/-- Write the values of one map into another, topic by topic. -/
def mergeAll (map other : PartitionMap ν) : PartitionMap ν :=
  other.entries.foldl (fun map entry =>
    map.insert entry.1 (((map.find? entry.1).getD ∅).merge entry.2)) map

end PartitionMap

/-- What can happen to a transaction. -/
inductive LifeEvent where
  | started
  | joined (partition : PartitionMetadata)
  | grouped (groupId : String)
  | acknowledged (offsets : PartitionMap OffsetMetadata)
  | prepared (commit : Bool)
  | marked (partition : PartitionMetadata) (commit succeeded : Bool)
  | published (groupId : String) (offsets : PartitionMap OffsetMetadata)
      (succeeded : Bool)
  | completed (commit : Bool)
deriving DecidableEq

/-- A transaction as far as it has come; `marked` are the partitions that have
a successful marker. -/
structure Life where
  state : TransactionState
  partitions : List PartitionMetadata
  groupId : String
  pendingOffsets : PartitionMap OffsetMetadata
  marked : List PartitionMetadata
deriving DecidableEq

namespace Life

def unborn : Life := ⟨.empty, [], "", ∅, []⟩

/-- Every partition has a successful marker. -/
def Done (life : Life) : Prop := ∀ partition ∈ life.partitions,
  partition ∈ life.marked
deriving Decidable

/-- The life after an event that may happen. -/
def next (life : Life) : LifeEvent → Option Life
  | .started =>
    if life.state = .empty then some { life with state := .ongoing } else none
  | .joined partition =>
    if life.state = .ongoing ∧ partition ∉ life.partitions then
      some { life with partitions := life.partitions ++ [partition] }
    else none
  | .grouped groupId =>
    if life.state = .ongoing ∧ (life.groupId = "" ∨ life.groupId = groupId) then
      some { life with groupId := groupId }
    else none
  | .acknowledged offsets =>
    if life.state = .ongoing ∧ life.groupId ≠ "" then
      some { life with
        pendingOffsets := life.pendingOffsets.mergeAll offsets }
    else none
  | .prepared commit =>
    if life.state = .ongoing then
      some { life with state := .prepare commit }
    else none
  | .marked partition commit succeeded =>
    if life.state = .prepare commit ∧ partition ∈ life.partitions then
      some { life with
        marked := if succeeded then partition :: life.marked else life.marked }
    else none
  | .published groupId offsets succeeded =>
    if life.state = .prepareCommit ∧ life.Done ∧ groupId = life.groupId ∧
        offsets = life.pendingOffsets ∧ life.pendingOffsets ≠ ∅ then
      some { life with
        pendingOffsets := if succeeded then ∅ else life.pendingOffsets }
    else none
  | .completed commit =>
    if life.state = .prepare commit ∧ life.Done ∧
        (commit = true → life.pendingOffsets = ∅) then
      some { life with state := .complete commit, pendingOffsets := ∅ }
    else none

/-- The life after events that may happen one after the other. -/
def run (life : Life) : List LifeEvent → Option Life
  | [] => some life
  | event :: rest => (life.next event).bind fun life => life.run rest

/-- The life that events amount to, if they may happen in this order. -/
def replay (events : List LifeEvent) : Option Life := unborn.run events

theorem run_append (life : Life) (front back : List LifeEvent) :
    life.run (front ++ back) = (life.run front).bind fun life => life.run back := by
  induction front generalizing life with
  | nil => rfl
  | cons event rest ih =>
    simp only [cons_append, run, bind_assoc]
    congr 1
    funext after
    exact ih after

theorem replay_append (front back : List LifeEvent) :
    replay (front ++ back) = (replay front).bind fun life => life.run back :=
  run_append unborn front back

end Life

/-- The states events lead through. -/
def statesOf (events : List LifeEvent) : List TransactionState :=
  events.filterMap fun
    | .started => some .ongoing
    | .prepared commit => some (.prepare commit)
    | .completed commit => some (.complete commit)
    | _ => none

/-- The partitions that joined. -/
def partitionsOf (events : List LifeEvent) : List PartitionMetadata :=
  events.filterMap fun
    | .joined partition => some partition
    | _ => none

/-- The group named last. -/
def groupOf (events : List LifeEvent) : String :=
  events.foldl (fun groupId event =>
    match event with
    | .grouped named => named
    | _ => groupId) ""

/-- What was acknowledged last for a partition. -/
def lastAcknowledged (events : List LifeEvent) (topic : String)
    (partition : Int) : Option OffsetMetadata :=
  events.foldl (fun found event =>
    match event with
    | .acknowledged offsets => (offsets.lookup topic partition).or found
    | _ => found) none

namespace PartitionMap

variable {ν : Type}

theorem lookup_set (map : PartitionMap ν) (topic probe : String)
    (partition other : Int) (value : ν) :
    (map.set topic partition value).lookup probe other =
      if topic = probe ∧ partition = other then some value
      else map.lookup probe other := by
  by_cases htopic : topic = probe
  · subst htopic
    simp only [set, lookup, find?_insert_self, bind_some, find?_insert, true_and]
    split
    · rfl
    · cases map.find? topic <;> simp
  · simp [set, lookup, find?_insert_of_ne map htopic, htopic]

/-- A merged map has the newer value where there is one. -/
theorem lookup_mergeAll (map other : PartitionMap ν) (topic : String)
    (partition : Int) :
    (map.mergeAll other).lookup topic partition =
      (other.lookup topic partition).or (map.lookup topic partition) := by
  have hentries : ∀ (entries : List (String × OrderedMap Int ν))
      (map : PartitionMap ν), Increasing entries →
      lookup (entries.foldl (fun map entry =>
        map.insert entry.1 (((map.find? entry.1).getD ∅).merge entry.2)) map)
          topic partition =
        (((lookupEntry topic entries).bind fun inner =>
          inner.find? partition).or (map.lookup topic partition)) := by
    intro entries
    induction entries with
    | nil => simp [lookupEntry]
    | cons entry rest ih =>
      intro map hsorted
      simp only [Increasing, pairwise_cons] at hsorted
      rw [foldl_cons, ih _ hsorted.2, lookupEntry]
      by_cases htopic : entry.1 = topic
      · subst htopic
        rw [lookupEntry_eq_none_of_lt hsorted.1]
        simp only [lookup, find?_insert_self, bind_some, find?_merge, bind_none,
          none_or, ↓reduceIte]
        cases map.find? entry.1 <;> simp
      · simp [lookup, find?_insert_of_ne map htopic, htopic]
  exact hentries other.entries map other.increasing

end PartitionMap

/-- Offsets were published successfully. -/
def Published (events : List LifeEvent) : Prop :=
  ∃ groupId offsets, LifeEvent.published groupId offsets true ∈ events

namespace TransactionState

@[simp] theorem path_empty : path empty = [] := rfl

@[simp] theorem path_ongoing : path ongoing = [ongoing] := rfl

variable (commit : Bool)

@[simp] theorem path_prepare : (prepare commit).path = [ongoing, prepare commit] := by
  cases commit <;> rfl

@[simp] theorem path_complete :
    (complete commit).path = [ongoing, prepare commit, complete commit] := by
  cases commit <;> rfl

/-- The outcome a state stands for. -/
def outcome : TransactionState → Option Bool
  | prepareCommit | completeCommit => some true
  | prepareAbort | completeAbort => some false
  | _ => none

@[simp] theorem outcome_empty : outcome empty = none := rfl

@[simp] theorem outcome_ongoing : outcome ongoing = none := rfl

@[simp] theorem outcome_prepareCommit : outcome prepareCommit = some true := rfl

@[simp] theorem outcome_prepare : (prepare commit).outcome = some commit := by
  cases commit <;> rfl

@[simp] theorem outcome_complete : (complete commit).outcome = some commit := by
  cases commit <;> rfl

theorem completeAbort_notMem_path {state : TransactionState}
    (houtcome : state.outcome = some true) : completeAbort ∉ state.path := by
  cases state <;> simp_all [outcome, path]

def isTerminal : TransactionState → Bool
  | completeCommit | completeAbort => true
  | _ => false

@[simp] theorem isTerminal_prepare : (prepare commit).isTerminal = false := by
  cases commit <;> rfl

@[simp] theorem isTerminal_complete : (complete commit).isTerminal = true := by
  cases commit <;> rfl

end TransactionState

namespace Life

variable {events : List LifeEvent} {life : Life} {event : LifeEvent}
  {before after : Life} {commit : Bool} {first last : Life}

/-- What holds of the unborn life and is kept by every event holds of every
life that events amount to. -/
theorem replay_induction {motive : List LifeEvent → Life → Prop}
    (hunborn : motive [] unborn)
    (hnext : ∀ events before event after, motive events before →
      before.next event = some after → motive (events ++ [event]) after)
    (hreplay : replay events = some life) : motive events life := by
  induction events using List.reverseRecOn generalizing life with
  | nil =>
    obtain rfl : unborn = life := Option.some.inj hreplay
    exact hunborn
  | append_singleton events event ih =>
    rw [replay_append, bind_eq_some_iff] at hreplay
    obtain ⟨before, hbefore, hstep⟩ := hreplay
    apply hnext events before event life (ih hbefore)
    simpa [run] using hstep

/-- A life has been through the states before its own, its partitions are
those that joined and its group is the one named last. -/
structure Follows (life : Life) (events : List LifeEvent) : Prop where
  states : statesOf events = life.state.path
  partitions : partitionsOf events = life.partitions
  group : groupOf events = life.groupId

theorem follows_of_replay (hreplay : replay events = some life) :
    life.Follows events := by
  apply replay_induction (motive := fun events life => life.Follows events)
    ⟨rfl, rfl, rfl⟩ _ hreplay
  intro events before event after hfollows hnext
  obtain ⟨hstates, hpartitions, hgroup⟩ := hfollows
  cases event <;>
    simp only [next, ite_none_right_eq_some, Option.some.injEq] at hnext <;>
    obtain ⟨hguard, rfl⟩ := hnext <;>
    constructor <;>
    simp_all [statesOf, partitionsOf, groupOf]

section

variable (hnext : before.next event = some after)

include hnext

theorem outcome_of_next (houtcome : before.state.outcome = some commit) :
    after.state.outcome = some commit := by
  cases event <;>
    simp only [next, ite_none_right_eq_some, Option.some.injEq] at hnext <;>
    obtain ⟨hguard, rfl⟩ := hnext <;>
    simp_all

/-- Nothing happens to a transaction that has ended. -/
theorem open_of_next : before.state.isTerminal = false := by
  cases event <;>
    simp only [next, ite_none_right_eq_some, Option.some.injEq] at hnext <;>
    obtain ⟨hguard, rfl⟩ := hnext
  case started => rw [hguard]; rfl
  case prepared => rw [hguard]; rfl
  all_goals rw [hguard.1]
  case marked => exact TransactionState.isTerminal_prepare _
  case completed => exact TransactionState.isTerminal_prepare _
  all_goals rfl

theorem marked_of_next {partition : PartitionMetadata}
    (hmarked : partition ∈ after.marked) :
    partition ∈ before.marked ∨ ∃ commit, event = .marked partition commit true := by
  cases event with
  | marked target commit succeeded =>
    simp only [next, ite_none_right_eq_some, Option.some.injEq] at hnext
    obtain ⟨hguard, rfl⟩ := hnext
    cases succeeded with
    | false => exact Or.inl hmarked
    | true =>
      rcases mem_cons.mp hmarked with rfl | hold
      · exact Or.inr ⟨commit, rfl⟩
      · exact Or.inl hold
  | _ =>
    simp only [next, ite_none_right_eq_some, Option.some.injEq] at hnext
    obtain ⟨hguard, rfl⟩ := hnext
    exact Or.inl hmarked

end

/-- All markers of a life carry its outcome, and the partitions it counts as
marked have a successful one. -/
structure Marks (life : Life) (events : List LifeEvent) : Prop where
  outcome : ∀ partition commit succeeded,
    LifeEvent.marked partition commit succeeded ∈ events →
      life.state.outcome = some commit
  marked : ∀ partition ∈ life.marked,
    ∃ commit, LifeEvent.marked partition commit true ∈ events

theorem marks_of_replay (hreplay : replay events = some life) :
    life.Marks events := by
  apply replay_induction (motive := fun events life => life.Marks events)
    ⟨by simp, by simp [unborn]⟩ _ hreplay
  intro events before event after hmarks hnext
  constructor
  · intro partition commit succeeded hmem
    rcases mem_append.mp hmem with hold | hnew
    · exact outcome_of_next hnext (hmarks.outcome partition commit succeeded hold)
    · obtain rfl := mem_singleton.mp hnew
      simp only [next, ite_none_right_eq_some, Option.some.injEq] at hnext
      obtain ⟨⟨hstate, -⟩, rfl⟩ := hnext
      simp [hstate]
  · intro partition hmem
    rcases marked_of_next hnext hmem with hold | ⟨commit, rfl⟩
    · obtain ⟨commit, hcommit⟩ := hmarks.marked partition hold
      exact ⟨commit, mem_append_left _ hcommit⟩
    · exact ⟨commit, by simp⟩

/-- Every partition of a life whose partitions are done has a successful
marker with the life's outcome. -/
theorem marked_of_done (hreplay : replay events = some life) (hdone : life.Done)
    (houtcome : life.state.outcome = some commit)
    {partition : PartitionMetadata} (hmem : partition ∈ life.partitions) :
    LifeEvent.marked partition commit true ∈ events := by
  have hmarks := marks_of_replay hreplay
  obtain ⟨flag, hflag⟩ := hmarks.marked partition (hdone partition hmem)
  have hsame := hmarks.outcome partition flag true hflag
  rw [houtcome, Option.some.injEq] at hsame
  exact hsame ▸ hflag

theorem completed_of_terminal (hnext : before.next event = some after)
    (hterminal : after.state.isTerminal = true) :
    ∃ commit, event = .completed commit := by
  have hopen := open_of_next hnext
  cases event with
  | completed commit => exact ⟨commit, rfl⟩
  | prepared commit =>
    simp only [next, ite_none_right_eq_some, Option.some.injEq] at hnext
    obtain ⟨-, rfl⟩ := hnext
    simp at hterminal
  | _ =>
    simp only [next, ite_none_right_eq_some, Option.some.injEq] at hnext
    obtain ⟨hguard, rfl⟩ := hnext
    simp_all [TransactionState.isTerminal]

/-- A life that has ended has a successful marker on every partition. -/
theorem done_of_terminal (hreplay : replay events = some life)
    (hterminal : life.state.isTerminal = true) : life.Done := by
  revert hterminal
  apply replay_induction
    (motive := fun _ life => life.state.isTerminal = true → life.Done)
    (by simp [unborn, TransactionState.isTerminal]) _ hreplay
  intro events before event after hbefore hnext hterminal
  obtain ⟨commit, rfl⟩ := completed_of_terminal hnext hterminal
  simp only [next, ite_none_right_eq_some, Option.some.injEq] at hnext
  obtain ⟨⟨-, hdone, -⟩, rfl⟩ := hnext
  exact hdone

theorem published_append (events : List LifeEvent) (event : LifeEvent) :
    Published (events ++ [event]) ↔ Published events ∨
      ∃ groupId offsets, event = .published groupId offsets true := by
  simp only [Published, mem_append, mem_singleton, exists_or, eq_comm]

/-- The offsets of a life are those acknowledged last until they are
published, and then none are left to publish. -/
structure Offsets (life : Life) (events : List LifeEvent) : Prop where
  outcome : ∀ groupId offsets succeeded,
    LifeEvent.published groupId offsets succeeded ∈ events →
      life.state.outcome = some true
  held : ¬ Published events → life.state.isTerminal = false →
    ∀ topic partition, life.pendingOffsets.lookup topic partition =
      lastAcknowledged events topic partition
  emptied : Published events → life.pendingOffsets = ∅
  settled : ¬ Published events → life.state = .completeCommit →
    ∀ topic partition, lastAcknowledged events topic partition = none

theorem offsets_next (hbefore : before.Offsets events)
    (hnext : before.next event = some after) :
    after.Offsets (events ++ [event]) := by
  have hopen := open_of_next hnext
  have hkept := fun commit => @outcome_of_next _ _ _ commit hnext
  have hended := completed_of_terminal hnext
  obtain ⟨houtcome, hheld, hemptied, hsettled⟩ := hbefore
  cases event with
  | acknowledged offsets =>
    simp only [next, ite_none_right_eq_some, Option.some.injEq] at hnext
    obtain ⟨⟨hstate, -⟩, rfl⟩ := hnext
    have hunpublished : ¬ Published events := by
      rintro ⟨groupId, offsets, hmem⟩
      have := houtcome groupId offsets true hmem
      simp [hstate] at this
    constructor
    · simpa using houtcome
    · intro _ _ topic partition
      simp [lastAcknowledged, PartitionMap.lookup_mergeAll,
        hheld hunpublished hopen topic partition]
    · simp [published_append, hunpublished]
    · simp [hstate]
  | published groupId offsets succeeded => 
    simp only [next, ite_none_right_eq_some, Option.some.injEq] at hnext
    obtain ⟨⟨hstate, -⟩, rfl⟩ := hnext
    constructor
    · simp [hstate]
    · intro hunpublished _ topic partition
      rw [published_append, not_or] at hunpublished
      cases succeeded with
      | false =>
        simpa [lastAcknowledged] using hheld hunpublished.1 hopen topic partition
      | true => exact absurd ⟨groupId, offsets, rfl⟩ hunpublished.2
    · intro hpublished
      rw [published_append] at hpublished
      cases succeeded with
      | false => simpa using hemptied (by simpa using hpublished)
      | true => rfl
    · simp [hstate]
  | completed commit =>
    simp only [next, ite_none_right_eq_some, Option.some.injEq] at hnext
    obtain ⟨⟨hstate, -, hempty⟩, rfl⟩ := hnext
    constructor
    · intro groupId offsets succeeded hmem
      simp only [mem_append, mem_singleton, reduceCtorEq, or_false] at hmem
      exact hkept true (houtcome groupId offsets succeeded hmem)
    · simp
    · simp
    · intro hunpublished hcomplete topic partition
      have hcommit : commit = true := by
        cases commit
        · simp [TransactionState.complete] at hcomplete
        · rfl
      have hlookup := hheld (by simpa [published_append] using hunpublished)
        hopen topic partition
      rw [hempty hcommit] at hlookup
      simpa [lastAcknowledged, PartitionMap.lookup] using hlookup.symm
  | _ =>
    simp only [next, ite_none_right_eq_some, Option.some.injEq] at hnext
    obtain ⟨hguard, rfl⟩ := hnext
    constructor
    · intro groupId offsets succeeded hmem
      simp only [mem_append, mem_singleton, reduceCtorEq, or_false] at hmem
      exact hkept true (houtcome groupId offsets succeeded hmem)
    · intro hunpublished _ topic partition
      simpa [lastAcknowledged] using
        hheld (by simpa [published_append] using hunpublished) hopen topic partition
    · intro hpublished
      exact hemptied (by simpa [published_append] using hpublished)
    · intro _ hcomplete
      obtain ⟨commit, heq⟩ := hended (by rw [hcomplete]; rfl)
      cases heq

theorem offsets_of_replay (hreplay : replay events = some life) :
    life.Offsets events := by
  apply replay_induction (motive := fun events life => life.Offsets events)
    _ _ hreplay
  · constructor <;>
      simp [unborn, lastAcknowledged, PartitionMap.lookup, Published]
  · intro events before event after hbefore hnext
    exact offsets_next hbefore hnext

/-- What every event keeps is kept by every run. -/
theorem run_induction {motive : Life → Life → Prop} (hrefl : ∀ life, motive life life)
    (hnext : ∀ first before event after, motive first before →
      before.next event = some after → motive first after)
    (hrun : first.run events = some last) : motive first last := by
  induction events using List.reverseRecOn generalizing last with
  | nil =>
    obtain rfl : first = last := Option.some.inj hrun
    exact hrefl first
  | append_singleton events event ih =>
    rw [run_append, bind_eq_some_iff] at hrun
    obtain ⟨before, hbefore, hstep⟩ := hrun
    apply hnext first before event last (ih hbefore)
    simpa [run] using hstep

/-- A life keeps the states it has been through and, once its outcome is
decided, the outcome, its partitions and its group. -/
structure Progresses (first last : Life) : Prop where
  path : first.state.path <+: last.state.path
  decided : ∀ commit, first.state.outcome = some commit →
    last.state.outcome = some commit ∧ last.partitions = first.partitions ∧
      last.groupId = first.groupId

theorem progresses_of_run (hrun : first.run events = some last) :
    first.Progresses last := by
  apply run_induction (motive := Progresses)
    (fun life => ⟨prefix_rfl, fun _ houtcome => ⟨houtcome, rfl, rfl⟩⟩)
    _ hrun
  intro first before event after hprogresses hnext
  have hkept := fun commit => @outcome_of_next _ _ _ commit hnext
  have hstep : before.state.path <+: after.state.path ∧
      (before.state.outcome ≠ none → after.partitions = before.partitions ∧
        after.groupId = before.groupId) := by
    cases event <;>
      simp only [next, ite_none_right_eq_some, Option.some.injEq] at hnext <;>
      obtain ⟨hguard, rfl⟩ := hnext <;>
      simp_all
  constructor
  · exact hprogresses.path.trans hstep.1
  · intro commit houtcome
    obtain ⟨hbefore, hpartitions, hgroup⟩ := hprogresses.decided commit houtcome
    have hsame := hstep.2 (by simp [hbefore])
    exact ⟨hkept commit hbefore, hsame.1.trans hpartitions, hsame.2.trans hgroup⟩

/-- Nothing is acknowledged once the outcome is decided. -/
theorem lastAcknowledged_of_decided (houtcome : first.state.outcome = some commit)
    (hrun : first.run events = some last) (front : List LifeEvent)
    (topic : String) (partition : Int) :
    lastAcknowledged (front ++ events) topic partition =
      lastAcknowledged front topic partition := by
  induction events generalizing first front with
  | nil => rw [append_nil]
  | cons event rest ih =>
    rw [run, bind_eq_some_iff] at hrun
    obtain ⟨after, hnext, hrest⟩ := hrun
    have htail := ih (outcome_of_next hnext houtcome) hrest (front ++ [event])
    rw [append_assoc, singleton_append] at htail
    rw [htail]
    cases event with
    | acknowledged offsets =>
      simp only [next, ite_none_right_eq_some] at hnext
      rw [hnext.1.1] at houtcome
      cases houtcome
    | _ => simp [lastAcknowledged]

/-- When offsets are published, every partition has a commit marker, and they
are those acknowledged last, for the group of the transaction, and not
published before. -/
theorem published_of_replay {before after : List LifeEvent} {groupId : String}
    {offsets : PartitionMap OffsetMetadata} {succeeded : Bool}
    (hreplay : replay
      (before ++ .published groupId offsets succeeded :: after) = some life) :
    (∀ partition ∈ life.partitions, LifeEvent.marked partition true true ∈ before) ∧
      groupId = life.groupId ∧
      (∀ topic partition, offsets.lookup topic partition = lastAcknowledged
        (before ++ .published groupId offsets succeeded :: after) topic partition) ∧
      ¬ Published before ∧ life.state.outcome = some true := by
  rw [replay_append, bind_eq_some_iff] at hreplay
  obtain ⟨middle, hmiddle, hrun⟩ := hreplay
  have hnext := hrun
  simp only [run, next, bind_eq_some_iff, ite_none_right_eq_some] at hnext
  obtain ⟨-, ⟨⟨hstate, hdone, hgroup, hoffsets, hpending⟩, -⟩, -⟩ := hnext
  have houtcome : middle.state.outcome = some true := by rw [hstate]; rfl
  obtain ⟨hlast, hpartitions, hgroupId⟩ :=
    (progresses_of_run hrun).decided true houtcome
  have hfirst : ¬ Published before := fun hpublished =>
    hpending ((offsets_of_replay hmiddle).emptied hpublished)
  refine ⟨?_, hgroup.trans hgroupId.symm, ?_, hfirst, hlast⟩
  · intro partition hmem
    rw [hpartitions] at hmem
    exact marked_of_done hmiddle hdone houtcome hmem
  · intro topic partition
    rw [lastAcknowledged_of_decided houtcome hrun, hoffsets]
    exact (offsets_of_replay hmiddle).held hfirst (by rw [hstate]; rfl) topic
      partition

end Life

end Streambus
