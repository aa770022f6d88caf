/-
What tenants are charged for and what they own.  A request to create a topic is
charged to its tenant before it is handled, and no other; nothing is ever given
back.  Who owns a topic is recorded afterwards.  The charges are the topics a
tenant owns in every run in which each charged request makes a topic its
tenant's, and no topic that has an owner is deleted.
-/
import Mathlib.Algebra.BigOperators.Group.List.Basic
import Streambus.QuotaRace
import Streambus.TopicStorage

namespace Streambus.Tenancy

inductive TenantStatus
  | active
  | suspended
  | deleted
deriving DecidableEq

inductive TenancyError
  | tenantNotFound
  | tenantNotActive (status : TenantStatus)
  | noTracker
  | quota (err : QuotaError)
deriving DecidableEq

/-- The tenants, their trackers, and the tenant of each topic. -/
structure Manager where
  tenants : OrderedMap TenantId TenantStatus
  trackers : OrderedMap TenantId QuotaTracker
  topicOwners : OrderedMap Bytes TenantId
deriving DecidableEq

namespace Manager

variable (m : Manager)

def checkTenantActive (id : TenantId) : Option TenancyError :=
  match m.tenants.find? id with
  | none => some .tenantNotFound
  | some .active => none
  | some status => some (.tenantNotActive status)

/-- The tracker of an active tenant. -/
def getActiveTracker (id : TenantId) : Except TenancyError QuotaTracker :=
  match m.checkTenantActive id with
  | some err => .error err
  | none =>
    match m.trackers.find? id with
    | none => .error .noTracker
    | some tracker => .ok tracker

def setTracker (id : TenantId) (tracker : QuotaTracker) : Manager :=
  { m with trackers := m.trackers.insert id tracker }

/-- Check and record a produce or a consume operation. -/
def enforceThroughput (now : Int) (id : TenantId) (bytes messages : Int) :
    Manager × Option TenancyError :=
  match m.getActiveTracker id with
  | .error err => (m, some err)
  | .ok tracker =>
    match tracker.checkThroughput now bytes messages with
    | some err => (m, some (.quota err))
    | none =>
      (m.setTracker id (tracker.recordThroughput now bytes messages), none)

def enforceProduceQuota (now : Int) (id : TenantId) (bytes messages : Int) :
    Manager × Option TenancyError :=
  m.enforceThroughput now id bytes messages

def enforceConsumeQuota (now : Int) (id : TenantId) (bytes messages : Int) :
    Manager × Option TenancyError :=
  m.enforceThroughput now id bytes messages

def enforceTopicQuota (id : TenantId) (partitions : Int) :
    Manager × Option TenancyError :=
  match m.getActiveTracker id with
  | .error err => (m, some err)
  | .ok tracker =>
    match tracker.addTopic partitions with
    | (_, some err) => (m, some (.quota err))
    | (tracker, none) => (m.setTracker id tracker, none)

def registerTopic (id : TenantId) (topic : Bytes) : Manager :=
  if topic = [] then m
  else { m with topicOwners := m.topicOwners.insert topic id }

def unregisterTopic (topic : Bytes) : Manager :=
  { m with topicOwners := m.topicOwners.erase topic }

end Manager

end Streambus.Tenancy

namespace Streambus.Server

open Tenancy

def tenantIdKey : Bytes := textBytes "tenant_id"

def defaultTenant : TenantId := textBytes "default"

/-- Only the first message of a batch can name a tenant. -/
def extractTenantId : TopicRequest → TenantId
  | .produce _ _ (message :: _) =>
    (message.headers.find? tenantIdKey).getD defaultTenant
  | _ => defaultTenant

/-- Requests that pass the quotas are handled by the base handler. -/
structure TenancyHandler (ν : Type) where
  enabled : Bool
  tenancyManager : Manager
  baseHandler : TopicManager ν

namespace TenancyHandler

variable {ν : Type} (empty : ν) (append : List ProtocolMessage → ν → ν)

def enforceQuotas (m : Manager) (now : Int) (tenantId : TenantId) :
    TopicRequest → Manager × Option TenancyError
  | .produce _ _ messages =>
    m.enforceProduceQuota now tenantId (messages.map fun message =>
        (message.key.length + message.value.length : Int)).sum
      messages.length
  | .fetch _ _ maxBytes =>
    m.enforceConsumeQuota now tenantId maxBytes.toNat (maxBytes.toNat / 1024 : Nat)
  | .createTopic _ numPartitions =>
    m.enforceTopicQuota tenantId numPartitions.toNat
  | _ => (m, none)

def recordTopicOwnership (m : Manager) (tenantId : TenantId) : TopicResponse → Manager
  | .created topic => m.registerTopic tenantId topic
  | .deleted topic => m.unregisterTopic topic
  | .other => m

def handle (h : TenancyHandler ν) (now : Int) (request : TopicRequest) :
    TenancyHandler ν × Except TenancyError TopicResponse :=
  if ¬ h.enabled then
    let (baseHandler, response) := h.baseHandler.handle empty append request
    ({ h with baseHandler }, .ok response)
  else
    let tenantId := extractTenantId request
    match enforceQuotas h.tenancyManager now tenantId request with
    | (m, some err) => ({ h with tenancyManager := m }, .error err)
    | (m, none) =>
      let (baseHandler, response) :=
        h.baseHandler.handle empty append request
      ({ h with
          tenancyManager := recordTopicOwnership m tenantId response
          baseHandler }, .ok response)

end TenancyHandler

section

variable {ν : Type} (weight : ν → Int)

/-- The weights of the topics that belong to a tenant. -/
def tally (owners : OrderedMap Bytes TenantId) (topics : OrderedMap Bytes ν)
    (id : TenantId) : Int :=
  ((topics.entries.filter fun entry => owners.find? entry.1 = some id).map
    fun entry => weight entry.2).sum

variable {weight} {owners : OrderedMap Bytes TenantId}
  {topics : OrderedMap Bytes ν} {name : Bytes}

theorem tally_cons_perm {entries rest : List (Bytes × ν)} {value : ν}
    (hperm : entries.Perm ((name, value) :: rest)) (id : TenantId) :
    ((entries.filter fun entry => owners.find? entry.1 = some id).map
      fun entry => weight entry.2).sum =
    (if owners.find? name = some id then weight value else 0) +
      ((rest.filter fun entry => owners.find? entry.1 = some id).map
        fun entry => weight entry.2).sum := by
  rw [((hperm.filter _).map _).sum_eq]
  by_cases howner : owners.find? name = some id
  · simp [howner]
  · simp [howner]

/-- A topic without an owner counts for nobody. -/
theorem tally_insert_topic (hmissing : topics.find? name = none)
    (hfree : owners.find? name = none) (value : ν) (id : TenantId) :
    tally weight owners (topics.insert name value) id =
      tally weight owners topics id := by
  unfold tally
  rw [tally_cons_perm (OrderedMap.entries_insert_perm hmissing value), hfree]
  simp

theorem tally_erase_topic (hfree : owners.find? name = none) (id : TenantId) :
    tally weight owners (topics.erase name) id = tally weight owners topics id := by
  cases hfind : topics.find? name with
  | none => rw [OrderedMap.erase_of_find?_eq_none hfind]
  | some value =>
    unfold tally
    rw [tally_cons_perm (OrderedMap.entries_erase_perm hfind), hfree]
    simp

/-- A topic that gets its first owner counts for that tenant. -/
theorem tally_insert_owner {value : ν} (hfind : topics.find? name = some value)
    (hfree : owners.find? name = none) (tenant id : TenantId) :
    tally weight (owners.insert name tenant) topics id =
      (if tenant = id then weight value else 0) + tally weight owners topics id := by
  have hperm := OrderedMap.entries_erase_perm hfind
  have hrest : ∀ entry ∈ (topics.erase name).entries,
      decide ((owners.insert name tenant).find? entry.1 = some id) =
        decide (owners.find? entry.1 = some id) := by
    rintro ⟨other, held⟩ hentry
    rw [OrderedMap.mem_entries_iff, OrderedMap.find?_erase] at hentry
    have hne : name ≠ other := by
      rintro rfl
      simp at hentry
    rw [OrderedMap.find?_insert_of_ne _ hne]
  unfold tally
  rw [tally_cons_perm hperm, tally_cons_perm hperm, hfree, List.filter_congr hrest]
  simp

end

namespace TenancyHandler

variable {ν : Type} (empty : ν) (append : List ProtocolMessage → ν → ν)
  (h : TenancyHandler ν)

def step (op : Int × TopicRequest) : TenancyHandler ν :=
  (h.handle empty append op.1 op.2).1

/-- The topics there are that belong to a tenant. -/
def owned (id : TenantId) : List (Bytes × OrderedMap Nat Path) :=
  h.baseHandler.topics.entries.filter fun entry =>
    h.tenancyManager.topicOwners.find? entry.1 = some id

/-- What a tenant is charged for is what it owns, and within its limits. -/
structure Charged (id : TenantId) (tracker : QuotaTracker) : Prop where
  topics : tracker.currentTopics = (h.owned id).length
  partitions : tracker.currentPartitions =
    ((h.owned id).map fun entry => entry.2.entries.length).sum
  maxTopics : 0 ≤ tracker.quotas.maxTopics →
    tracker.currentTopics ≤ tracker.quotas.maxTopics
  maxPartitions : 0 ≤ tracker.quotas.maxPartitions →
    tracker.currentPartitions ≤ tracker.quotas.maxPartitions

def Accounted : Prop :=
  ∀ id tracker, h.tenancyManager.trackers.find? id = some tracker →
    h.Charged id tracker

/-- Quotas are on, and there are no topics yet and no charges for any. -/
structure Fresh : Prop where
  enabled : h.enabled = true
  topics : h.baseHandler.topics = ∅
  owners : h.tenancyManager.topicOwners = ∅
  trackers : ∀ id tracker, h.tenancyManager.trackers.find? id = some tracker →
    tracker.currentTopics = 0 ∧ tracker.currentPartitions = 0

/-- A request that is charged makes a topic that has a name and no owner yet,
and a topic that is deleted has no owner. -/
def Settles (op : Int × TopicRequest) : Prop :=
  match op.2 with
  | .createTopic topic numPartitions =>
    (h.tenancyManager.enforceTopicQuota defaultTenant numPartitions.toNat).2 = none →
    topic ≠ [] ∧ h.tenancyManager.topicOwners.find? topic = none ∧
      (h.baseHandler.createTopic empty topic numPartitions).2 = none
  | .deleteTopic topic =>
    h.baseHandler.topicExists topic = true →
      h.tenancyManager.topicOwners.find? topic = none
  | _ => True

instance (op : Int × TopicRequest) : Decidable (h.Settles empty op) := by
  obtain ⟨now, request⟩ := op
  induction request using TopicRequest.casesOn <;> unfold Settles <;>
    infer_instance

def topicsOf (id : TenantId) : Int :=
  tally (fun _ => 1) h.tenancyManager.topicOwners h.baseHandler.topics id

def partitionsOf (id : TenantId) : Int :=
  tally (fun partitions : OrderedMap Nat Path => partitions.entries.length)
    h.tenancyManager.topicOwners h.baseHandler.topics id

theorem topicsOf_eq (id : TenantId) : h.topicsOf id = (h.owned id).length := by
  simp [topicsOf, tally, owned]

theorem partitionsOf_eq (id : TenantId) : h.partitionsOf id =
      ((h.owned id).map fun entry => entry.2.entries.length).sum := by
  simp [partitionsOf, tally, owned]
  rfl

variable {h}

/-- The counters of a tracker are those of another. -/
structure SameCharge (tracker other : QuotaTracker) : Prop where
  topics : tracker.currentTopics = other.currentTopics
  partitions : tracker.currentPartitions = other.currentPartitions
  quotas : tracker.quotas = other.quotas

/-- The charges are the tallies, they are within the limits, and topics with
an owner exist. -/
structure Balanced (h : TenancyHandler ν) : Prop where
  enabled : h.enabled = true
  charged : ∀ id tracker, h.tenancyManager.trackers.find? id = some tracker →
    tracker.currentTopics = h.topicsOf id ∧
      tracker.currentPartitions = h.partitionsOf id
  within : ∀ id tracker, h.tenancyManager.trackers.find? id = some tracker →
    (0 ≤ tracker.quotas.maxTopics →
      tracker.currentTopics ≤ tracker.quotas.maxTopics) ∧
    (0 ≤ tracker.quotas.maxPartitions →
      tracker.currentPartitions ≤ tracker.quotas.maxPartitions)
  existing : ∀ topic id, h.tenancyManager.topicOwners.find? topic = some id →
      h.baseHandler.topicExists topic = true

theorem Balanced.accounted (hbalanced : h.Balanced) : h.Accounted := by
  intro id tracker hfind
  obtain ⟨htopics, hpartitions⟩ := hbalanced.charged id tracker hfind
  obtain ⟨hmaxTopics, hmaxPartitions⟩ := hbalanced.within id tracker hfind
  exact ⟨htopics.trans (h.topicsOf_eq id),
    hpartitions.trans (h.partitionsOf_eq id), hmaxTopics, hmaxPartitions⟩

theorem Fresh.balanced (hfresh : h.Fresh) : h.Balanced where
  enabled := hfresh.enabled
  charged id tracker hfind := by
    obtain ⟨htopics, hpartitions⟩ := hfresh.trackers id tracker hfind
    simp [htopics, hpartitions, topicsOf, partitionsOf, tally, hfresh.topics]
  within id tracker hfind := by
    obtain ⟨htopics, hpartitions⟩ := hfresh.trackers id tracker hfind
    rw [htopics, hpartitions]
    exact ⟨fun hlimit => hlimit, fun hlimit => hlimit⟩
  existing topic id howner := by
    rw [hfresh.owners] at howner
    nomatch howner

variable {topic : Bytes} {m : Manager} {tracker : QuotaTracker} {id : TenantId}
  {request : TopicRequest} {now : Int} {tm : TopicManager ν}

theorem Balanced.free_of_missing (hbalanced : h.Balanced)
    (hmissing : h.baseHandler.topics.find? topic = none) :
    h.tenancyManager.topicOwners.find? topic = none := by
  cases howner : h.tenancyManager.topicOwners.find? topic with
  | none => rfl
  | some id =>
    have hexists := hbalanced.existing topic id howner
    rw [TopicManager.topicExists, hmissing] at hexists
    cases hexists

/-- Requests that charge nothing keep the balance if they keep the owners and
add or remove only topics without one. -/
theorem Balanced.of_sameCharges {after : TenancyHandler ν}
    (hbalanced : h.Balanced) (henabled : after.enabled = true)
    (howners : after.tenancyManager.topicOwners = h.tenancyManager.topicOwners)
    (htrackers : ∀ id tracker, after.tenancyManager.trackers.find? id = some tracker →
        ∃ before, h.tenancyManager.trackers.find? id = some before ∧
          SameCharge tracker before)
    (htopics : ∀ (weight : OrderedMap Nat Path → Int) id,
      tally weight h.tenancyManager.topicOwners after.baseHandler.topics id =
        tally weight h.tenancyManager.topicOwners h.baseHandler.topics id)
    (hexisting : ∀ topic, h.tenancyManager.topicOwners.find? topic ≠ none →
      h.baseHandler.topicExists topic = true →
        after.baseHandler.topicExists topic = true) : after.Balanced where
  enabled := henabled
  charged id tracker hfind := by
    obtain ⟨before, hbefore, hsame⟩ := htrackers id tracker hfind
    obtain ⟨hcount, hpartitions⟩ := hbalanced.charged id before hbefore
    rw [topicsOf, partitionsOf, howners, htopics, htopics, hsame.topics,
      hsame.partitions]
    exact ⟨hcount, hpartitions⟩
  within id tracker hfind := by
    obtain ⟨before, hbefore, hsame⟩ := htrackers id tracker hfind
    rw [hsame.topics, hsame.partitions, hsame.quotas]
    exact hbalanced.within id before hbefore
  existing topic id howner := by
    rw [howners] at howner
    refine hexisting topic ?_ (hbalanced.existing topic id howner)
    rw [howner]
    exact nofun

theorem getActiveTracker_ok (hok : m.getActiveTracker id = .ok tracker) :
    m.trackers.find? id = some tracker := by
  unfold Manager.getActiveTracker at hok
  split at hok
  · nomatch hok
  · split at hok
    · nomatch hok
    next found hfound =>
      injection hok with hok
      rw [hfound, hok]

theorem find?_setTracker {other : TenantId} {found : QuotaTracker}
    (hfind : (m.setTracker id tracker).trackers.find? other = some found) :
    id = other ∧ tracker = found ∨
      id ≠ other ∧ m.trackers.find? other = some found := by
  rw [Manager.setTracker, OrderedMap.find?_insert] at hfind
  split at hfind
  · exact Or.inl ⟨‹_›, by injection hfind⟩
  · exact Or.inr ⟨‹_›, hfind⟩

/-- Throughput is recorded beside the charges. -/
theorem enforceThroughput_same (m : Manager) (now : Int) (id : TenantId)
    (bytes messages : Int) :
    (m.enforceThroughput now id bytes messages).1.topicOwners = m.topicOwners ∧
    ∀ other tracker, (m.enforceThroughput now id bytes
        messages).1.trackers.find? other = some tracker →
      ∃ before, m.trackers.find? other = some before ∧ SameCharge tracker before := by
  have hsame : ∀ other tracker, m.trackers.find? other = some tracker →
      ∃ before, m.trackers.find? other = some before ∧ SameCharge tracker before :=
    fun other tracker hfind => ⟨tracker, hfind, rfl, rfl, rfl⟩
  unfold Manager.enforceThroughput
  split
  · exact ⟨rfl, hsame⟩
  next active hactive =>
    split
    · exact ⟨rfl, hsame⟩
    · refine ⟨rfl, fun other tracker hfind => ?_⟩
      rcases find?_setTracker hfind with ⟨rfl, rfl⟩ | ⟨-, hold⟩
      · exact ⟨active, getActiveTracker_ok hactive, rfl, rfl, rfl⟩
      · exact hsame other tracker hold

/-- A topic is charged only within the limits. -/
theorem enforceTopicQuota_cases (m : Manager) (id : TenantId) (partitions : Int) :
    (∃ err, m.enforceTopicQuota id partitions = (m, some err)) ∨
    ∃ tracker, m.trackers.find? id = some tracker ∧
      m.enforceTopicQuota id partitions =
        (m.setTracker id (tracker.incrementTopics partitions), none) ∧
      (0 ≤ tracker.quotas.maxTopics →
        tracker.currentTopics + 1 ≤ tracker.quotas.maxTopics) ∧
      (0 ≤ tracker.quotas.maxPartitions → tracker.currentPartitions + partitions ≤
          tracker.quotas.maxPartitions) := by
  unfold Manager.enforceTopicQuota
  cases hactive : m.getActiveTracker id with
  | error err => exact Or.inl ⟨err, rfl⟩
  | ok tracker =>
    dsimp only
    unfold QuotaTracker.addTopic
    cases htopic : tracker.checkTopic with
    | some err => exact Or.inl ⟨_, rfl⟩
    | none =>
      cases hpartitions : tracker.checkPartitions partitions with
      | some err => exact Or.inl ⟨_, rfl⟩
      | none =>
        exact Or.inr ⟨tracker, getActiveTracker_ok hactive, rfl,
          QuotaTracker.checkLimit_eq_none.mp htopic,
          QuotaTracker.checkLimit_eq_none.mp hpartitions⟩

variable {empty append}

theorem step_of_rejected {err : TenancyError} (henabled : h.enabled = true)
    (hquota : enforceQuotas h.tenancyManager now (extractTenantId request)
      request = (m, some err)) :
    h.step empty append (now, request) = { h with tenancyManager := m } := by
  unfold step handle
  rw [if_neg (by simp [henabled])]
  dsimp only
  rw [hquota]

/-- A request that passes the quotas goes to the base handler. -/
theorem step_of_passed (henabled : h.enabled = true)
    (hquota : enforceQuotas h.tenancyManager now (extractTenantId request)
      request = (m, none)) :
    h.step empty append (now, request) = { h with
      tenancyManager := recordTopicOwnership m (extractTenantId request)
        (h.baseHandler.handle empty append request).2
      baseHandler := (h.baseHandler.handle empty append request).1 } := by
  unfold step handle
  rw [if_neg (by simp [henabled])]
  dsimp only
  rw [hquota]

/-- Opening a topic keeps the balance, for a new topic has no owner. -/
theorem balanced_opening (hbalanced : h.Balanced)
    (howners : m.topicOwners = h.tenancyManager.topicOwners)
    (htrackers : ∀ id tracker, m.trackers.find? id = some tracker →
      ∃ before, h.tenancyManager.trackers.find? id = some before ∧
        SameCharge tracker before)
    (hopens : tm.topics = (h.baseHandler.ensureTopic empty topic).1.topics) :
    Balanced { h with tenancyManager := m, baseHandler := tm } := by
  refine hbalanced.of_sameCharges hbalanced.enabled howners htrackers ?_ ?_
  · intro weight id
    rw [hopens]
    rcases TopicManager.topics_ensureTopic_cases empty h.baseHandler topic with
      hsame | ⟨hmissing, partitions, hmade⟩
    · rw [hsame]
    · rw [hmade]
      exact tally_insert_topic hmissing (hbalanced.free_of_missing hmissing)
        partitions id
  · intro other _ hexists
    have hensure := TopicManager.topicExists_ensureTopic empty h.baseHandler
      topic other
    rw [TopicManager.topicExists, ← hopens] at hensure
    exact hensure.mpr (Or.inl hexists)

theorem balanced_throughput {bytes messages : Int} (hbalanced : h.Balanced)
    (hquota : enforceQuotas h.tenancyManager now (extractTenantId request)
      request = h.tenancyManager.enforceThroughput now id bytes messages)
    (hother : (h.baseHandler.handle empty append request).2 = .other)
    (hopens : (h.baseHandler.handle empty append request).1.topics =
      (h.baseHandler.ensureTopic empty topic).1.topics) :
    (h.step empty append (now, request)).Balanced := by
  obtain ⟨howners, htrackers⟩ :=
    enforceThroughput_same h.tenancyManager now id bytes messages
  generalize h.tenancyManager.enforceThroughput now id bytes messages =
    result at hquota howners htrackers
  obtain ⟨m, answer⟩ := result
  cases answer with
  | some err =>
    rw [step_of_rejected hbalanced.enabled hquota]
    exact hbalanced.of_sameCharges hbalanced.enabled howners htrackers
      (fun _ _ => rfl) (fun _ _ hexists => hexists)
  | none =>
    rw [step_of_passed hbalanced.enabled hquota, hother]
    exact balanced_opening hbalanced howners htrackers hopens

variable {numPartitions : UInt32}

/-- A request to create a topic that succeeds leaves the topic there with
the partitions asked for, and no topic of another name. -/
theorem tally_createTopic {owners : OrderedMap Bytes TenantId}
    (hfree : owners.find? topic = none)
    (hmade : (tm.createTopic empty topic numPartitions).2 = none) :
    ∃ partitions, (tm.createTopic empty topic numPartitions).1.topics.find? topic =
        some partitions ∧
      partitions.entries.length = numPartitions.toNat ∧
      ∀ (weight : OrderedMap Nat Path → Int) id, tally weight owners
            (tm.createTopic empty topic numPartitions).1.topics id =
          tally weight owners tm.topics id := by
  rcases TopicManager.createTopic_cases empty tm topic numPartitions with
    ⟨existing, hfind, hsame, hcount⟩ | ⟨-, -, hfailed⟩ |
    ⟨hmissing, -, partitions, htopics, hcount⟩
  · rw [hsame]
    exact ⟨existing, hfind, hcount.mp hmade, fun _ _ => rfl⟩
  · exact absurd hmade hfailed
  · rw [htopics]
    exact ⟨partitions, OrderedMap.find?_insert_self _ _ _, hcount,
      fun weight id => tally_insert_topic hmissing hfree partitions id⟩

/-- The tenant is charged for the topic and the topic is made the tenant's. -/
theorem balanced_charged {tenant : TenantId} {partitions : OrderedMap Nat Path}
    (hbalanced : h.Balanced)
    (htracker : h.tenancyManager.trackers.find? tenant = some tracker)
    (hmaxTopics : 0 ≤ tracker.quotas.maxTopics →
      tracker.currentTopics + 1 ≤ tracker.quotas.maxTopics)
    (hmaxPartitions : 0 ≤ tracker.quotas.maxPartitions →
      tracker.currentPartitions + partitions.entries.length ≤
        tracker.quotas.maxPartitions) (hnamed : topic ≠ [])
    (hfree : h.tenancyManager.topicOwners.find? topic = none)
    (hfind : tm.topics.find? topic = some partitions)
    (htally : ∀ (weight : OrderedMap Nat Path → Int) id,
      tally weight h.tenancyManager.topicOwners tm.topics id =
        tally weight h.tenancyManager.topicOwners h.baseHandler.topics id)
    (hexisting : ∀ other, h.baseHandler.topicExists other = true →
      tm.topicExists other = true) :
    Balanced { h with
      tenancyManager := (h.tenancyManager.setTracker tenant
        (tracker.incrementTopics partitions.entries.length)).registerTopic
          tenant topic
      baseHandler := tm } := by
  have hregister : (h.tenancyManager.setTracker tenant
      (tracker.incrementTopics partitions.entries.length)).registerTopic
        tenant topic =
      { h.tenancyManager.setTracker tenant
          (tracker.incrementTopics partitions.entries.length) with
        topicOwners := h.tenancyManager.topicOwners.insert topic tenant } :=
    if_neg hnamed
  rw [hregister]
  refine ⟨hbalanced.enabled, ?_, ?_, ?_⟩
  · intro id found hfound
    unfold topicsOf partitionsOf
    rw [tally_insert_owner hfind hfree, tally_insert_owner hfind hfree,
      htally, htally]
    rcases find?_setTracker hfound with ⟨rfl, rfl⟩ | ⟨hne, hold⟩
    · obtain ⟨htopics, hpartitions⟩ :=
        hbalanced.charged tenant tracker htracker
      rw [if_pos rfl, if_pos rfl]
      change tracker.currentTopics + 1 = 1 + h.topicsOf tenant ∧
        tracker.currentPartitions + (partitions.entries.length : Int) =
          partitions.entries.length + h.partitionsOf tenant
      omega
    · rw [if_neg hne, if_neg hne, Int.zero_add, Int.zero_add]
      exact hbalanced.charged id found hold
  · intro id found hfound
    rcases find?_setTracker hfound with ⟨rfl, rfl⟩ | ⟨-, hold⟩
    · exact ⟨hmaxTopics, hmaxPartitions⟩
    · exact hbalanced.within id found hold
  · intro other id howner
    rw [OrderedMap.find?_insert] at howner
    split at howner
    next heq =>
      rw [← heq, TopicManager.topicExists, hfind]
      rfl
    · exact hexisting other (hbalanced.existing other id howner)

theorem balanced_createTopic (hbalanced : h.Balanced)
    (hsettles : h.Settles empty (now, .createTopic topic numPartitions)) :
    (h.step empty append (now, .createTopic topic numPartitions)).Balanced := by
  have hquota : enforceQuotas h.tenancyManager now
      (extractTenantId (.createTopic topic numPartitions))
      (.createTopic topic numPartitions) =
        h.tenancyManager.enforceTopicQuota defaultTenant numPartitions.toNat := rfl
  rcases enforceTopicQuota_cases h.tenancyManager defaultTenant
      numPartitions.toNat with
    ⟨err, henforce⟩ | ⟨tracker, htracker, henforce, hmaxTopics, hmaxPartitions⟩
  · rw [step_of_rejected hbalanced.enabled (hquota.trans henforce)]
    exact hbalanced
  · obtain ⟨hnamed, hfree, hmade⟩ := hsettles (by rw [henforce])
    obtain ⟨partitions, hfind, hcount, htally⟩ :=
      tally_createTopic hfree hmade
    rw [step_of_passed hbalanced.enabled (hquota.trans henforce),
      TopicManager.handle_createTopic_fst,
      TopicManager.handle_createTopic_of_none _ _ hmade]
    rw [← hcount] at hmaxPartitions ⊢
    refine balanced_charged hbalanced htracker hmaxTopics hmaxPartitions
      hnamed hfree hfind htally fun other hexists => ?_
    exact (TopicManager.topicExists_createTopic empty _ _ _ _).mpr (Or.inl hexists)

theorem balanced_deleteTopic (hbalanced : h.Balanced)
    (hsettles : h.Settles empty (now, .deleteTopic topic)) :
    (h.step empty append (now, .deleteTopic topic)).Balanced := by
  have hfree : h.tenancyManager.topicOwners.find? topic = none := by
    cases hfind : h.baseHandler.topics.find? topic with
    | none => exact hbalanced.free_of_missing hfind
    | some partitions =>
      apply hsettles
      rw [TopicManager.topicExists, hfind]
      rfl
  have hrecord : recordTopicOwnership h.tenancyManager
      (extractTenantId (.deleteTopic topic))
      (h.baseHandler.handle empty append (.deleteTopic topic)).2 =
        h.tenancyManager := by
    rw [TopicManager.handle_deleteTopic_snd]
    split
    · change { h.tenancyManager with
        topicOwners := h.tenancyManager.topicOwners.erase topic } = _
      rw [OrderedMap.erase_of_find?_eq_none hfree]
    · rfl
  rw [step_of_passed hbalanced.enabled rfl, hrecord, TopicManager.handle_deleteTopic_fst]
  refine hbalanced.of_sameCharges hbalanced.enabled rfl
    (fun id tracker hfind => ⟨tracker, hfind, rfl, rfl, rfl⟩) ?_ ?_
  · intro weight id
    rw [TopicManager.topics_deleteTopic]
    exact tally_erase_topic hfree id
  · intro other howned hexists
    refine (TopicManager.topicExists_deleteTopic _ _ _).mpr ⟨hexists, ?_⟩
    rintro rfl
    exact howned hfree

theorem balanced_step {op : Int × TopicRequest} (hbalanced : h.Balanced)
    (hop : h.Settles empty op) : (h.step empty append op).Balanced := by
  obtain ⟨now, request⟩ := op
  cases request with
  | produce topic partitionId messages =>
    exact balanced_throughput hbalanced rfl rfl
      (TopicManager.topics_handleProduce _ _ _ _ _)
  | fetch topic partitionId maxBytes =>
    exact balanced_throughput hbalanced rfl rfl rfl
  | createTopic topic numPartitions =>
    exact balanced_createTopic hbalanced hop
  | deleteTopic topic => exact balanced_deleteTopic hbalanced hop
  | getOffset topic | listTopics | healthCheck | unknown =>
    rw [step_of_passed hbalanced.enabled rfl]
    exact hbalanced

/-- From no topics on, every tenant is charged for exactly the topics it owns,
after every run of requests that settle what they charge. -/
theorem accounted_of_settled (empty : ν) (append : List ProtocolMessage → ν → ν)
    (h : TenancyHandler ν) (ops : List (Int × TopicRequest)) (hfresh : h.Fresh)
    (hops : AllAllowed (step empty append) (Settles empty) h ops) :
    (runSteps (step empty append) h ops).Accounted :=
  (hops.invariant Balanced (fun _ _ => balanced_step) hfresh.balanced).accounted

/-- The default tenant may have two topics. -/
def smallTenant : TenancyHandler Nat where
  enabled := true
  tenancyManager :=
    { tenants := (∅ : OrderedMap TenantId TenantStatus).insert defaultTenant .active
      trackers := (∅ : OrderedMap TenantId QuotaTracker).insert defaultTenant
        (newQuotaTracker defaultTenant
          { maxBytesPerSecond := -1
            maxMessagesPerSecond := -1
            maxTopics := 2
            maxPartitions := 8
            maxConnections := -1
            maxProducers := -1 })
      topicOwners := ∅ }
  baseHandler := TopicManager.newTopicManager 0 ∅ [textBytes "data"]

theorem fresh_smallTenant : smallTenant.Fresh where
  enabled := rfl
  topics := by decide +kernel
  owners := rfl
  trackers id tracker hfind := by
    change (OrderedMap.insert ∅ defaultTenant _).find? id = _ at hfind
    rw [OrderedMap.find?_insert] at hfind
    split at hfind
    · injection hfind with hfind
      rw [← hfind]
      exact ⟨rfl, rfl⟩
    · nomatch hfind

def keepLog (_ : List ProtocolMessage) (log : Nat) : Nat := log

theorem accounted_of_settled_filled : (runSteps (step 0 keepLog) smallTenant
      [(0, .createTopic (textBytes "orders") 3),
        (1, .produce (textBytes "clicks") 0 [⟨0, [], [99], ∅, 1⟩]),
        (2, .createTopic (textBytes "clicks") 1),
        (3, .createTopic (textBytes "audit") 1),
        (4, .deleteTopic (textBytes "audit"))]).Accounted :=
  accounted_of_settled _ _ _ _ fresh_smallTenant (by decide +kernel)

/-- A tenant is still charged for a topic that was deleted. -/
theorem not_accounted_deleted : ¬ (runSteps (step 0 keepLog) smallTenant
      [(0, .createTopic (textBytes "orders") 3),
        (1, .deleteTopic (textBytes "orders"))]).Accounted := by
  intro haccounted
  have htracker : ((runSteps (step 0 keepLog) smallTenant
      [(0, .createTopic (textBytes "orders") 3),
        (1, .deleteTopic (textBytes "orders"))]).tenancyManager.trackers.find?
          defaultTenant).map QuotaTracker.currentTopics = some 1 := by
    decide +kernel
  obtain ⟨tracker, hfind, hcount⟩ := Option.map_eq_some_iff.mp htracker
  have htopics := (haccounted defaultTenant tracker hfind).topics
  have hnone : ((runSteps (step 0 keepLog) smallTenant
      [(0, .createTopic (textBytes "orders") 3),
        (1, .deleteTopic (textBytes "orders"))]).owned defaultTenant).length = 0 := by
    decide +kernel
  rw [hcount] at htopics
  nomatch htopics

end TenancyHandler

end Streambus.Server
