/-
What tenants use and how much they may use.  A negative limit is no limit.
Throughput is counted in a ring of buckets.  A call that passes its check has
been promised a place, but the counter is raised only when the call goes on;
the counters stay within their limits in every run in which a check lets a call
through only if the place it asks for has not been promised to another one.
-/
import Mathlib.Algebra.BigOperators.Group.List.Basic
import Mathlib.Algebra.Ring.Int.Defs
import Mathlib.Algebra.Ring.Nat
import Mathlib.Data.Fintype.Basic
import Mathlib.Data.Int.Basic
import Mathlib.Tactic.Common
import Streambus.ByteOrder
import Streambus.GuardedRun

namespace Streambus.Tenancy

/-- The longest duration, in nanoseconds; the time since no time at all. -/
def maxDuration : Int := 2 ^ 63 - 1

def since (now : Int) : Option Int → Int
  | none => maxDuration
  | some time => now - time

/-- A bucket that was never opened has no time. -/
structure RateBucket where
  usage : Int
  time : Option Int
deriving DecidableEq

structure RateWindow where
  windowSize : Int
  bucketSize : Int
  buckets : List RateBucket
  currentIdx : Nat
  currentIdx_lt : currentIdx < buckets.length
deriving DecidableEq

/-- A number as the nearest one with 53 binary digits, ties to even. -/
def roundFloat (number : Int) : Int :=
  let magnitude := number.natAbs
  let unit := 2 ^ (magnitude.log2 - 52)
  let quotient := magnitude / unit
  let remainder := magnitude % unit
  let rounded :=
    if 2 * remainder < unit ∨ 2 * remainder = unit ∧ quotient % 2 = 0 then
      quotient * unit
    else (quotient + 1) * unit
  if number < 0 then -rounded else rounded

namespace RateWindow

def newRateWindow (windowSize bucketSize : Int) : RateWindow where
  windowSize := windowSize
  bucketSize := bucketSize
  buckets := List.replicate (max 1 (windowSize.tdiv bucketSize).toNat) ⟨0, none⟩
  currentIdx := 0
  currentIdx_lt := by
    rw [List.length_replicate]
    omega

variable (w : RateWindow)

def current : RateBucket := w.buckets.get ⟨w.currentIdx, w.currentIdx_lt⟩

/-- Move on to the next bucket, which starts empty. -/
def rotate (now : Int) : RateWindow where
  windowSize := w.windowSize
  bucketSize := w.bucketSize
  buckets := w.buckets.set ((w.currentIdx + 1) % w.buckets.length) ⟨0, some now⟩
  currentIdx := (w.currentIdx + 1) % w.buckets.length
  currentIdx_lt := by
    rw [List.length_set]
    exact Nat.mod_lt _ (Nat.zero_lt_of_lt w.currentIdx_lt)

/-- Count usage in the current bucket. -/
def count (value : Int) : RateWindow where
  windowSize := w.windowSize
  bucketSize := w.bucketSize
  buckets := w.buckets.set w.currentIdx
    { w.current with usage := w.current.usage + value }
  currentIdx := w.currentIdx
  currentIdx_lt := by
    rw [List.length_set]
    exact w.currentIdx_lt

def add (now value : Int) : RateWindow :=
  if since now w.current.time ≥ w.bucketSize then (w.rotate now).count value
  else w.count value

/-- The usage of the buckets within the window. -/
def total (now : Int) : Int :=
  ((w.buckets.filter fun bucket => since now bucket.time ≤ w.windowSize).map
    RateBucket.usage).sum

/-- The rate of a window of one second, which is the total as a float. -/
def rate (now : Int) : Int := roundFloat (w.total now)

end RateWindow

abbrev TenantId := Bytes

structure Quotas where
  maxBytesPerSecond : Int
  maxMessagesPerSecond : Int
  maxTopics : Int
  maxPartitions : Int
  maxConnections : Int
  maxProducers : Int
deriving DecidableEq

inductive QuotaType
  | bytesPerSecond
  | messagesPerSecond
  | connections
  | producers
  | topics
  | partitions
deriving DecidableEq

def QuotaType.message : QuotaType → String
  | .bytesPerSecond => "bytes per second quota exceeded"
  | .messagesPerSecond => "messages per second quota exceeded"
  | .connections => "max connections quota exceeded"
  | .producers => "max producers quota exceeded"
  | .topics => "max topics quota exceeded"
  | .partitions => "max partitions quota exceeded"

structure QuotaError where
  tenantId : TenantId
  quotaType : QuotaType
  current : Int
  limit : Int
  message : String
deriving DecidableEq

/-- The counters of a tenant.  They are machine integers; sums stand for
themselves as long as they fit in 64 bits. -/
structure QuotaTracker where
  tenantId : TenantId
  quotas : Quotas
  currentConnections : Int
  currentProducers : Int
  currentTopics : Int
  currentPartitions : Int
  bytesWindow : RateWindow
  messagesWindow : RateWindow
deriving DecidableEq

/-- A second, in nanoseconds. -/
def second : Int := 1000000000

def newQuotaTracker (tenantId : TenantId) (quotas : Quotas) : QuotaTracker where
  tenantId := tenantId
  quotas := quotas
  currentConnections := 0
  currentProducers := 0
  currentTopics := 0
  currentPartitions := 0
  bytesWindow := RateWindow.newRateWindow second (second / 10)
  messagesWindow := RateWindow.newRateWindow second (second / 10)

namespace QuotaTracker

variable (qt : QuotaTracker)

/-- Whether a counter has room for more. -/
def checkLimit (quotaType : QuotaType) (current more limit : Int) :
    Option QuotaError :=
  if 0 ≤ limit ∧ limit < current + more then
    some ⟨qt.tenantId, quotaType, current, limit, quotaType.message⟩
  else none

def checkThroughput (now bytes messages : Int) : Option QuotaError :=
  (qt.checkLimit .bytesPerSecond (qt.bytesWindow.rate now) bytes
      qt.quotas.maxBytesPerSecond).or
    (qt.checkLimit .messagesPerSecond (qt.messagesWindow.rate now) messages
      qt.quotas.maxMessagesPerSecond)

def recordThroughput (now bytes messages : Int) : QuotaTracker :=
  { qt with
    bytesWindow := qt.bytesWindow.add now bytes
    messagesWindow := qt.messagesWindow.add now messages }

def checkConnection : Option QuotaError :=
  qt.checkLimit .connections qt.currentConnections 1 qt.quotas.maxConnections

def incrementConnections : QuotaTracker :=
  { qt with currentConnections := qt.currentConnections + 1 }

def addConnection : QuotaTracker × Option QuotaError :=
  match qt.checkConnection with
  | some err => (qt, some err)
  | none => (qt.incrementConnections, none)

def removeConnection : QuotaTracker :=
  if 0 < qt.currentConnections then
    { qt with currentConnections := qt.currentConnections - 1 }
  else qt

def checkProducer : Option QuotaError :=
  qt.checkLimit .producers qt.currentProducers 1 qt.quotas.maxProducers

def incrementProducers : QuotaTracker :=
  { qt with currentProducers := qt.currentProducers + 1 }

def addProducer : QuotaTracker × Option QuotaError :=
  match qt.checkProducer with
  | some err => (qt, some err)
  | none => (qt.incrementProducers, none)

def removeProducer : QuotaTracker :=
  if 0 < qt.currentProducers then
    { qt with currentProducers := qt.currentProducers - 1 }
  else qt

def checkTopic : Option QuotaError :=
  qt.checkLimit .topics qt.currentTopics 1 qt.quotas.maxTopics

def checkPartitions (partitions : Int) : Option QuotaError :=
  qt.checkLimit .partitions qt.currentPartitions partitions qt.quotas.maxPartitions

def incrementTopics (partitions : Int) : QuotaTracker :=
  { qt with
    currentTopics := qt.currentTopics + 1
    currentPartitions := qt.currentPartitions + partitions }

def addTopic (partitions : Int) : QuotaTracker × Option QuotaError :=
  match qt.checkTopic with
  | some err => (qt, some err)
  | none =>
    match qt.checkPartitions partitions with
    | some err => (qt, some err)
    | none => (qt.incrementTopics partitions, none)

def removeTopic (partitions : Int) : QuotaTracker :=
  { qt with
    currentTopics :=
      if 0 < qt.currentTopics then qt.currentTopics - 1
      else qt.currentTopics
    currentPartitions := max 0 (qt.currentPartitions - partitions) }

variable {qt}

theorem checkLimit_eq_none {quotaType : QuotaType} {current more limit : Int} :
    qt.checkLimit quotaType current more limit = none ↔
      (0 ≤ limit → current + more ≤ limit) := by
  unfold checkLimit
  split_ifs with hover
  · simp only [false_iff]
    intro hroom
    omega
  · simp only [true_iff]
    intro hlimit
    omega

end QuotaTracker

open List

inductive QuotaCall
  | addConnection
  | removeConnection
  | addProducer
  | removeProducer
  | addTopic (partitions : Int)
  | removeTopic (partitions : Int)

/-- What a call has still to do. -/
inductive PendingCall
  | connection
  | producer
  | checkedTopic (partitions : Int)
  | topic (partitions : Int)
deriving DecidableEq

structure SharedTracker where
  tracker : QuotaTracker
  pending : List PendingCall
deriving DecidableEq

/-- A call begins, or one that has begun goes on to its next section. -/
inductive QuotaStep
  | call (call : QuotaCall)
  | resume (index : Nat)

namespace SharedTracker

variable (shared : SharedTracker)

/-- The section that checks a counter. -/
def check (answer : Option QuotaError) (call : PendingCall) : SharedTracker :=
  match answer with
  | some _ => shared
  | none => { shared with pending := shared.pending ++ [call] }

def begin : QuotaCall → SharedTracker
  | .addConnection => shared.check shared.tracker.checkConnection .connection
  | .addProducer => shared.check shared.tracker.checkProducer .producer
  | .addTopic partitions =>
    shared.check shared.tracker.checkTopic (.checkedTopic partitions)
  | .removeConnection =>
    { shared with tracker := shared.tracker.removeConnection }
  | .removeProducer =>
    { shared with tracker := shared.tracker.removeProducer }
  | .removeTopic partitions =>
    { shared with tracker := shared.tracker.removeTopic partitions }

def proceed : PendingCall → SharedTracker
  | .connection =>
    { shared with tracker := shared.tracker.incrementConnections }
  | .producer =>
    { shared with tracker := shared.tracker.incrementProducers }
  | .checkedTopic partitions =>
    shared.check (shared.tracker.checkPartitions partitions) (.topic partitions)
  | .topic partitions =>
    { shared with tracker := shared.tracker.incrementTopics partitions }

def step : QuotaStep → SharedTracker
  | .call call => shared.begin call
  | .resume index =>
    match shared.pending[index]? with
    | none => shared
    | some call =>
      SharedTracker.proceed
        { shared with pending := shared.pending.eraseIdx index } call

end SharedTracker

section

variable (qt : QuotaTracker)

theorem addConnection_alone : (runSteps SharedTracker.step ⟨qt, []⟩
      [.call .addConnection, .resume 0]).tracker = qt.addConnection.1 := by
  unfold QuotaTracker.addConnection
  cases hcheck : qt.checkConnection <;>
    simp [runSteps, SharedTracker.step, SharedTracker.begin,
      SharedTracker.check, SharedTracker.proceed, hcheck]

theorem addProducer_alone : (runSteps SharedTracker.step ⟨qt, []⟩
      [.call .addProducer, .resume 0]).tracker = qt.addProducer.1 := by
  unfold QuotaTracker.addProducer
  cases hcheck : qt.checkProducer <;>
    simp [runSteps, SharedTracker.step, SharedTracker.begin,
      SharedTracker.check, SharedTracker.proceed, hcheck]

theorem addTopic_alone (partitions : Int) : (runSteps SharedTracker.step ⟨qt, []⟩
      [.call (.addTopic partitions), .resume 0, .resume 0]).tracker =
        (qt.addTopic partitions).1 := by
  unfold QuotaTracker.addTopic
  cases htopic : qt.checkTopic <;>
    cases hpartitions : qt.checkPartitions partitions <;>
    simp [runSteps, SharedTracker.step, SharedTracker.begin,
      SharedTracker.check, SharedTracker.proceed, htopic, hpartitions]

end

inductive QuotaCounter
  | connections
  | producers
  | topics
  | partitions
deriving DecidableEq

instance : Fintype QuotaCounter where
  elems := {.connections, .producers, .topics, .partitions}
  complete counter := by cases counter <;> decide

def QuotaTracker.usage (qt : QuotaTracker) : QuotaCounter → Int
  | .connections => qt.currentConnections
  | .producers => qt.currentProducers
  | .topics => qt.currentTopics
  | .partitions => qt.currentPartitions

def Quotas.limit (quotas : Quotas) : QuotaCounter → Int
  | .connections => quotas.maxConnections
  | .producers => quotas.maxProducers
  | .topics => quotas.maxTopics
  | .partitions => quotas.maxPartitions

/-- How far a call that has begun may still raise a counter. -/
def PendingCall.claim : PendingCall → QuotaCounter → Int
  | .connection, .connections => 1
  | .producer, .producers => 1
  | .checkedTopic _, .topics => 1
  | .topic _, .topics => 1
  | .topic partitions, .partitions => max 0 partitions
  | _, _ => 0

theorem PendingCall.claim_nonneg (call : PendingCall)
    (counter : QuotaCounter) : 0 ≤ call.claim counter := by
  cases call <;> cases counter <;> simp [claim]

namespace SharedTracker

variable (shared : SharedTracker)

/-- The places of a counter that are promised to calls that have begun. -/
def promised (counter : QuotaCounter) : Int :=
  (shared.pending.map fun call => call.claim counter).sum

def booked (counter : QuotaCounter) : Int :=
  shared.tracker.usage counter + shared.promised counter

/-- What a check that passes lets through. -/
def admitted (answer : Option QuotaError) (call : PendingCall)
    (counter : QuotaCounter) : Int :=
  if answer = none then call.claim counter else 0

/-- What a step lets through beyond the places promised before. -/
def demand : QuotaStep → QuotaCounter → Int
  | .call .addConnection =>
    admitted shared.tracker.checkConnection .connection
  | .call .addProducer => admitted shared.tracker.checkProducer .producer
  | .call (.addTopic partitions) =>
    admitted shared.tracker.checkTopic (.checkedTopic partitions)
  | .resume index => fun counter =>
    match shared.pending[index]? with
    | some (.checkedTopic partitions) =>
      if counter = .partitions then
        admitted (shared.tracker.checkPartitions partitions)
          (.topic partitions) counter
      else 0
    | _ => 0
  | _ => fun _ => 0

/-- What the checks of a step, or of the call it begins, are about. -/
def asked : QuotaStep → List PendingCall
  | .call .addConnection => [.connection]
  | .call .addProducer => [.producer]
  | .call (.addTopic partitions) => [.topic partitions]
  | .resume index =>
    match shared.pending[index]? with
    | some (.checkedTopic partitions) => [.topic partitions]
    | _ => []
  | _ => []

/-- Partition counts are no negative numbers, no sum that is checked leaves 64
bits, and what a check lets through still fits beside what is used and
promised. -/
def Unpromised (op : QuotaStep) : Prop :=
  (match op with
    | .call (.addTopic partitions) => 0 ≤ partitions
    | .call (.removeTopic partitions) => 0 ≤ partitions
    | _ => True) ∧
  (∀ call ∈ shared.asked op, ∀ counter,
    shared.booked counter + call.claim counter < 2 ^ 63) ∧
  ∀ counter, 0 < shared.demand op counter → 0 ≤ shared.tracker.quotas.limit counter →
    shared.booked counter + shared.demand op counter ≤
      shared.tracker.quotas.limit counter

def WithinLimits : Prop :=
  ∀ counter, 0 ≤ shared.tracker.quotas.limit counter →
    shared.tracker.usage counter ≤ shared.tracker.quotas.limit counter

instance (op : QuotaStep) : Decidable (shared.Unpromised op) :=
  @instDecidableAnd _ _ (match op with
      | .call (.addTopic partitions) | .call (.removeTopic partitions) =>
        inferInstanceAs (Decidable (0 ≤ partitions))
      | .call .addConnection | .call .removeConnection | .call .addProducer
      | .call .removeProducer | .resume _ => isTrue trivial)
    inferInstance

/-- The partitions a call will add are not negative. -/
def Counts : PendingCall → Prop
  | .checkedTopic partitions => 0 ≤ partitions
  | .topic partitions => 0 ≤ partitions
  | _ => True

/-- What is used and promised fits the limits. -/
structure Booked : Prop where
  fits : ∀ counter, 0 ≤ shared.tracker.quotas.limit counter →
    shared.booked counter ≤ shared.tracker.quotas.limit counter
  partitions_nonneg : 0 ≤ shared.tracker.currentPartitions
  counts : ∀ call ∈ shared.pending, Counts call

variable {shared}

theorem promised_nonneg (counter : QuotaCounter) : 0 ≤ shared.promised counter := by
  apply sum_nonneg
  intro claim hclaim
  obtain ⟨call, -, rfl⟩ := mem_map.mp hclaim
  exact call.claim_nonneg counter

theorem Booked.withinLimits (hbooked : shared.Booked) : shared.WithinLimits := by
  intro counter hlimit
  have hfits := hbooked.fits counter hlimit
  have hpromised : 0 ≤ shared.promised counter := promised_nonneg counter
  unfold booked at hfits
  omega

variable (qt : QuotaTracker) {call : PendingCall} {index : Nat}

theorem promised_eraseIdx (hcall : shared.pending[index]? = some call)
    (counter : QuotaCounter) :
    shared.promised counter = call.claim counter +
      promised ⟨shared.tracker, shared.pending.eraseIdx index⟩ counter := by
  obtain ⟨hindex, rfl⟩ := List.getElem?_eq_some_iff.mp hcall
  have hperm := getElem_cons_eraseIdx_perm hindex
  unfold promised
  rw [← (hperm.map fun call => PendingCall.claim call counter).sum_eq]
  simp

theorem booked_check (answer : Option QuotaError) (call : PendingCall)
    (counter : QuotaCounter) :
    (shared.check answer call).booked counter =
      shared.booked counter + admitted answer call counter := by
  cases answer with
  | some err => simp [check, admitted]
  | none =>
    simp [check, admitted, booked, promised, Int.add_assoc]

@[simp] theorem tracker_check (answer : Option QuotaError) (call : PendingCall) :
    (shared.check answer call).tracker = shared.tracker := by
  cases answer <;> rfl

theorem counts_check {answer : Option QuotaError}
    (hcounts : ∀ other ∈ shared.pending, Counts other) (hcall : Counts call) :
    ∀ other ∈ (shared.check answer call).pending, Counts other := by
  cases answer with
  | some err => exact hcounts
  | none =>
    intro other hother
    rcases mem_append.mp hother with hold | hnew
    · exact hcounts other hold
    · rw [mem_singleton.mp hnew]
      exact hcall

theorem usage_removeConnection_le (counter : QuotaCounter) :
    qt.removeConnection.usage counter ≤ qt.usage counter := by
  unfold QuotaTracker.removeConnection
  split
  · cases counter <;> simp [QuotaTracker.usage]
  · exact le_rfl

theorem usage_removeProducer_le (counter : QuotaCounter) :
    qt.removeProducer.usage counter ≤ qt.usage counter := by
  unfold QuotaTracker.removeProducer
  split
  · cases counter <;> simp [QuotaTracker.usage]
  · exact le_rfl

variable {partitions : Int} {op : QuotaStep}

theorem usage_removeTopic_le {qt : QuotaTracker} (hpartitions : 0 ≤ partitions)
    (hcurrent : 0 ≤ qt.currentPartitions) (counter : QuotaCounter) :
    (qt.removeTopic partitions).usage counter ≤ qt.usage counter := by
  unfold QuotaTracker.removeTopic
  cases counter with
  | connections | producers => exact le_rfl
  | topics =>
    simp only [QuotaTracker.usage]
    split <;> omega
  | partitions =>
    simp only [QuotaTracker.usage]
    omega

/-- A step that lets nothing more through than fits keeps the bookings. -/
theorem Booked.of_demand {after : SharedTracker} (hbooked : shared.Booked)
    (hop : shared.Unpromised op)
    (hquotas : after.tracker.quotas = shared.tracker.quotas)
    (hdemand : ∀ counter, after.booked counter ≤
      shared.booked counter + shared.demand op counter)
    (hpartitions : 0 ≤ after.tracker.currentPartitions)
    (hcounts : ∀ call ∈ after.pending, Counts call) : after.Booked where
  fits counter := by
    rw [hquotas]
    intro hlimit
    have hle := hdemand counter
    have hfits := hbooked.fits counter hlimit
    by_cases hmore : 0 < shared.demand op counter
    · exact hle.trans (hop.2.2 counter hmore hlimit)
    · omega
  partitions_nonneg := hpartitions
  counts := hcounts

theorem booked_begin {call : QuotaCall} (hbooked : shared.Booked)
    (hcall : shared.Unpromised (.call call)) : (shared.begin call).Booked := by
  have hkept : ∀ qt : QuotaTracker, qt.quotas = shared.tracker.quotas →
      (∀ counter, qt.usage counter ≤ shared.tracker.usage counter) →
      0 ≤ qt.currentPartitions →
      shared.demand (.call call) = (fun _ => 0) →
      SharedTracker.Booked { shared with tracker := qt } := by
    intro qt hquotas husage hpartitions hnone
    refine hbooked.of_demand hcall hquotas ?_ hpartitions hbooked.counts
    intro counter
    rw [hnone]
    have hle := husage counter
    change qt.usage counter + shared.promised counter ≤
      shared.tracker.usage counter + shared.promised counter + 0
    omega
  cases call with
  | addConnection | addProducer =>
    refine hbooked.of_demand hcall (by simp [begin])
      (fun counter => (booked_check _ _ counter).le)
      (by simpa [begin] using hbooked.partitions_nonneg)
      (counts_check hbooked.counts trivial)
  | addTopic partitions =>
    refine hbooked.of_demand hcall (by simp [begin])
      (fun counter => (booked_check _ _ counter).le)
      (by simpa [begin] using hbooked.partitions_nonneg)
      (counts_check hbooked.counts hcall.1)
  | removeConnection =>
    apply hkept
    · unfold QuotaTracker.removeConnection
      split <;> rfl
    · exact usage_removeConnection_le shared.tracker
    · unfold QuotaTracker.removeConnection
      split <;> exact hbooked.partitions_nonneg
    · rfl
  | removeProducer =>
    apply hkept
    · unfold QuotaTracker.removeProducer
      split <;> rfl
    · exact usage_removeProducer_le shared.tracker
    · unfold QuotaTracker.removeProducer
      split <;> exact hbooked.partitions_nonneg
    · rfl
  | removeTopic partitions =>
    apply hkept
    · rfl
    · exact usage_removeTopic_le hcall.1 hbooked.partitions_nonneg
    · exact le_max_left 0 _
    · rfl

theorem counts_of_getElem? (hbooked : shared.Booked)
    (hcall : shared.pending[index]? = some call) :
    Counts call :=
  hbooked.counts call (mem_of_getElem? hcall)

/-- Going on trades a promise for a place. -/
theorem booked_raised {qt : QuotaTracker} {counter : QuotaCounter}
    (hcall : shared.pending[index]? = some call)
    (hraised : qt.usage counter ≤ shared.tracker.usage counter + call.claim counter) :
    booked ⟨qt, shared.pending.eraseIdx index⟩ counter ≤ shared.booked counter := by
  have hpromised := promised_eraseIdx hcall counter
  change qt.usage counter +
    promised ⟨shared.tracker, shared.pending.eraseIdx index⟩ counter ≤
      shared.tracker.usage counter + shared.promised counter
  omega

theorem admitted_topic_le
    (hcall : shared.pending[index]? = some (.checkedTopic partitions))
    (counter : QuotaCounter) :
    admitted (shared.tracker.checkPartitions partitions) (.topic partitions) counter ≤
      (PendingCall.checkedTopic partitions).claim counter +
        shared.demand (.resume index) counter := by
  simp only [demand, hcall]
  cases counter with
  | partitions => simp [PendingCall.claim]
  | connections | producers => simp [admitted, PendingCall.claim]
  | topics =>
    simp only [admitted, PendingCall.claim]
    split <;> simp

theorem booked_resume (hbooked : shared.Booked)
    (hop : shared.Unpromised (.resume index)) :
    (shared.step (.resume index)).Booked := by
  cases hcall : shared.pending[index]? with
  | none => simpa [step, hcall] using hbooked
  | some call =>
    have hrest : ∀ other ∈ shared.pending.eraseIdx index, Counts other :=
      fun other hother =>
        hbooked.counts other (mem_of_mem_eraseIdx hother)
    have hstep : shared.step (.resume index) = proceed
        ⟨shared.tracker, shared.pending.eraseIdx index⟩ call := by
      simp only [step, hcall]
    rw [hstep]
    cases call with
    | connection =>
      refine hbooked.of_demand hop rfl ?_ hbooked.partitions_nonneg hrest
      intro counter
      simp only [demand, hcall, add_zero]
      apply booked_raised hcall
      cases counter <;>
        simp [QuotaTracker.usage, QuotaTracker.incrementConnections,
          PendingCall.claim]
    | producer =>
      refine hbooked.of_demand hop rfl ?_ hbooked.partitions_nonneg hrest
      intro counter
      simp only [demand, hcall, add_zero]
      apply booked_raised hcall
      cases counter <;>
        simp [QuotaTracker.usage, QuotaTracker.incrementProducers, PendingCall.claim]
    | checkedTopic partitions =>
      have hcounts : 0 ≤ partitions := counts_of_getElem? hbooked hcall
      refine hbooked.of_demand hop (by simp [proceed]) ?_
        (by simpa [proceed] using hbooked.partitions_nonneg)
        (counts_check hrest hcounts)
      intro counter
      rw [proceed, booked_check]
      have hadmitted := admitted_topic_le hcall counter
      have hpromised := promised_eraseIdx hcall counter
      simp only [booked]
      omega
    | topic partitions =>
      have hcounts : 0 ≤ partitions := counts_of_getElem? hbooked hcall
      refine hbooked.of_demand hop rfl ?_
        (Int.add_nonneg hbooked.partitions_nonneg hcounts) hrest
      intro counter
      simp only [demand, hcall, add_zero]
      apply booked_raised hcall
      cases counter <;>
        simp [QuotaTracker.usage, QuotaTracker.incrementTopics, PendingCall.claim]

theorem booked_step (hbooked : shared.Booked) (hop : shared.Unpromised op) :
    (shared.step op).Booked := by
  cases op with
  | call call => exact booked_begin hbooked hop
  | resume index => exact booked_resume hbooked hop

theorem booked_new (tenantId : TenantId) (quotas : Quotas) :
    Booked ⟨newQuotaTracker tenantId quotas, []⟩ where
  fits counter hlimit := by
    cases counter <;> exact hlimit
  partitions_nonneg := le_rfl
  counts := by simp

/-- The counters of a tracker are within its limits after every interleaving
of calls in which no check lets a promised place through again. -/
theorem withinLimits_of_unpromised (tenantId : TenantId) (quotas : Quotas)
    (ops : List QuotaStep)
    (hops : AllAllowed step Unpromised ⟨newQuotaTracker tenantId quotas, []⟩ ops) :
    (runSteps step ⟨newQuotaTracker tenantId quotas, []⟩ ops).WithinLimits :=
  (hops.invariant Booked (fun _ _ => booked_step)
    (booked_new tenantId quotas)).withinLimits

def twoPlaces : Quotas where
  maxBytesPerSecond := -1
  maxMessagesPerSecond := -1
  maxTopics := 2
  maxPartitions := 8
  maxConnections := 2
  maxProducers := 1

/-- Calls may overlap as long as there is room for all of them. -/
theorem withinLimits_of_unpromised_overlapping :
    (runSteps step ⟨newQuotaTracker [] twoPlaces, []⟩
      [.call .addConnection, .call (.addTopic 5), .call .addConnection,
        .call (.addTopic 3), .resume 1, .resume 2, .resume 3, .resume 2,
        .resume 1, .resume 0, .call .addConnection,
        .call (.removeTopic 5)]).WithinLimits :=
  withinLimits_of_unpromised _ _ _ (by decide)

/-- Two calls pass the check for the last place before either takes it. -/
theorem not_withinLimits_raced : ¬ (runSteps step ⟨newQuotaTracker [] twoPlaces, []⟩
      [.call .addProducer, .call .addProducer, .resume 0,
        .resume 0]).WithinLimits := by
  intro hwithin
  exact absurd (hwithin .producers (by decide)) (by decide)

end SharedTracker

end Streambus.Tenancy
