/-
Producer identities, and who may touch a transaction.  A producer ID goes to
one transactional ID, and every time it is claimed again its epoch moves on, so
that the requests of the producer that had it before are turned away.  A
transaction belongs to the producer ID and epoch it was started with; each
request is checked on its own.
-/
import Streambus.TransactionOutcome

namespace Streambus

open OrderedMap TransactionCoordinator

/-- The requests a producer sends about a transaction. -/
inductive TxnRequest where
  | addPartitionsToTxn (req : AddPartitionsToTxnRequest) (now : Int)
  | addOffsetsToTxn (req : AddOffsetsToTxnRequest)
  | txnOffsetCommit (req : TxnOffsetCommitRequest)
  | endTxn (req : EndTxnRequest) (now : Int)

namespace TxnRequest

def transactionId : TxnRequest → String
  | addPartitionsToTxn req _ => req.transactionId
  | addOffsetsToTxn req => req.transactionId
  | txnOffsetCommit req => req.transactionId
  | endTxn req _ => req.transactionId

def producerId : TxnRequest → Int64
  | addPartitionsToTxn req _ => req.producerId
  | addOffsetsToTxn req => req.producerId
  | txnOffsetCommit req => req.producerId
  | endTxn req _ => req.producerId

def producerEpoch : TxnRequest → Int16
  | addPartitionsToTxn req _ => req.producerEpoch
  | addOffsetsToTxn req => req.producerEpoch
  | txnOffsetCommit req => req.producerEpoch
  | endTxn req _ => req.producerEpoch

/-- The request comes from the producer that started the transaction. -/
def Owns (request : TxnRequest) (txn : TransactionMetadata) : Prop :=
  txn.producerId = request.producerId ∧ txn.producerEpoch = request.producerEpoch
deriving Decidable

end TxnRequest

/-- Some partition of a response has an error. -/
def hasError (errors : PartitionMap ErrorCode) : Bool :=
  errors.entries.any fun entry =>
    entry.2.entries.any fun inner => inner.2 ≠ .none

theorem hasError_iff (errors : PartitionMap ErrorCode) :
    hasError errors = true ↔ ∃ topic partition code,
      errors.lookup topic partition = some code ∧ code ≠ .none := by
  simp only [hasError, List.any_eq_true, decide_eq_true_eq,
    PartitionMap.lookup, Option.bind_eq_some_iff]
  constructor
  · rintro ⟨⟨topic, inner⟩, htopic, ⟨partition, code⟩, hpartition, hcode⟩
    rw [mem_entries_iff] at htopic hpartition
    exact ⟨topic, partition, code, ⟨inner, htopic, hpartition⟩, hcode⟩
  · rintro ⟨topic, partition, code, ⟨inner, htopic, hpartition⟩, hcode⟩
    rw [← mem_entries_iff] at htopic hpartition
    exact ⟨(topic, inner), htopic, (partition, code), hpartition, hcode⟩

variable (partitions : List PartitionMetadata) {txn : TransactionMetadata}

theorem hasError_buildPartitionErrors {code : ErrorCode} (hcode : code ≠ .none) :
    hasError (buildPartitionErrors partitions code) = true ↔ partitions ≠ [] := by
  simp only [hasError_iff, CoordinatorRun.lookup_buildPartitionErrors]
  constructor
  · rintro ⟨topic, partition, found, hfound, -⟩ rfl
    simp at hfound
  · intro hne
    obtain ⟨head, tail, rfl⟩ := List.exists_cons_of_ne_nil hne
    exact ⟨head.topic, head.partition, code, by simp, hcode⟩

namespace TransactionCoordinator

variable {σ : Type}

/-- The coordinator after a request, and whether the response reports an
error. -/
def handle (services : Services σ) (tc : TransactionCoordinator) (world : σ) :
    TxnRequest → TransactionCoordinator × Bool
  | .addPartitionsToTxn req now =>
    ((tc.addPartitionsToTxn req now).1,
      match (tc.addPartitionsToTxn req now).2 with
      | .error _ => true
      | .ok errors => hasError errors)
  | .addOffsetsToTxn req =>
    ((tc.addOffsetsToTxn req).1, (tc.addOffsetsToTxn req).2 ≠ .none)
  | .txnOffsetCommit req =>
    ((tc.txnOffsetCommit services req).1,
      hasError (tc.txnOffsetCommit services req).2)
  | .endTxn req now =>
    ((tc.endTxn services world req now).1,
      (tc.endTxn services world req now).2.2 ≠ .none)

end TransactionCoordinator

/-- A transaction is started only by the producer registered for its ID, and a
live one is left alone by any request but its owner's, which reports an
error. -/
structure OwnerOnly (tc : TransactionCoordinator) (request : TxnRequest)
    (result : TransactionCoordinator × Bool) : Prop where
  starts : ∀ id txn, tc.live id = none → result.1.live id = some txn →
    ∃ producer, tc.producers.find? request.producerId = some producer ∧
      producer.producerEpoch = request.producerEpoch ∧
      producer.transactionId = id
  leaves : ∀ id txn, tc.live id = some txn →
    (request.transactionId ≠ id ∨ ¬ request.Owns txn) →
      result.1.transactions.find? id = some txn
  reports : ∀ txn, tc.live request.transactionId = some txn →
    ¬ request.Owns txn → result.2 = true

theorem ownerOnly_same (tc : TransactionCoordinator) (request : TxnRequest)
    (failed : Bool) : OwnerOnly tc request (tc, failed) ↔
      ∀ txn, tc.live request.transactionId = some txn → ¬ request.Owns txn →
        failed = true := by
  constructor
  · intro howner
    exact howner.reports
  · intro hreports
    refine ⟨?_, ?_, hreports⟩
    · intro id txn hnone hsome
      rw [hnone] at hsome
      cases hsome
    · intro id txn hlive _
      exact find?_of_live hlive

variable {tc : TransactionCoordinator} {request : TxnRequest}

theorem ownerOnly_rejected (hlive : tc.live request.transactionId = some txn)
    (howns : ¬ request.Owns txn) (failed : Bool) :
    OwnerOnly tc request (tc, failed) ↔ failed = true := by
  rw [ownerOnly_same]
  constructor
  · intro hreports
    exact hreports txn hlive howns
  · intro hfailed _ _ _
    exact hfailed

theorem ownerOnly_absent (hlive : tc.live request.transactionId = none)
    (failed : Bool) :
    OwnerOnly tc request (tc, failed) := by
  rw [ownerOnly_same]
  intro txn hsome
  rw [hlive] at hsome
  cases hsome

/-- The owner may change its live transaction. -/
theorem ownerOnly_of_owns {after : TransactionCoordinator} {failed : Bool}
    (hlive : tc.live request.transactionId = some txn)
    (howns : request.Owns txn)
    (hother : ∀ id, request.transactionId ≠ id →
      after.transactions.find? id = tc.transactions.find? id) :
    OwnerOnly tc request (after, failed) := by
  constructor
  · intro id started hnone hsome
    by_cases hid : request.transactionId = id
    · rw [← hid, hlive] at hnone
      cases hnone
    · rw [TransactionCoordinator.live] at hnone hsome
      rw [hother id hid, hnone] at hsome
      cases hsome
  · intro id stored hstored hnot
    by_cases hid : request.transactionId = id
    · subst hid
      obtain rfl : txn = stored := Option.some.inj (hlive.symm.trans hstored)
      rcases hnot with hne | hnot
      · exact absurd rfl hne
      · exact absurd howns hnot
    · exact (hother id hid).trans (find?_of_live hstored)
  · intro stored hstored hnot
    obtain rfl : txn = stored := Option.some.inj (hlive.symm.trans hstored)
    exact absurd howns hnot

namespace TransactionCoordinator

variable {σ : Type} {tc : TransactionCoordinator} {txn : TransactionMetadata}
  {id : String} (services : Services σ) {other : String} {producerId : Int64}
  {req : AddOffsetsToTxnRequest} {epoch : Int16}

theorem validateProducer_eq_ok : tc.validateProducer producerId epoch = .ok () ↔
      ∃ producer, tc.producers.find? producerId = some producer ∧
        producer.producerEpoch = epoch := by
  unfold validateProducer
  cases tc.producers.find? producerId with
  | none => simp
  | some producer =>
    by_cases hepoch : producer.producerEpoch = epoch <;> simp [hepoch]

theorem live_eq_some : tc.live id = some txn ↔
      tc.transactions.find? id = some txn ∧ txn.state.isTerminal = false := by
  simp [live, Option.filter_eq_some_iff, isTerminalState_eq]

/-- A request that the checks let through to a transaction of another
producer, or turn away without reporting it. -/
def Unchecked (tc : TransactionCoordinator) : TxnRequest → Prop
  | .addPartitionsToTxn req now =>
    ∃ producer, tc.producers.find? req.producerId = some producer ∧
      producer.producerEpoch = req.producerEpoch ∧
      match tc.live req.transactionId with
      | none => producer.transactionId ≠ req.transactionId
      | some txn => ¬ (TxnRequest.addPartitionsToTxn req now).Owns txn ∧
          req.partitions = []
  | .addOffsetsToTxn req =>
    ∃ producer, tc.producers.find? req.producerId = some producer ∧
      producer.producerEpoch = req.producerEpoch ∧
      ∃ txn, tc.live req.transactionId = some txn ∧ txn.state = .ongoing ∧
        (txn.groupId = "" ∨ txn.groupId = req.groupId) ∧
        ¬ (TxnRequest.addOffsetsToTxn req).Owns txn
  | .txnOffsetCommit req =>
    ∃ txn, tc.live req.transactionId = some txn ∧
      ¬ (TxnRequest.txnOffsetCommit req).Owns txn ∧
      partitionsFromOffsets req.offsets = []
  | .endTxn _ _ => False

theorem find?_addPartitions_of_ne (tc : TransactionCoordinator)
    (txn : TransactionMetadata) (req : AddPartitionsToTxnRequest)
    (hne : req.transactionId ≠ other) :
    (tc.addPartitions txn req).transactions.find? other =
      tc.transactions.find? other :=
  find?_insert_of_ne _ hne _

/-- The transaction that a request starts is live. -/
theorem live_addPartitions (req : AddPartitionsToTxnRequest)
    (hongoing : txn.state = .ongoing) :
    (tc.addPartitions txn req).live req.transactionId =
      some (appendPartitions txn req.partitions).1 := by
  rw [live_eq_some]
  refine ⟨find?_insert_self _ _ _, ?_⟩
  have hstate : ∀ (partitions : List PartitionMetadata) (txn : TransactionMetadata),
      (appendPartitions txn partitions).1.state = txn.state := by
    intro partitions
    induction partitions with
    | nil => exact fun _ => rfl
    | cons head tail ih =>
      intro txn
      unfold appendPartitions
      split
      · exact ih txn
      · exact ih _
  rw [hstate, hongoing]
  rfl

theorem ownerOnly_start (req : AddPartitionsToTxnRequest) (now : Int)
    {producer : ProducerMetadata}
    (hproducer : tc.producers.find? req.producerId = some producer)
    (hepoch : producer.producerEpoch = req.producerEpoch)
    (hlive : tc.live req.transactionId = none) (txn : TransactionMetadata)
    (hid : txn.transactionId = req.transactionId)
    (hongoing : txn.state = .ongoing) (failed : Bool) :
    OwnerOnly tc (.addPartitionsToTxn req now)
        (((tc.start txn).logTransaction txn).addPartitions txn req, failed) ↔
      producer.transactionId = req.transactionId := by
  have hother : ∀ id, req.transactionId ≠ id →
      (((tc.start txn).logTransaction txn).addPartitions txn
        req).transactions.find? id = tc.transactions.find? id := by
    intro id hne
    rw [find?_addPartitions_of_ne _ _ _ hne]
    exact find?_insert_of_ne _ (hid ▸ hne) _
  constructor
  · intro howner
    obtain ⟨other, hother, -, hregistered⟩ := howner.starts req.transactionId _
      hlive (live_addPartitions req hongoing)
    obtain rfl : producer = other := Option.some.inj (hproducer.symm.trans hother)
    exact hregistered
  · intro hregistered
    constructor
    · intro id started hnone hstarted
      by_cases hsame : req.transactionId = id
      · exact ⟨producer, hproducer, hepoch, hregistered.trans hsame⟩
      · rw [live] at hnone hstarted
        rw [hother id hsame, hnone] at hstarted
        cases hstarted
    · intro id stored hstored _
      have hne : req.transactionId ≠ id := by
        rintro rfl
        rw [hlive] at hstored
        cases hstored
      exact (hother id hne).trans (find?_of_live hstored)
    · intro stored hstored
      change tc.live req.transactionId = some stored at hstored
      rw [hlive] at hstored
      cases hstored

theorem ownerOnly_addPartitionsToTxn (tc : TransactionCoordinator) (world : σ)
    (req : AddPartitionsToTxnRequest) (now : Int) :
    OwnerOnly tc (.addPartitionsToTxn req now)
        (tc.handle services world (.addPartitionsToTxn req now)) ↔
      ¬ tc.Unchecked (.addPartitionsToTxn req now) := by
  cases hvalid : tc.validateProducer req.producerId req.producerEpoch with
  | error message =>
    have hresult : tc.addPartitionsToTxn req now = (tc, .error message) := by
      simp [addPartitionsToTxn, hvalid]
    simp only [handle, hresult, ownerOnly_same, implies_true, true_iff]
    rintro ⟨producer, hproducer, hepoch, -⟩
    have hok := validateProducer_eq_ok.mpr ⟨producer, hproducer, hepoch⟩
    rw [hvalid] at hok
    cases hok
  | ok _ =>
    obtain ⟨producer, hproducer, hepoch⟩ := validateProducer_eq_ok.mp hvalid
    cases hlive : tc.live req.transactionId with
    | none =>
      have hresult : tc.addPartitionsToTxn req now =
          (((tc.start (tc.newTransaction req producer now)).logTransaction
            (tc.newTransaction req producer now)).addPartitions
              (tc.newTransaction req producer now) req, .ok ∅) := by
        simp [addPartitionsToTxn, hvalid, hlive, hproducer]
      simp only [handle, hresult, Unchecked, hlive, hproducer, hepoch,
        Option.some.injEq, exists_eq_left', true_and, not_not]
      exact ownerOnly_start req now hproducer hepoch hlive _ rfl rfl _
    | some txn =>
      simp only [Unchecked, hlive, hproducer, hepoch, Option.some.injEq,
        exists_eq_left', true_and, not_and]
      by_cases howns : (TxnRequest.addPartitionsToTxn req now).Owns txn
      · simp only [howns, not_true_eq_false, false_implies, iff_true]
        apply ownerOnly_of_owns hlive howns
        intro id hne
        unfold addPartitionsToTxn
        rw [hvalid, hlive]
        dsimp only
        split
        · rfl
        · split
          · rfl
          · exact find?_addPartitions_of_ne tc txn req hne
      · obtain ⟨code, hcode, hresult⟩ : ∃ code, code ≠ ErrorCode.none ∧
            tc.addPartitionsToTxn req now =
              (tc, .ok (buildPartitionErrors req.partitions code)) := by
          unfold addPartitionsToTxn
          rw [hvalid, hlive]
          dsimp only
          split
          · exact ⟨_, by decide, rfl⟩
          · have hother : txn.producerId ≠ req.producerId ∨
                txn.producerEpoch ≠ req.producerEpoch :=
              not_and_or.mp howns
            rw [if_pos hother]
            exact ⟨_, by decide, rfl⟩
        simp only [handle, hresult, ownerOnly_rejected hlive howns,
          hasError_buildPartitionErrors _ hcode, howns, not_false_eq_true,
          forall_const, ne_eq]

theorem ownerOnly_reported (tc : TransactionCoordinator) (request : TxnRequest) :
    OwnerOnly tc request (tc, true) := by
  rw [ownerOnly_same]
  intros
  rfl

theorem addOffsetsToTxn_of_records (hrecords : RecordsGroup tc req txn) :
    tc.addOffsetsToTxn req = (tc.save req.transactionId
      { txn with groupId := req.groupId } [.grouped req.groupId], .none) := by
  have hgroup : ¬ (txn.groupId ≠ "" ∧ txn.groupId ≠ req.groupId) := by
    rw [not_and_or, not_not, not_not]
    exact hrecords.group
  simp only [addOffsetsToTxn, hrecords.valid, hrecords.stored,
    hrecords.ongoing, ne_eq, not_true_eq_false, ↓reduceIte]
  rw [if_neg hgroup]

/-- Only the epoch and the group are checked before a group is recorded. -/
theorem ownerOnly_addOffsetsToTxn (tc : TransactionCoordinator) (world : σ)
    (req : AddOffsetsToTxnRequest) :
    OwnerOnly tc (.addOffsetsToTxn req)
        (tc.handle services world (.addOffsetsToTxn req)) ↔
      ¬ tc.Unchecked (.addOffsetsToTxn req) := by
  rcases tc.addOffsetsToTxn_cases req with
    ⟨code, hcode, hresult⟩ | ⟨txn, hrecords, hresult⟩
  · simp only [handle, hresult, hcode, ne_eq, not_false_eq_true, decide_true]
    refine iff_of_true (ownerOnly_reported tc _) ?_
    rintro ⟨producer, hproducer, hepoch, txn, hlive, hongoing, hgroup, -⟩
    rw [addOffsetsToTxn_of_records ⟨validateProducer_eq_ok.mpr ⟨producer,
      hproducer, hepoch⟩, find?_of_live hlive, hongoing, hgroup⟩] at hresult
    exact hcode (congrArg Prod.snd hresult).symm
  · have hlive : tc.live req.transactionId = some txn :=
      live_eq_some.mpr ⟨hrecords.stored, by rw [hrecords.ongoing]; rfl⟩
    simp only [handle, hresult]
    by_cases howns : (TxnRequest.addOffsetsToTxn req).Owns txn
    · refine iff_of_true (ownerOnly_of_owns hlive howns ?_) ?_
      · intro id hne
        exact find?_insert_of_ne _ hne _
      · rintro ⟨-, -, -, stored, hstored, -, -, hnot⟩
        exact hnot (Option.some.inj (hlive.symm.trans hstored) ▸ howns)
    · refine iff_of_false ?_ ?_
      · intro howner
        have := howner.reports txn hlive howns
        simp at this
      · rw [not_not]
        obtain ⟨producer, hproducer, hepoch⟩ :=
          validateProducer_eq_ok.mp hrecords.valid
        exact ⟨producer, hproducer, hepoch, txn, hlive, hrecords.ongoing,
          hrecords.group, howns⟩

theorem ownerOnly_txnOffsetCommit (tc : TransactionCoordinator) (world : σ)
    (req : TxnOffsetCommitRequest) :
    OwnerOnly tc (.txnOffsetCommit req)
        (tc.handle services world (.txnOffsetCommit req)) ↔
      ¬ tc.Unchecked (.txnOffsetCommit req) := by
  rcases txnOffsetCommit_cases services tc req with
    ⟨code, hcode, hresult⟩ | ⟨txn, hfind, hongoing, -, howns, hresult⟩
  · simp only [handle, hresult]
    cases hlive : tc.live req.transactionId with
    | none =>
      refine iff_of_true (ownerOnly_absent hlive _) ?_
      rintro ⟨txn, hsome, -⟩
      rw [hlive] at hsome
      cases hsome
    | some txn =>
      simp only [Unchecked, hlive, Option.some.injEq, exists_eq_left', not_and]
      by_cases howns : (TxnRequest.txnOffsetCommit req).Owns txn
      · simp only [howns, not_true_eq_false, false_implies, iff_true]
        exact ownerOnly_of_owns hlive howns fun _ _ => rfl
      · simp only [ownerOnly_rejected hlive howns,
          hasError_buildPartitionErrors _ hcode, howns, not_false_eq_true,
          forall_const, ne_eq]
  · have hlive : tc.live req.transactionId = some txn :=
      live_eq_some.mpr ⟨hfind, by rw [hongoing]; rfl⟩
    simp only [handle, hresult]
    refine iff_of_true (ownerOnly_of_owns hlive howns ?_) ?_
    · intro id hne
      exact find?_insert_of_ne _ hne _
    · rintro ⟨stored, hstored, hnot, -⟩
      exact hnot (Option.some.inj (hlive.symm.trans hstored) ▸ howns)

theorem ownerOnly_endTxn (tc : TransactionCoordinator) (world : σ)
    (req : EndTxnRequest) (now : Int) :
    OwnerOnly tc (.endTxn req now) (tc.handle services world (.endTxn req now)) := by
  rcases endTxn_cases services tc world req now with
    ⟨code, hcode, hresult⟩ | ⟨txn, hfind, hcode, howns, hresult⟩
  · simp only [handle, hresult, hcode, ne_eq, not_false_eq_true, decide_true]
    exact ownerOnly_reported tc _
  · have hopen : txn.state.isTerminal = false := by
      cases hstate : txn.state <;>
        simp_all [endTxnStateError, TransactionState.isTerminal]
    have howns : (TxnRequest.endTxn req now).Owns txn := howns
    apply ownerOnly_of_owns (live_eq_some.mpr ⟨hfind, hopen⟩) howns
    intro id (hne : req.transactionId ≠ id)
    have hprepared : (tc.prepareOnce req.transactionId txn
        req.commit).1.transactions.find? id = tc.transactions.find? id := by
      unfold prepareOnce
      split
      · exact find?_insert_of_ne _ hne _
      · rfl
    simp only [hresult, finish]
    rw [← hprepared]
    split <;> exact find?_insert_of_ne _ hne _

/-- A request keeps every transaction to its owner exactly if it is not one
that the checks miss. -/
theorem ownerOnly_iff (services : Services σ) (tc : TransactionCoordinator)
    (world : σ) (request : TxnRequest) :
    OwnerOnly tc request (tc.handle services world request) ↔
      ¬ tc.Unchecked request := by
  cases request with
  | addPartitionsToTxn req now =>
    exact ownerOnly_addPartitionsToTxn services tc world req now
  | addOffsetsToTxn req =>
    exact ownerOnly_addOffsetsToTxn services tc world req
  | txnOffsetCommit req =>
    exact ownerOnly_txnOffsetCommit services tc world req
  | endTxn req now =>
    exact iff_of_true (ownerOnly_endTxn services tc world req now) id

/-- Two producers, registered for `a` and for `b`; the first has a transaction
under its ID. -/
def twoProducers : TransactionCoordinator :=
  (runSteps (CoordinatorRun.step CoordinatorRun.reliable)
    (CoordinatorRun.fresh true CoordinatorRun.defaultConfig ())
    [.initProducerId ⟨"a", 0⟩, .initProducerId ⟨"b", 0⟩,
      .addPartitionsToTxn ⟨"a", 1001, 0, [⟨"orders", 0⟩]⟩ 0]).tc

/-- The second producer names a group for the transaction of the first, and
starts a transaction under an ID that it never registered; neither request
reports an error. -/
theorem foreign_requests_accepted : (twoProducers.transactions.find? "a").map
        (fun txn => (txn.producerId, txn.groupId)) = some (1001, "") ∧
    ((twoProducers.handle CoordinatorRun.reliable ()
        (.addOffsetsToTxn ⟨"a", 1002, 0, "g"⟩)).1.transactions.find? "a").map
          (fun txn => (txn.producerId, txn.groupId)) = some (1001, "g") ∧
    (twoProducers.handle CoordinatorRun.reliable ()
      (.addOffsetsToTxn ⟨"a", 1002, 0, "g"⟩)).2 = false ∧
    (twoProducers.producers.find? 1002).map
        (fun producer => producer.transactionId) = some "b" ∧
    ((twoProducers.handle CoordinatorRun.reliable () (.addPartitionsToTxn
        ⟨"c", 1002, 0, [⟨"orders", 0⟩]⟩ 1)).1.transactions.find? "c").map
          (fun txn => txn.producerId) = some 1002 ∧
    (twoProducers.handle CoordinatorRun.reliable () (.addPartitionsToTxn
      ⟨"c", 1002, 0, [⟨"orders", 0⟩]⟩ 1)).2 = false := by
  decide +kernel

end TransactionCoordinator

open List OrderedMap

/-- The number of claims of a producer ID before the one that got an epoch. -/
def epochAge (epoch : Int16) : Nat := epoch.toBitVec.toNat

variable {epoch : Int16}

theorem epochAge_inj {other : Int16} (hage : epochAge epoch = epochAge other) :
    epoch = other := by
  apply Int16.toBitVec_inj.mp
  exact BitVec.eq_of_toNat_eq hage

theorem epochAge_succ (hepoch : epoch ≠ -1) :
    epochAge (epoch + 1) = epochAge epoch + 1 := by
  have hlt : epochAge epoch < 65536 := epoch.toBitVec.isLt
  have hlast : epochAge epoch ≠ 65535 := by
    intro hage
    apply hepoch
    apply epochAge_inj
    rw [hage]
    rfl
  have hsum : epochAge (epoch + 1) = (epochAge epoch + 1) % 65536 := by
    simp [epochAge, Int16.toBitVec_add, BitVec.toNat_add]
  omega

/-- An identity handed out to a transactional ID. -/
structure Grant where
  transactionId : String
  producerId : Int64
  producerEpoch : Int16
deriving DecidableEq

/-- The identity an operation hands out, if it does. -/
def TransactionCoordinator.grantOf (tc : TransactionCoordinator) :
    TxnOperation → Option Grant
  | .initProducerId req =>
    let response := (tc.initProducerId req).2
    if response.errorCode = .none then
      some ⟨req.transactionId, response.producerId, response.producerEpoch⟩
    else none
  | _ => none

/-- Newer identities of a producer ID belong to the same transactional ID. -/
def Grant.Supersedes (older newer : Grant) : Prop :=
  older.producerId = newer.producerId →
    older.transactionId = newer.transactionId ∧ older.transactionId ≠ "" ∧
      epochAge older.producerEpoch < epochAge newer.producerEpoch

/-- The producers on record have the identities handed out last. -/
structure Granted (tc : TransactionCoordinator) (grants : List Grant) : Prop where
  keyed : ∀ producerId producer, tc.producers.find? producerId = some producer →
      producer.producerId = producerId
  current : ∀ grant ∈ grants, ∃ producer,
    tc.producers.find? grant.producerId = some producer ∧
      producer.transactionId = grant.transactionId ∧
      epochAge grant.producerEpoch ≤ epochAge producer.producerEpoch
  ordered : grants.Pairwise Grant.Supersedes

variable {tc : TransactionCoordinator}

theorem findProducerByTransactionId_eq_some {grants : List Grant}
    (hgranted : Granted tc grants) {id : String} {producer : ProducerMetadata}
    (hfound : tc.findProducerByTransactionId id = some producer) :
    tc.producers.find? producer.producerId = some producer ∧
      producer.transactionId = id := by
  have hid := find?_some hfound
  obtain ⟨⟨key, stored⟩, hmem, rfl⟩ :=
    mem_map.mp (mem_of_find?_eq_some hfound)
  rw [mem_entries_iff] at hmem
  rw [hgranted.keyed key stored hmem]
  exact ⟨hmem, by simpa using hid⟩

/-- The identity of a producer. -/
def ProducerMetadata.grant (producer : ProducerMetadata) : Grant :=
  ⟨producer.transactionId, producer.producerId, producer.producerEpoch⟩

section

variable {tc : TransactionCoordinator} {grants : List Grant}

/-- A producer is put on record with an identity that supersedes its older
ones. -/
theorem granted_record (hgranted : Granted tc grants) (producer : ProducerMetadata)
    (hnewest : ∀ older ∈ grants, older.Supersedes producer.grant)
    (nextProducerId : Int64) :
    Granted { tc with
        nextProducerId := nextProducerId
        producers := tc.producers.insert producer.producerId producer }
      (grants ++ [producer.grant]) := by
  constructor
  · intro producerId found hfind
    rw [find?_insert] at hfind
    split at hfind
    next heq =>
      cases hfind
      exact heq
    · exact hgranted.keyed producerId found hfind
  · intro grant hgrant
    rw [mem_append, mem_singleton] at hgrant
    rcases hgrant with hgrant | rfl
    · by_cases hsame : producer.producerId = grant.producerId
      · obtain ⟨htransaction, -, hlt⟩ := hnewest grant hgrant hsame.symm
        rw [find?_insert, if_pos hsame]
        exact ⟨_, rfl, htransaction.symm, hlt.le⟩
      · rw [find?_insert_of_ne _ hsame]
        exact hgranted.current grant hgrant
    · exact ⟨_, find?_insert_self _ _ _, rfl, le_rfl⟩
  · rw [pairwise_append]
    refine ⟨hgranted.ordered, pairwise_singleton _ _, ?_⟩
    intro older holder newer hnewer
    rw [mem_singleton.mp hnewer]
    exact hnewest older holder

/-- A new claim on a registered ID. -/
theorem granted_reclaim (hgranted : Granted tc grants) {existing : ProducerMetadata}
    (hstored : tc.producers.find? existing.producerId = some existing)
    (hid : existing.transactionId ≠ "") (hepoch : existing.producerEpoch ≠ -1)
    (timeout : Int) :
    Granted { tc with
        producers := tc.producers.insert existing.producerId
          ⟨existing.producerId, existing.producerEpoch + 1,
            existing.transactionId, timeout⟩ }
      (grants ++ [⟨existing.transactionId, existing.producerId,
        existing.producerEpoch + 1⟩]) := by
  refine granted_record hgranted ⟨existing.producerId,
    existing.producerEpoch + 1, existing.transactionId, timeout⟩
    (fun older holder hsame => ?_) tc.nextProducerId
  obtain ⟨producer, hproducer, htransaction, hle⟩ :=
    hgranted.current older holder
  rw [hsame] at hproducer
  cases hstored.symm.trans hproducer
  refine ⟨htransaction.symm, htransaction ▸ hid, ?_⟩
  rw [ProducerMetadata.grant, epochAge_succ hepoch]
  omega

end

/-- A claim that is granted finds an ID of its own with an epoch left, or gets
a producer ID that is not in use. -/
def TransactionCoordinator.claimable (tc : TransactionCoordinator)
    (req : InitProducerIdRequest) : Prop :=
  tc.timeoutOf req ≤ tc.config.maxTransactionTimeout →
    (∀ existing ∈ tc.findProducerByTransactionId req.transactionId,
      req.transactionId ≠ "" ∧ existing.producerEpoch ≠ -1) ∧
    (tc.findProducerByTransactionId req.transactionId = none →
      tc.producers.find? (tc.nextProducerId + 1) = none)
deriving Decidable

variable {req : InitProducerIdRequest}

theorem granted_initProducerId {grants : List Grant}
    (hgranted : Granted tc grants) (hclaim : tc.claimable req) :
    Granted (tc.initProducerId req).1
      (grants ++ (tc.grantOf (.initProducerId req)).toList) := by
  by_cases htimeout : tc.timeoutOf req > tc.config.maxTransactionTimeout
  · have hresult : tc.initProducerId req =
        (tc, ⟨0, 0, .invalidTransactionTimeout⟩) := if_pos htimeout
    simpa [TransactionCoordinator.grantOf, hresult] using hgranted
  · obtain ⟨hexisting, hnext⟩ := hclaim (not_lt.mp htimeout)
    cases hfound : tc.findProducerByTransactionId req.transactionId with
    | some existing =>
      obtain ⟨hstored, hid⟩ :=
        findProducerByTransactionId_eq_some hgranted hfound
      obtain ⟨hnonempty, hepoch⟩ := hexisting existing hfound
      simp only [TransactionCoordinator.grantOf,
        TransactionCoordinator.initProducerId, htimeout, hfound, ↓reduceIte,
        Option.toList_some]
      rw [← hid]
      exact granted_reclaim hgranted hstored (hid ▸ hnonempty) hepoch _
    | none =>
      simp only [TransactionCoordinator.grantOf,
        TransactionCoordinator.initProducerId, htimeout, hfound, ↓reduceIte,
        Option.toList_some]
      refine granted_record hgranted ⟨_, 0, req.transactionId, _⟩
        (fun older holder hsame => ?_) _
      obtain ⟨producer, hproducer, -⟩ := hgranted.current older holder
      rw [hsame] at hproducer
      cases (hnext hfound).symm.trans hproducer

namespace CoordinatorRun

variable {σ : Type}

/-- The identities handed out by operations. -/
def grants (services : Services σ) (run : CoordinatorRun σ) :
    List TxnOperation → List Grant
  | [] => []
  | op :: ops =>
    (run.tc.grantOf op).toList ++ grants services (run.step services op) ops

def Claimable (run : CoordinatorRun σ) : TxnOperation → Prop
  | .initProducerId req => run.tc.claimable req
  | _ => True

instance (run : CoordinatorRun σ) (op : TxnOperation) :
    Decidable (run.Claimable op) := by
  induction op using TxnOperation.casesOn <;> unfold Claimable <;>
    infer_instance

variable {run : CoordinatorRun σ} (services : Services σ)

theorem granted_step {grants : List Grant} (hgranted : Granted run.tc grants)
    {op : TxnOperation} (hclaim : run.Claimable op) :
    Granted (run.step services op).tc (grants ++ (run.tc.grantOf op).toList) := by
  have hkept : ∀ {after : TransactionCoordinator},
      after.producers = run.tc.producers →
        Granted after (grants ++ (none : Option Grant).toList) := by
    intro after hproducers
    rw [Option.toList_none, append_nil]
    exact ⟨hproducers ▸ hgranted.keyed, hproducers ▸ hgranted.current,
      hgranted.ordered⟩
  cases op with
  | initProducerId req => exact granted_initProducerId hgranted hclaim
  | cleanup id serial => exact hkept (run.tc.producers_cleanup id serial)
  | _ =>
    apply hkept
    exact And.left (producers_effect (step_effect services run trivial))

theorem granted_runSteps {front : List Grant} (hgranted : Granted run.tc front)
    {ops : List TxnOperation}
    (hclaims : AllAllowed (step services) Claimable run ops) :
    Granted (runSteps (step services) run ops).tc
      (front ++ grants services run ops) := by
  induction ops generalizing run front with
  | nil => simpa [runSteps, grants] using hgranted
  | cons op ops ih =>
    have hrest := ih (granted_step services hgranted hclaims.1) hclaims.2
    rwa [append_assoc] at hrest

/-- The response to a request that comes with a stale epoch. -/
def Rejected (services : Services σ) (run : CoordinatorRun σ) : TxnRequest → Prop
  | .addPartitionsToTxn req now =>
    ∃ message, run.tc.addPartitionsToTxn req now = (run.tc, .error message)
  | .addOffsetsToTxn req =>
    run.tc.addOffsetsToTxn req = (run.tc, .producerFenced)
  | .txnOffsetCommit req =>
    run.tc.txnOffsetCommit services req = (run.tc, buildPartitionErrors
      (partitionsFromOffsets req.offsets) .producerFenced)
  | .endTxn req now =>
    run.tc.endTxn services run.world req now = (run.tc, run.world, .producerFenced)

theorem rejected_of_validateProducer {request : TxnRequest} {message : String}
    (hvalid : run.tc.validateProducer request.producerId
      request.producerEpoch = .error message) :
    Rejected services run request := by
  cases request with
  | addPartitionsToTxn req now =>
    simp only [TxnRequest.producerId, TxnRequest.producerEpoch] at hvalid
    exact ⟨message, by
      simp [TransactionCoordinator.addPartitionsToTxn, hvalid]⟩
  | addOffsetsToTxn req =>
    simp only [TxnRequest.producerId, TxnRequest.producerEpoch] at hvalid
    simp [Rejected, TransactionCoordinator.addOffsetsToTxn, hvalid]
  | txnOffsetCommit req =>
    simp only [TxnRequest.producerId, TxnRequest.producerEpoch] at hvalid
    simp [Rejected, TransactionCoordinator.txnOffsetCommit, hvalid]
  | endTxn req now =>
    simp only [TxnRequest.producerId, TxnRequest.producerEpoch] at hvalid
    simp [Rejected, TransactionCoordinator.endTxn, hvalid]

/-- What identities are for: no two are the same, a producer ID is shared by
claims of one transactional ID only, and once it is claimed again the requests
that come with an older epoch are rejected. -/
structure Fences (services : Services σ) (run : CoordinatorRun σ)
    (grants : List Grant) : Prop where
  distinct : grants.Pairwise fun older newer =>
    (older.producerId, older.producerEpoch) ≠ (newer.producerId, newer.producerEpoch)
  shared : grants.Pairwise fun older newer =>
    older.producerId = newer.producerId →
      older.transactionId = newer.transactionId ∧ older.transactionId ≠ ""
  stale : ∀ front newer back, grants = front ++ newer :: back →
    ∀ older ∈ front, older.producerId = newer.producerId →
    ∀ request : TxnRequest, request.producerId = older.producerId →
      request.producerEpoch = older.producerEpoch → Rejected services run request

theorem fences_of_granted {grants : List Grant} (hgranted : Granted run.tc grants) :
    Fences services run grants := by
  constructor
  · apply hgranted.ordered.imp
    intro older newer hsupersedes heq
    obtain ⟨hproducer, hepoch⟩ := Prod.mk.inj heq
    have hage := (hsupersedes hproducer).2.2
    rw [hepoch] at hage
    exact lt_irrefl _ hage
  · apply hgranted.ordered.imp
    intro older newer hsupersedes hproducer
    exact ⟨(hsupersedes hproducer).1, (hsupersedes hproducer).2.1⟩
  · rintro front newer back rfl older holder hproducer request hrequest hepoch
    obtain ⟨producer, hfind, -, hage⟩ := hgranted.current newer (by simp)
    have hsupersedes := (pairwise_append.mp hgranted.ordered).2.2 older
      holder newer (by simp) hproducer
    have hstale : producer.producerEpoch ≠ request.producerEpoch := by
      intro heq
      rw [heq, hepoch] at hage
      omega
    obtain ⟨message, hvalid⟩ : ∃ message, run.tc.validateProducer
        request.producerId request.producerEpoch = .error message := by
      unfold TransactionCoordinator.validateProducer
      rw [hrequest, hproducer, hfind]
      exact ⟨_, if_pos hstale⟩
    exact rejected_of_validateProducer services hvalid

theorem fences_of_claimable (services : Services σ) (logged : Bool)
    (config : CoordinatorConfig) (world : σ) (ops : List TxnOperation)
    (hclaims : AllAllowed (step services) Claimable (fresh logged config world) ops) :
    Fences services (runSteps (step services) (fresh logged config world) ops)
      (grants services (fresh logged config world) ops) := by
  have hfresh : Granted (fresh logged config world).tc [] := by
    refine ⟨?_, by simp, List.Pairwise.nil⟩
    intro producerId producer hfind
    cases hfind
  exact fences_of_granted services (granted_runSteps services hfresh hclaims)

/-- Two transactional producers, the first of which restarts. -/
theorem fences_restart :
    AllAllowed (step reliable) Claimable (fresh true defaultConfig ())
        [.initProducerId ⟨"a", 0⟩, .initProducerId ⟨"b", 0⟩,
          .initProducerId ⟨"a", 0⟩] ∧
      Fences reliable (runSteps (step reliable) (fresh true defaultConfig ())
          [.initProducerId ⟨"a", 0⟩, .initProducerId ⟨"b", 0⟩,
            .initProducerId ⟨"a", 0⟩])
        (grants reliable (fresh true defaultConfig ())
          [.initProducerId ⟨"a", 0⟩, .initProducerId ⟨"b", 0⟩,
            .initProducerId ⟨"a", 0⟩]) :=
  ⟨by decide +kernel, fences_of_claimable reliable true defaultConfig () _
    (by decide +kernel)⟩

/-- Two producers without a transactional ID get the same producer ID, and the
second fences the first. -/
theorem empty_id_shared : grants reliable (fresh true defaultConfig ())
        [.initProducerId ⟨"", 0⟩, .initProducerId ⟨"", 0⟩] =
      [⟨"", 1001, 0⟩, ⟨"", 1001, 1⟩] ∧
    ((runSteps (step reliable) (fresh true defaultConfig ())
      [.initProducerId ⟨"", 0⟩, .initProducerId ⟨"", 0⟩]).tc.endTxn reliable ()
        ⟨"", 1001, 0, true⟩ 0).2.2 = .producerFenced := by
  decide +kernel

end CoordinatorRun

end Streambus
