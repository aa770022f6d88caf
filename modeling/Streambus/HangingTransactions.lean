/-
No transaction hangs on a partition.  An entry in a partition's open
transactions holds back every read-committed consumer until the coordinator
writes a marker, so each has to belong to a transaction that the coordinator
still works on.  The coordinator and the produce path never consult each
other: the entry is there as long as every produced batch arrives while its
transaction is at work and no cleanup removes one that is.
-/
import Streambus.Coordinator
import Streambus.ProducerOwnership

namespace Streambus

open OrderedMap TransactionCoordinator

variable (txn : TransactionMetadata)

def TransactionMetadata.producer : ProducerKey :=
  ⟨txn.producerId.toInt, txn.producerEpoch.toInt⟩

/-- The transaction is at work for a producer on a partition. -/
def TransactionMetadata.Serves (key : ProducerKey)
    (target : PartitionMetadata) : Prop :=
  txn.state.isTerminal = false ∧ txn.producer = key ∧ target ∈ txn.partitions
deriving Decidable

/-- Some stored transaction is at work for a producer on a partition. -/
def TransactionCoordinator.Serves (tc : TransactionCoordinator)
    (key : ProducerKey) (target : PartitionMetadata) : Prop :=
  ∃ entry ∈ tc.transactions.entries, entry.2.Serves key target
deriving Decidable

variable {target : PartitionMetadata} {key : ProducerKey}
  {tc : TransactionCoordinator}

theorem TransactionCoordinator.serves_iff : tc.Serves key target ↔
      ∃ id txn, tc.transactions.find? id = some txn ∧ txn.Serves key target := by
  constructor
  · rintro ⟨⟨id, txn⟩, hmem, hserves⟩
    exact ⟨id, txn, (tc.transactions.mem_entries_iff id txn).mp hmem, hserves⟩
  · rintro ⟨id, txn, hfind, hserves⟩
    exact ⟨(id, txn), (tc.transactions.mem_entries_iff id txn).mpr hfind, hserves⟩

/-- Every open transaction of a partition is served. -/
def NoHanging (run : CoordinatorRun Broker) : Prop :=
  ∀ topic partitionId partition key start,
    run.world.topics.lookup topic partitionId = some partition →
    partition.openTxns.find? key = some start → run.tc.Serves key ⟨topic, partitionId⟩

/-- The operations on a broker with a coordinator. -/
inductive BrokerOperation where
  | transaction (op : TxnOperation)
  | produce (call : ProduceCall)

namespace CoordinatorRun

variable (run : CoordinatorRun Broker)

def brokerStep : BrokerOperation → CoordinatorRun Broker
  | .transaction op => run.step Broker.services op
  | .produce call =>
    { run with
      world := { run.world with
        topics := (run.world.topics.handleProduce call).1 } }

/-- A transactional batch that is acknowledged arrives while its transaction is
at work on the partition, and cleanups find transactions that asked for one. -/
def Served : BrokerOperation → Prop
  | .transaction op => run.CleanupsOwned op
  | .produce call =>
    call.request.producerId ≠ 0 →
    (run.world.topics.handleProduce call).2.isOk = true →
      run.tc.Serves call.request.producer ⟨call.topic, call.partitionId⟩

instance (run : CoordinatorRun Broker) (op : BrokerOperation) :
    Decidable (run.Served op) := by
  cases op <;> unfold Served <;> infer_instance

end CoordinatorRun

/-- Where entries of the topics come from. -/
def Topics.Shrinks (before after : Topics) : Prop :=
  ∀ topic partitionId partition key start,
    after.lookup topic partitionId = some partition →
    partition.openTxns.find? key = some start →
    ∃ old, before.lookup topic partitionId = some old ∧
      old.openTxns.find? key = some start

theorem Topics.Shrinks.refl (topics : Topics) : topics.Shrinks topics :=
  fun _ _ partition _ _ hlookup hopen => ⟨partition, hlookup, hopen⟩

theorem Topics.Shrinks.trans {first second third : Topics}
    (hfirst : first.Shrinks second) (hsecond : second.Shrinks third) :
    first.Shrinks third := by
  intro topic partitionId partition key start hlookup hopen
  obtain ⟨middle, hmiddle, hmiddleOpen⟩ :=
    hsecond topic partitionId partition key start hlookup hopen
  exact hfirst topic partitionId middle key start hmiddle hmiddleOpen

/-- The marker of a producer has removed its entry from a partition. -/
def Topics.Cleared (topics : Topics) (key : ProducerKey)
    (target : PartitionMetadata) : Prop :=
  ∀ partition, topics.lookup target.topic target.partition = some partition →
    partition.openTxns.find? key = none

theorem Topics.Shrinks.cleared {before after : Topics}
    (hshrinks : before.Shrinks after) (hcleared : before.Cleared key target) :
    after.Cleared key target := by
  intro partition hlookup
  cases hopen : partition.openTxns.find? key with
  | none => rfl
  | some start =>
    obtain ⟨old, hold, holdOpen⟩ :=
      hshrinks _ _ partition key start hlookup hopen
    rw [hcleared old hold] at holdOpen
    cases holdOpen

namespace Broker

variable (broker : Broker)

theorem writeMarker_shrinks (target : PartitionMetadata)
    (marker : TransactionMarker) :
    broker.topics.Shrinks (broker.writeMarker target marker).1.topics ∧
      ((broker.writeMarker target marker).2 = true →
        (broker.writeMarker target marker).1.topics.Cleared marker.producer
          target) := by
  unfold writeMarker
  split
  · exact ⟨.refl _, by simp⟩
  · cases hget : broker.topics.getPartition target.topic target.partition with
    | error error => exact ⟨.refl _, by simp⟩
    | ok partition =>
      rw [Topics.getPartition_eq_ok] at hget
      generalize broker.markerCalls.headD ⟨0, false, false⟩ = call
      have hopenTxns := partition.openTxns_writeMarker marker call.now
        call.refused call.flushFails
      constructor
      · intro topic partitionId stored key start hlookup hopen
        rw [PartitionMap.lookup_set] at hlookup
        split at hlookup
        next hsame =>
          obtain ⟨rfl, rfl⟩ := hsame
          cases hlookup
          refine ⟨partition, hget, ?_⟩
          rw [hopenTxns] at hopen
          split at hopen
          · rw [find?_erase] at hopen
            split at hopen
            · cases hopen
            · exact hopen
          · exact hopen
        · exact ⟨stored, hlookup, hopen⟩
      · intro hwritten stored hlookup
        rw [PartitionMap.lookup_set, if_pos ⟨rfl, rfl⟩] at hlookup
        cases hlookup
        rw [hopenTxns, if_pos hwritten, find?_erase, if_pos rfl]

theorem writeEach_shrinks (marker : TransactionMarker) (broker : Broker)
    (targets : List PartitionMetadata) :
    broker.topics.Shrinks (writeEach writeMarker marker broker targets).1.topics ∧
      ((writeEach writeMarker marker broker targets).2.2 = true → ∀ target ∈ targets,
          (writeEach writeMarker marker broker targets).1.topics.Cleared
            marker.producer target) := by
  induction targets generalizing broker with
  | nil => exact ⟨.refl _, by simp⟩
  | cons target rest ih =>
    obtain ⟨hfirst, hcleared⟩ := broker.writeMarker_shrinks target marker
    unfold writeEach
    dsimp only
    split
    next hwritten =>
      obtain ⟨hrest, hall⟩ := ih (broker.writeMarker target marker).1
      refine ⟨hfirst.trans hrest, ?_⟩
      intro hdone other hother
      rcases List.mem_cons.mp hother with rfl | hlater
      · exact hrest.cleared (hcleared hwritten)
      · exact hall hdone other hlater
    · exact ⟨hfirst, by simp⟩

theorem writeMarkers_shrinks (txn : TransactionMetadata) (commit : Bool) (now : Int) :
    broker.topics.Shrinks (writeMarkers services broker txn commit now).1.topics ∧
      ((writeMarkers services broker txn commit now).2.2 = true →
        ∀ target ∈ txn.partitions,
          (writeMarkers services broker txn commit now).1.topics.Cleared
            txn.producer target) := by
  unfold writeMarkers
  split
  next hempty => exact ⟨.refl _, by simp [hempty]⟩
  · obtain ⟨hshrinks, hall⟩ := writeEach_shrinks
      ⟨txn.producerId, txn.producerEpoch, commit, now⟩ broker
      (sortedPartitions txn.partitions)
    refine ⟨hshrinks, ?_⟩
    intro hdone target hmem
    apply hall hdone target
    rwa [sortedPartitions, List.mem_insertionSort]

theorem topics_resolvePendingOffsets (txn : TransactionMetadata) (commit : Bool) :
    (resolvePendingOffsets services broker txn commit).world.topics =
      broker.topics := by
  unfold resolvePendingOffsets services
  split
  · rfl
  · split
    · rfl
    · dsimp only
      split <;> rfl

theorem resolvePrepared_shrinks (txn : TransactionMetadata) (now : Int) :
    broker.topics.Shrinks (resolvePrepared services broker txn now).world.topics ∧
      ((resolvePrepared services broker txn now).succeeded = true →
        ∀ target ∈ txn.partitions,
          (resolvePrepared services broker txn now).world.topics.Cleared
            txn.producer target) := by
  obtain ⟨hshrinks, hall⟩ := broker.writeMarkers_shrinks txn
    (txn.state = .prepareCommit) now
  unfold resolvePrepared
  dsimp only
  split
  · exact ⟨hshrinks, by simp⟩
  next hwritten =>
    simp only [Bool.not_eq_true, Bool.not_eq_false'] at hwritten
    have htopics := topics_resolvePendingOffsets
      (writeMarkers services broker txn (txn.state = .prepareCommit) now).1 txn
      (txn.state = .prepareCommit)
    split <;>
    · simp only [htopics]
      exact ⟨hshrinks, fun _ => hall hwritten⟩

end Broker

/-- A change of the coordinator alone that keeps every live transaction with
its producer and at least its partitions. -/
structure CarriesLive (before after : TransactionCoordinator) : Prop where
  carried : ∀ id txn, before.transactions.find? id = some txn →
    txn.state.isTerminal = false →
    ∃ txn', after.transactions.find? id = some txn' ∧
      txn'.state.isTerminal = false ∧ txn'.producer = txn.producer ∧
      ∀ target ∈ txn.partitions, target ∈ txn'.partitions

theorem CarriesLive.serves {before after : TransactionCoordinator}
    (hcarries : CarriesLive before after) (hserves : before.Serves key target) :
    after.Serves key target := by
  rw [serves_iff] at hserves ⊢
  obtain ⟨id, txn, hfind, hopen, hproducer, hmem⟩ := hserves
  obtain ⟨txn', hfind', hopen', hproducer', hpartitions⟩ :=
    hcarries.carried id txn hfind hopen
  exact ⟨id, txn', hfind', hopen', hproducer'.trans hproducer,
    hpartitions target hmem⟩

theorem NoHanging.of_carriesLive {run : CoordinatorRun Broker}
    (hrun : NoHanging run) {after : TransactionCoordinator}
    (hcarries : CarriesLive run.tc after) :
    NoHanging { run with tc := after } := by
  intro topic partitionId partition key start hlookup hopen
  exact hcarries.serves (hrun topic partitionId partition key start hlookup hopen)

theorem CarriesLive.refl (tc : TransactionCoordinator) : CarriesLive tc tc :=
  ⟨fun _ txn hfind hopen => ⟨txn, hfind, hopen, rfl, fun _ h => h⟩⟩

theorem CarriesLive.trans {first second third : TransactionCoordinator}
    (hfirst : CarriesLive first second) (hsecond : CarriesLive second third) :
    CarriesLive first third := by
  constructor
  intro id txn hfind hopen
  obtain ⟨middle, hmiddle, hmiddleOpen, hproducer, hpartitions⟩ :=
    hfirst.carried id txn hfind hopen
  obtain ⟨last, hlast, hlastOpen, hproducer', hpartitions'⟩ :=
    hsecond.carried id middle hmiddle hmiddleOpen
  exact ⟨last, hlast, hlastOpen, hproducer'.trans hproducer,
    fun target hmem => hpartitions' target (hpartitions target hmem)⟩

/-- Storing metadata in place of a live transaction that it carries on. -/
theorem CarriesLive.save {id : String} {txn : TransactionMetadata}
    (hfind : tc.transactions.find? id = some txn) (after : TransactionMetadata)
    (hopen : after.state.isTerminal = false)
    (hproducer : after.producer = txn.producer)
    (hpartitions : ∀ target ∈ txn.partitions, target ∈ after.partitions)
    (events : List LifeEvent) : CarriesLive tc (tc.save id after events) := by
  constructor
  intro probe stored hstored hlive
  by_cases hid : id = probe
  · subst hid
    obtain rfl : txn = stored := Option.some.inj (hfind.symm.trans hstored)
    exact ⟨after, find?_insert_self _ _ _, hopen, hproducer, hpartitions⟩
  · exact ⟨stored, (find?_insert_of_ne _ hid _).trans hstored,
      hlive, rfl, fun _ h => h⟩

namespace TransactionCoordinator

variable {tc : TransactionCoordinator} {txn : TransactionMetadata} {id : String}

theorem carriesLive_addPartitions {req : AddPartitionsToTxnRequest}
    (hfind : tc.transactions.find? req.transactionId = some txn)
    (hongoing : txn.state = .ongoing) :
    CarriesLive tc (tc.addPartitions txn req) := by
  have hkept : ∀ (partitions : List PartitionMetadata) (txn : TransactionMetadata),
      (appendPartitions txn partitions).1.state = txn.state ∧
        (appendPartitions txn partitions).1.producer = txn.producer ∧
        ∀ target ∈ txn.partitions,
          target ∈ (appendPartitions txn partitions).1.partitions := by
    intro partitions
    induction partitions with
    | nil => exact fun _ => ⟨rfl, rfl, fun _ h => h⟩
    | cons head tail ih =>
      intro txn
      unfold appendPartitions
      split
      · exact ih txn
      · obtain ⟨hstate, hproducer, hpartitions⟩ :=
          ih { txn with partitions := txn.partitions ++ [head] }
        exact ⟨hstate, hproducer, fun target hmem =>
          hpartitions target (List.mem_append_left _ hmem)⟩
  obtain ⟨hstate, hproducer, hpartitions⟩ := hkept req.partitions txn
  have hsave := CarriesLive.save hfind (appendPartitions txn req.partitions).1
    (by rw [hstate, hongoing]; rfl) hproducer hpartitions
    (appendPartitions txn req.partitions).2
  exact ⟨hsave.carried⟩

theorem carriesLive_start (hfree : tc.live txn.transactionId = none) :
    CarriesLive tc ((tc.start txn).logTransaction txn) := by
  constructor
  intro id stored hfind hopen
  have hne : txn.transactionId ≠ id := by
    rintro rfl
    rw [live, hfind, Option.filter_some, isTerminalState_eq, hopen] at hfree
    cases hfree
  exact ⟨stored, (find?_insert_of_ne _ hne _).trans hfind, hopen, rfl, fun _ h => h⟩

theorem carriesLive_addPartitionsToTxn (tc : TransactionCoordinator)
    (req : AddPartitionsToTxnRequest) (now : Int) :
    CarriesLive tc (tc.addPartitionsToTxn req now).1 := by
  rcases tc.addPartitionsToTxn_cases req now with
    hsame | ⟨producer, hfree, hresult⟩ | ⟨txn, hfind, hongoing, hresult⟩
  · rw [hsame]
    exact .refl tc
  · rw [hresult]
    apply CarriesLive.trans (@carriesLive_start tc
      (tc.newTransaction req producer now) hfree)
    apply carriesLive_addPartitions _ rfl
    exact find?_insert_self _ _ _
  · rw [hresult]
    exact carriesLive_addPartitions hfind hongoing

theorem carriesLive_addOffsetsToTxn (tc : TransactionCoordinator)
    (req : AddOffsetsToTxnRequest) :
    CarriesLive tc (tc.addOffsetsToTxn req).1 := by
  rcases tc.addOffsetsToTxn_cases req with
    ⟨_, -, hresult⟩ | ⟨txn, hrecords, hresult⟩
  · rw [hresult]
    exact .refl tc
  · rw [hresult]
    apply CarriesLive.save hrecords.stored
    · simp only [hrecords.ongoing]
      rfl
    · rfl
    · exact fun _ hmem => hmem

theorem carriesLive_txnOffsetCommit {σ : Type} (services : Services σ)
    (tc : TransactionCoordinator) (req : TxnOffsetCommitRequest) :
    CarriesLive tc (tc.txnOffsetCommit services req).1 := by
  rcases txnOffsetCommit_cases services tc req with
    ⟨code, -, hresult⟩ | ⟨txn, hfind, hongoing, -, -, hresult⟩
  · rw [hresult]
    exact .refl tc
  · rw [hresult]
    apply CarriesLive.save hfind
    · simp only [hongoing]
      rfl
    · rfl
    · exact fun _ hmem => hmem

theorem carriesLive_prepare (commit : Bool)
    (hfind : tc.transactions.find? id = some txn) :
    CarriesLive tc (tc.prepare id txn commit).1 := by
  have hsave : CarriesLive tc (tc.save id
      { txn with state := .prepare commit } [.prepared commit]) := by
    apply CarriesLive.save hfind
    · exact TransactionState.isTerminal_prepare commit
    · rfl
    · exact fun _ hmem => hmem
  exact ⟨hsave.carried⟩

theorem carriesLive_prepareOnce (commit : Bool)
    (hfind : tc.transactions.find? id = some txn) :
    CarriesLive tc (tc.prepareOnce id txn commit).1 := by
  unfold prepareOnce
  split
  · exact carriesLive_prepare commit hfind
  · exact .refl tc

theorem carriesLive_cleanup (htidy : Tidy tc) {serial : Nat}
    (howned : tc.cleanupOwned id serial) :
    CarriesLive tc (tc.cleanup id serial) := by
  constructor
  intro probe txn hfind hopen
  obtain ⟨txn', hfind', -⟩ :=
    (keepsLive_cleanup htidy howned).live probe txn hfind hopen
  obtain rfl : txn = txn' :=
    Option.some.inj (hfind.symm.trans (find?_cleanup hfind'))
  exact ⟨txn, hfind', hopen, rfl, fun _ h => h⟩

end TransactionCoordinator

/-- Finishing a prepared transaction leaves no entry of an ended one: it has
written the marker that removes it on every partition. -/
theorem noHanging_finish {broker : Broker} (hrun : NoHanging ⟨tc, broker⟩)
    {id : String} {txn : TransactionMetadata} {commit : Bool} (now : Int)
    (hfind : tc.transactions.find? id = some txn)
    (hstate : txn.state = .prepare commit) :
    NoHanging ⟨(tc.finish Broker.services broker id txn now).1,
      (tc.finish Broker.services broker id txn now).2.1⟩ := by
  obtain ⟨hshrinks, hcleared⟩ := broker.resolvePrepared_shrinks txn now
  have htxn := resolvePrepared_txn Broker.services broker now hstate
  have hworld : (tc.finish Broker.services broker id txn now).2.1 =
      (resolvePrepared Broker.services broker txn now).world := by
    unfold TransactionCoordinator.finish
    dsimp only
    split <;> rfl
  have hstored : (tc.finish Broker.services broker id txn now).1.transactions =
      tc.transactions.insert id
        (resolvePrepared Broker.services broker txn now).txn := by
    unfold TransactionCoordinator.finish
    dsimp only
    split <;> rfl
  intro topic partitionId partition key start hlookup hopen
  rw [hworld] at hlookup
  obtain ⟨old, hold, holdOpen⟩ :=
    hshrinks topic partitionId partition key start hlookup hopen
  obtain ⟨probe, served, hprobe, hserves⟩ :=
    serves_iff.mp (hrun topic partitionId old key start hold holdOpen)
  rw [serves_iff]
  by_cases hid : id = probe
  · subst hid
    obtain rfl : txn = served := Option.some.inj (hfind.symm.trans hprobe)
    refine ⟨id, txn, ?_, hserves⟩
    rw [hstored, find?_insert_self, htxn]
    split
    next hsucceeded =>
      have hnone := hcleared hsucceeded ⟨topic, partitionId⟩ hserves.2.2
        partition hlookup
      rw [hserves.2.1, hopen] at hnone
      cases hnone
    · rfl
  · refine ⟨probe, served, ?_, hserves⟩
    rw [hstored, find?_insert_of_ne _ hid]
    exact hprobe

namespace CoordinatorRun

variable {broker : Broker} {run : CoordinatorRun Broker}

theorem noHanging_endTxn {tc : TransactionCoordinator}
    (hrun : NoHanging ⟨tc, broker⟩) (req : EndTxnRequest) (now : Int) :
    NoHanging ⟨(tc.endTxn Broker.services broker req now).1,
      (tc.endTxn Broker.services broker req now).2.1⟩ := by
  rcases endTxn_cases Broker.services tc broker req now
    with ⟨_, -, hresult⟩ | ⟨txn, hfind, hcode, -, hresult⟩
  · rw [hresult]
    exact hrun
  · obtain ⟨-, hstored, hstate⟩ :=
      moves_prepareOnce hfind hcode
    rw [hresult]
    exact noHanging_finish (hrun.of_carriesLive
      (carriesLive_prepareOnce req.commit hfind)) now
      hstored hstate

theorem noHanging_expire {tc : TransactionCoordinator}
    (hrun : NoHanging ⟨tc, broker⟩) (id : String) (now : Int) :
    NoHanging ⟨(tc.expire Broker.services broker id now).1,
      (tc.expire Broker.services broker id now).2⟩ := by
  unfold TransactionCoordinator.expire
  cases hfind : tc.transactions.find? id with
  | none => exact hrun
  | some txn =>
    dsimp only
    split
    · exact hrun
    · cases hstate : txn.state with
      | ongoing =>
        refine @noHanging_finish _ _ (hrun.of_carriesLive
          (carriesLive_prepare false hfind)) id _ false now ?_ rfl
        exact find?_insert_self _ _ _
      | prepareCommit =>
        exact @noHanging_finish tc broker hrun id txn true now hfind hstate
      | prepareAbort =>
        exact @noHanging_finish tc broker hrun id txn false now hfind hstate
      | _ => exact hrun

theorem noHanging_checkExpiredTransactions {tc : TransactionCoordinator}
    (hrun : NoHanging ⟨tc, broker⟩) (visits : List (String × Int)) :
    NoHanging ⟨(tc.checkExpiredTransactions Broker.services broker visits).1,
      (tc.checkExpiredTransactions Broker.services broker visits).2⟩ := by
  induction visits generalizing tc broker with
  | nil => exact hrun
  | cons visit rest ih => exact ih (noHanging_expire hrun visit.1 visit.2)

theorem noHanging_transaction (hrun : NoHanging run) (htidy : Tidy run.tc)
    {op : TxnOperation} (howned : run.CleanupsOwned op) :
    NoHanging (run.step Broker.services op) := by
  cases op with
  | initProducerId req =>
    rw [step, initProducerId_frame]
    exact hrun
  | addPartitionsToTxn req now =>
    exact hrun.of_carriesLive (run.tc.carriesLive_addPartitionsToTxn req now)
  | addOffsetsToTxn req =>
    exact hrun.of_carriesLive (run.tc.carriesLive_addOffsetsToTxn req)
  | txnOffsetCommit req =>
    exact hrun.of_carriesLive (run.tc.carriesLive_txnOffsetCommit Broker.services req)
  | endTxn req now => exact noHanging_endTxn hrun req now
  | checkExpiredTransactions visits =>
    exact noHanging_checkExpiredTransactions hrun visits
  | cleanup id serial =>
    exact hrun.of_carriesLive (carriesLive_cleanup htidy howned)

theorem noHanging_produce (hrun : NoHanging run) {call : ProduceCall}
    (hserved : run.Served (.produce call)) :
    NoHanging (run.brokerStep (.produce call)) := by
  intro topic partitionId partition key start hlookup hopen
  rcases Topics.openTxns_handleProduce hlookup hopen with
    ⟨old, hold, holdOpen⟩ | ⟨rfl, rfl, rfl, hproducer, hok⟩
  · exact hrun topic partitionId old key start hold holdOpen
  · exact hserved hproducer hok

/-- The invariants of a run of the broker. -/
structure Sound (run : CoordinatorRun Broker) : Prop where
  chronicled : Chronicled run.tc
  tidy : Tidy run.tc
  noHanging : NoHanging run

theorem sound_brokerStep (hsound : run.Sound) {op : BrokerOperation}
    (hserved : run.Served op) :
    (run.brokerStep op).Sound := by
  cases op with
  | transaction op =>
    exact ⟨chronicled_step _ hsound.chronicled op,
      tidy_step _ hsound.chronicled hsound.tidy op,
      noHanging_transaction hsound.noHanging hsound.tidy hserved⟩
  | produce call =>
    exact ⟨hsound.chronicled, hsound.tidy, noHanging_produce hsound.noHanging hserved⟩

/-- A broker without topics, with whatever its marker writes and offset commits
will meet. -/
def newBroker (markerCalls : List MarkerCall) (offsetCommits : List Bool) :
    Broker :=
  ⟨∅, markerCalls, offsetCommits⟩

/-- In a run whose transactional batches arrive while their transaction is at
work and whose cleanups find transactions that asked for one, no transaction
hangs. -/
theorem noHanging_of_served (logged : Bool) (config : CoordinatorConfig)
    (markerCalls : List MarkerCall) (offsetCommits : List Bool)
    (ops : List BrokerOperation)
    (hserved : AllAllowed brokerStep Served
      (fresh logged config (newBroker markerCalls offsetCommits)) ops) :
    NoHanging (runSteps brokerStep
      (fresh logged config (newBroker markerCalls offsetCommits)) ops) := by
  have hstep : ∀ run op, Sound run → Served run op →
      Sound (brokerStep run op) := fun _ _ hsound hop =>
    sound_brokerStep hsound hop
  refine (hserved.invariant Sound hstep ?_).noHanging
  refine ⟨chronicled_new _ config, tidy_fresh logged config _, ?_⟩
  intro topic partitionId partition key start hlookup
  cases hlookup

/-- A record to produce. -/
def order (value : UInt8) : ProtocolMessage := ⟨0, [], [value], ∅, 1⟩

/-- A batch of the first registered producer. -/
def orderCall (value : UInt8) : ProduceCall :=
  ⟨"orders", 0, ⟨[order value], 1001, 0⟩, false, false⟩

/-- A transaction with one produced batch that is then committed. -/
def servedRun : List BrokerOperation :=
  [.transaction (.initProducerId ⟨"t", 0⟩),
    .transaction (.addPartitionsToTxn ⟨"t", 1001, 0, [⟨"orders", 0⟩]⟩ 0),
    .produce (orderCall 1),
    .transaction (.endTxn ⟨"t", 1001, 0, true⟩ 1)]

theorem noHanging_servedRun : AllAllowed brokerStep Served
        (fresh true defaultConfig (newBroker [] [])) servedRun ∧
      NoHanging (runSteps brokerStep
        (fresh true defaultConfig (newBroker [] [])) servedRun) :=
  ⟨by decide +kernel, noHanging_of_served true defaultConfig [] [] servedRun
    (by decide +kernel)⟩

/-- The transaction times out after its first batch; the second batch arrives
when the sweep has aborted it. -/
def expiredRun : CoordinatorRun Broker :=
  runSteps brokerStep (fresh true defaultConfig (newBroker [] []))
    [.transaction (.initProducerId ⟨"t", 0⟩),
      .transaction (.addPartitionsToTxn ⟨"t", 1001, 0, [⟨"orders", 0⟩]⟩ 0),
      .produce (orderCall 1),
      .transaction (.checkExpiredTransactions [("t", 60000000001)]),
      .produce (orderCall 2)]

/-- The second batch is open on its partition from offset 2 on, and no
transaction is at work for it. -/
theorem expired_batch_hangs : (expiredRun.world.topics.lookup "orders" 0).map
        (fun partition => partition.openTxns.find? ⟨1001, 0⟩) =
      some (some 2) ∧
    (expiredRun.tc.transactions.find? "t").map (fun txn => txn.state) =
      some .completeAbort ∧
    ¬ expiredRun.tc.Serves ⟨1001, 0⟩ ⟨"orders", 0⟩ := by
  decide +kernel

end CoordinatorRun

end Streambus
