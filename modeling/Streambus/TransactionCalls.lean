/-
What the history of the coordinator stands for.  A marker or a publication on
record is a call of the marker writer or the offset committer, made in this
order and with this result; a group or offsets on record are those of a request
that was answered without an error.
-/
import Streambus.CoordinatorRun

namespace Streambus

open OrderedMap TransactionCoordinator

namespace LifeEvent

/-- The event is a call of the services. -/
def isCall : LifeEvent → Bool
  | .marked _ _ _ | .published _ _ _ => true
  | _ => false

/-- The event is an answer that names a group or accepts offsets. -/
def isAnswer : LifeEvent → Bool
  | .grouped _ => true
  | .acknowledged offsets => partitionsFromOffsets offsets ≠ []
  | _ => false

end LifeEvent

/-- Events with the numbers of their transactions. -/
abbrev History := List (Nat × LifeEvent)

section Recording

variable {σ : Type}

/-- Entries of a history, the answers among them, and the worlds before and
after: every call on record is made on the world that the calls before it have
left, and has the recorded result. -/
inductive Recorded (services : Services σ) : σ → History → History → σ → Prop where
  | nil {world : σ} : Recorded services world [] [] world
  | marked {world after : σ} {entries answers : History}
      {write : σ → PartitionMetadata → TransactionMarker → σ × Bool}
      {partition : PartitionMetadata} {marker : TransactionMarker}
      {serial : Nat} (hwriter : services.markerWriter = some write)
      (hrest : Recorded services (write world partition marker).1 entries
        answers after) :
      Recorded services world ((serial, .marked partition marker.commit
        (write world partition marker).2) :: entries) answers after
  | published {world after : σ} {entries answers : History}
      {publish : σ → String → PartitionMap OffsetMetadata → σ × Bool}
      {groupId : String} {offsets : PartitionMap OffsetMetadata}
      {serial : Nat} (hcommitter : services.offsetCommitter = some publish)
      (hrest : Recorded services (publish world groupId offsets).1 entries
        answers after) :
      Recorded services world ((serial, .published groupId offsets
        (publish world groupId offsets).2) :: entries) answers after
  | answered {world after : σ} {entries answers : History}
      {entry : Nat × LifeEvent} (hanswer : entry.2.isAnswer = true)
      (hrest : Recorded services world entries answers after) :
      Recorded services world (entry :: entries) (entry :: answers) after
  | silent {world after : σ} {entries answers : History}
      {entry : Nat × LifeEvent} (hcall : entry.2.isCall = false)
      (hanswer : entry.2.isAnswer = false)
      (hrest : Recorded services world entries answers after) :
      Recorded services world (entry :: entries) answers after

variable {services : Services σ} {world middle after : σ}
  {front back answers more : History}

theorem Recorded.append (hfront : Recorded services world front answers middle)
    (hback : Recorded services middle back more after) :
    Recorded services world (front ++ back) (answers ++ more) after := by
  induction hfront with
  | nil => exact hback
  | marked hwriter _ ih => exact .marked hwriter (ih hback)
  | published hcommitter _ ih => exact .published hcommitter (ih hback)
  | answered hanswer _ ih => exact .answered hanswer (ih hback)
  | silent hcall hanswer _ ih => exact .silent hcall hanswer (ih hback)

theorem Recorded.single {entry : Nat × LifeEvent}
    (hcall : entry.2.isCall = false) (hanswer : entry.2.isAnswer = false) :
    Recorded services world [entry] [] world :=
  .silent hcall hanswer .nil

theorem appendPartitions_recorded (txn : TransactionMetadata) (serial : Nat)
    (partitions : List PartitionMetadata) :
    Recorded services world ((appendPartitions txn partitions).2.map
      fun event => (serial, event)) [] world := by
  induction partitions generalizing txn with
  | nil => exact .nil
  | cons partition rest ih =>
    rw [appendPartitions]
    split
    · exact ih txn
    · exact .silent rfl rfl (ih _)

theorem writeEach_recorded
    {write : σ → PartitionMetadata → TransactionMarker → σ × Bool}
    (hwriter : services.markerWriter = some write) (marker : TransactionMarker)
    (serial : Nat) (partitions : List PartitionMetadata) (world : σ) :
    Recorded services world ((writeEach write marker world partitions).2.1.map
      fun event => (serial, event)) []
      (writeEach write marker world partitions).1 := by
  induction partitions generalizing world with
  | nil => exact .nil
  | cons partition rest ih =>
    rw [writeEach]
    dsimp only
    split
    next hwritten =>
      rw [List.map_cons, ← hwritten]
      exact .marked hwriter (ih _)
    next hfailed =>
      rw [List.map_cons, ← Bool.eq_false_iff.mpr hfailed]
      exact .marked hwriter .nil

theorem writeMarkers_recorded (txn : TransactionMetadata) (commit : Bool)
    (now : Int) (serial : Nat) :
    Recorded services world ((writeMarkers services world txn commit now).2.1.map
      fun event => (serial, event)) []
      (writeMarkers services world txn commit now).1 := by
  unfold writeMarkers
  split
  · exact .nil
  · split
    · exact .nil
    next hwriter => exact writeEach_recorded hwriter _ serial _ world

theorem resolvePendingOffsets_recorded (txn : TransactionMetadata)
    (commit : Bool) (serial : Nat) :
    Recorded services world
      ((resolvePendingOffsets services world txn commit).events.map
        fun event => (serial, event)) []
      (resolvePendingOffsets services world txn commit).world := by
  unfold resolvePendingOffsets
  split
  · exact .nil
  · split
    · exact .nil
    · split
      · exact .nil
      next hcommitter =>
        dsimp only
        split <;> exact .published hcommitter .nil

theorem resolvePrepared_recorded (txn : TransactionMetadata) (now : Int)
    (serial : Nat) :
    Recorded services world ((resolvePrepared services world txn now).events.map
      fun event => (serial, event)) []
      (resolvePrepared services world txn now).world := by
  have hmarked := @writeMarkers_recorded σ services world txn
    (decide (txn.state = .prepareCommit)) now serial
  have hpublished := hmarked.append (resolvePendingOffsets_recorded txn
    (decide (txn.state = .prepareCommit)) serial)
  unfold resolvePrepared
  dsimp only
  split
  · exact hmarked
  · split
    · rw [List.map_append]
      exact hpublished
    · rw [List.map_append, List.map_append]
      exact hpublished.append (.single rfl rfl)

end Recording

namespace CoordinatorRun

variable {σ : Type} (services : Services σ)

/-- One run leads to another with these answers, and the history has what
happened in between. -/
def Records (run : CoordinatorRun σ) (answers : History)
    (after : CoordinatorRun σ) : Prop :=
  ∃ entries, after.tc.history = run.tc.history ++ entries ∧
    Recorded services run.world entries answers after.world

variable {services} {tc : TransactionCoordinator} {world : σ}
  {run middle after : CoordinatorRun σ} {answers more : History}

theorem Records.of_history (hhistory : after.tc.history = run.tc.history)
    (hworld : after.world = run.world) : Records services run [] after :=
  ⟨[], by rw [hhistory, List.append_nil], hworld ▸ .nil⟩

theorem Records.trans (hfirst : Records services run answers middle)
    (hsecond : Records services middle more after) :
    Records services run (answers ++ more) after := by
  obtain ⟨front, hfront, hrecorded⟩ := hfirst
  obtain ⟨back, hback, hrecorded'⟩ := hsecond
  refine ⟨front ++ back, ?_, hrecorded.append hrecorded'⟩
  rw [hback, hfront, List.append_assoc]

theorem records_finish (id : String) (txn : TransactionMetadata) (now : Int) :
    Records services ⟨tc, world⟩ [] ⟨(tc.finish services world id txn now).1,
      (tc.finish services world id txn now).2.1⟩ := by
  have hrecorded := @resolvePrepared_recorded σ services world txn now
    (resolvePrepared services world txn now).txn.serial
  unfold finish
  dsimp only
  split <;> exact ⟨_, rfl, hrecorded⟩

theorem records_prepare (id : String) (txn : TransactionMetadata) (commit : Bool) :
    Records services ⟨tc, world⟩ [] ⟨(tc.prepare id txn commit).1, world⟩ :=
  ⟨_, rfl, .single rfl rfl⟩

theorem records_endTxn (req : EndTxnRequest) (now : Int) :
    Records services ⟨tc, world⟩ [] ⟨(tc.endTxn services world req now).1,
      (tc.endTxn services world req now).2.1⟩ := by
  rcases endTxn_cases services tc world req now with
    ⟨_, -, hresult⟩ | ⟨txn, -, -, -, hresult⟩
  · rw [hresult]
    exact .of_history rfl rfl
  · rw [hresult]
    have hprepared : Records services ⟨tc, world⟩ []
        ⟨(tc.prepareOnce req.transactionId txn req.commit).1, world⟩ := by
      unfold prepareOnce
      split
      · exact records_prepare _ txn req.commit
      · exact .of_history rfl rfl
    exact hprepared.trans (records_finish _ _ now)

theorem records_expire (id : String) (now : Int) :
    Records services ⟨tc, world⟩ [] ⟨(tc.expire services world id now).1,
      (tc.expire services world id now).2⟩ := by
  unfold expire
  split
  · exact .of_history rfl rfl
  · split
    · exact .of_history rfl rfl
    · split
      · exact (records_prepare id _ false).trans (records_finish id _ now)
      · exact records_finish id _ now
      · exact records_finish id _ now
      · exact .of_history rfl rfl

theorem records_checkExpiredTransactions (visits : List (String × Int)) :
    Records services ⟨tc, world⟩ []
      ⟨(tc.checkExpiredTransactions services world visits).1,
        (tc.checkExpiredTransactions services world visits).2⟩ := by
  induction visits generalizing tc world with
  | nil => exact .of_history rfl rfl
  | cons visit rest ih => exact (records_expire visit.1 visit.2).trans ih

theorem records_addPartitionsToTxn (req : AddPartitionsToTxnRequest) (now : Int) :
    Records services ⟨tc, world⟩ [] ⟨(tc.addPartitionsToTxn req now).1, world⟩ := by
  have hadded : ∀ (tc : TransactionCoordinator) (txn : TransactionMetadata),
      Records services ⟨tc, world⟩ [] ⟨tc.addPartitions txn req, world⟩ :=
    fun _ txn => ⟨_, rfl, appendPartitions_recorded txn _ req.partitions⟩
  rcases tc.addPartitionsToTxn_cases req now with
    hsame | ⟨producer, -, hresult⟩ | ⟨txn, -, -, hresult⟩
  · rw [hsame]
    exact .of_history rfl rfl
  · rw [hresult]
    have hstarted : Records services ⟨tc, world⟩ []
        ⟨(tc.start (tc.newTransaction req producer now)).logTransaction
          (tc.newTransaction req producer now), world⟩ :=
      ⟨_, rfl, .single rfl rfl⟩
    exact hstarted.trans (hadded _ _)
  · rw [hresult]
    exact hadded tc txn

theorem lookup_buildPartitionErrors (partitions : List PartitionMetadata)
    (code : ErrorCode) (topic : String) (partition : Int) :
    (buildPartitionErrors partitions code).lookup topic partition =
      if ⟨topic, partition⟩ ∈ partitions then some code else none := by
  have hfold : ∀ errors : PartitionMap ErrorCode,
      PartitionMap.lookup (partitions.foldl (fun errors partition =>
        PartitionMap.set errors partition.topic partition.partition code)
          errors) topic partition =
      if ⟨topic, partition⟩ ∈ partitions then some code
      else errors.lookup topic partition := by
    induction partitions with
    | nil => simp
    | cons head tail ih =>
      intro errors
      rw [List.foldl_cons, ih, PartitionMap.lookup_set]
      by_cases hhead : head = ⟨topic, partition⟩
      · simp [hhead]
      · have hne : ¬ (head.topic = topic ∧ head.partition = partition) := by
          rintro ⟨rfl, rfl⟩
          exact hhead rfl
        simp [hne, Ne.symm hhead]
  rw [buildPartitionErrors, hfold]
  rfl

/-- What the answer to an operation says of the transaction its ID has: the
group is named, or offsets are accepted for some partition. -/
def answer (services : Services σ) (run : CoordinatorRun σ)
    (op : TxnOperation) : History :=
  match op with
  | .addOffsetsToTxn req =>
    if (run.tc.addOffsetsToTxn req).2 = .none then
      ((run.tc.transactions.find? req.transactionId).map fun txn =>
        (txn.serial, .grouped req.groupId)).toList
    else []
  | .txnOffsetCommit req =>
    if ∃ target ∈ partitionsFromOffsets req.offsets,
        (run.tc.txnOffsetCommit services req).2.lookup target.topic
          target.partition = some .none then
      ((run.tc.transactions.find? req.transactionId).map fun txn =>
        (txn.serial, .acknowledged req.offsets)).toList
    else []
  | _ => []

theorem records_addOffsetsToTxn (req : AddOffsetsToTxnRequest) :
    Records services run (run.answer services (.addOffsetsToTxn req))
      (run.step services (.addOffsetsToTxn req)) := by
  simp only [answer, step]
  rcases run.tc.addOffsetsToTxn_cases req with
    ⟨code, hcode, hresult⟩ | ⟨txn, hrecords, hresult⟩
  · rw [hresult, if_neg hcode]
    exact .of_history rfl rfl
  · rw [hresult, hrecords.stored, if_pos rfl]
    exact ⟨_, rfl, .answered rfl .nil⟩

theorem records_txnOffsetCommit (req : TxnOffsetCommitRequest) :
    Records services run (run.answer services (.txnOffsetCommit req))
      (run.step services (.txnOffsetCommit req)) := by
  simp only [answer, step]
  rcases txnOffsetCommit_cases services run.tc req with
    ⟨code, hcode, hresult⟩ | ⟨txn, hfind, -, -, -, hresult⟩
  · rw [hresult, if_neg]
    · exact .of_history rfl rfl
    · rintro ⟨target, hmem, hnone⟩
      rw [lookup_buildPartitionErrors, if_pos hmem] at hnone
      exact hcode (Option.some.inj hnone)
  · rw [hresult, hfind]
    by_cases hempty : partitionsFromOffsets req.offsets = []
    · rw [if_neg (by simp [hempty])]
      exact ⟨_, rfl, .single rfl (by simp [LifeEvent.isAnswer, hempty])⟩
    · rw [if_pos]
      · exact ⟨_, rfl, .answered (by simp [LifeEvent.isAnswer, hempty]) .nil⟩
      · obtain ⟨target, hmem⟩ := List.exists_mem_of_ne_nil _ hempty
        exact ⟨target, hmem, by rw [lookup_buildPartitionErrors, if_pos hmem]⟩

/-- A step makes the calls and gives the answers that the history then has. -/
theorem records_step (run : CoordinatorRun σ) (op : TxnOperation) :
    Records services run (run.answer services op) (run.step services op) := by
  cases op with
  | initProducerId req =>
    refine .of_history ?_ rfl
    rw [step, initProducerId_frame]
  | addPartitionsToTxn req now => exact records_addPartitionsToTxn req now
  | addOffsetsToTxn req => exact records_addOffsetsToTxn req
  | txnOffsetCommit req => exact records_txnOffsetCommit req
  | endTxn req now => exact records_endTxn req now
  | checkExpiredTransactions visits =>
    exact records_checkExpiredTransactions visits
  | cleanup id serial =>
    exact .of_history (run.tc.history_cleanup id serial) rfl

/-- The answers to operations, one after the other. -/
def answersOf (services : Services σ) (run : CoordinatorRun σ) :
    List TxnOperation → History
  | [] => []
  | op :: ops =>
    run.answer services op ++ answersOf services (run.step services op) ops

theorem records_runSteps (run : CoordinatorRun σ) (ops : List TxnOperation) :
    Records services run (run.answersOf services ops)
      (runSteps (step services) run ops) := by
  induction ops generalizing run with
  | nil => exact .of_history rfl rfl
  | cons op ops ih => exact (records_step run op).trans (ih _)

end CoordinatorRun

end Streambus
