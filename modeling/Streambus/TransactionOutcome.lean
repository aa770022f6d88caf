/-
The outcome of transactions, and their cleanup.  The history of a transaction
replays as a life that its stored metadata shows, so that it has one outcome
and publishes its offsets with its commit or not at all, whichever calls of the
marker writer and the offset committer fail.  Every completion puts a cleanup
to sleep that wakes up a retention time later and deletes whatever its ID holds
by then, a later transaction still at work included.
-/
import Streambus.TransactionCalls

namespace Streambus

open Life OrderedMap TransactionCoordinator TransactionState

/-- Each history is that of a life, shown by the metadata still stored; no two
IDs store the same transaction. -/
structure Chronicled (tc : TransactionCoordinator) : Prop where
  unborn : ∀ serial, tc.started ≤ serial → eventsOf tc.history serial = []
  lives : ∀ serial, ∃ life, Life.replay (eventsOf tc.history serial) = some life
  shown : ∀ id txn, tc.transactions.find? id = some txn →
    txn.transactionId = id ∧ txn.serial < tc.started ∧
      ∃ life, Life.replay (eventsOf tc.history txn.serial) = some life ∧
        txn.Matches life
  apart : ∀ id other txn txn', tc.transactions.find? id = some txn →
    tc.transactions.find? other = some txn' → txn.serial = txn'.serial → id = other

theorem chronicled_new (txnLog : Option (OrderedMap String TransactionLogEntry))
    (config : CoordinatorConfig) :
    Chronicled (newTransactionCoordinator txnLog config) := by
  constructor
  · intro serial _
    rfl
  · intro serial
    exact ⟨Life.unborn, rfl⟩
  · intro id txn hfind
    cases hfind
  · intro id other txn txn' hfind
    cases hfind

theorem eventsOf_save (tc : TransactionCoordinator) (id : String)
    (txn : TransactionMetadata) (events : List LifeEvent) (serial : Nat) :
    eventsOf (tc.save id txn events).history serial = eventsOf tc.history serial ++
        if txn.serial = serial then events else [] := by
  rw [← eventsOf_map]
  exact List.filterMap_append

variable {txn : TransactionMetadata} {tc : TransactionCoordinator}

theorem chronicled_start (hchron : Chronicled tc) (hserial : txn.serial = tc.started)
    (hnew : txn.Matches { Life.unborn with state := .ongoing }) :
    Chronicled (tc.start txn) := by
  have hborn : Life.replay (eventsOf (tc.start txn).history txn.serial) =
      some { Life.unborn with state := .ongoing } := by
    change Life.replay (eventsOf (tc.save txn.transactionId txn
      [.started]).history txn.serial) = _
    rw [eventsOf_save, hchron.unborn txn.serial (by omega)]
    simp [Life.replay, Life.run, Life.next, Life.unborn]
  have hother : ∀ serial, serial ≠ txn.serial →
      eventsOf (tc.start txn).history serial = eventsOf tc.history serial := by
    intro serial hne
    change eventsOf (tc.save txn.transactionId txn [.started]).history serial = _
    simp [eventsOf_save, hne.symm]
  constructor
  · intro serial hle
    have hlt : tc.started + 1 ≤ serial := hle
    rw [hother serial (by omega)]
    exact hchron.unborn serial (by omega)
  · intro serial
    by_cases heq : serial = txn.serial
    · exact ⟨_, heq ▸ hborn⟩
    · rw [hother serial heq]
      exact hchron.lives serial
  · intro id stored hfind
    rw [TransactionCoordinator.start, TransactionCoordinator.save] at hfind
    simp only [find?_insert] at hfind
    split at hfind
    next hid =>
      cases hfind
      exact ⟨hid, by simp [TransactionCoordinator.start, hserial], _, hborn, hnew⟩
    · obtain ⟨hid, hlt, hlife⟩ := hchron.shown id stored hfind
      rw [hother stored.serial (by omega)]
      exact ⟨hid, Nat.lt_succ_of_lt hlt, hlife⟩
  · intro id other stored stored' hfind hfind' heq
    rw [TransactionCoordinator.start, TransactionCoordinator.save]
      at hfind hfind'
    simp only [find?_insert] at hfind hfind'
    split at hfind <;> split at hfind'
    · simp_all
    · cases hfind
      have hlt := (hchron.shown other stored' hfind').2.1
      omega
    · cases hfind'
      have hlt := (hchron.shown id stored hfind).2.1
      omega
    · exact hchron.apart id other stored stored' hfind hfind' heq

variable {events : List LifeEvent}

theorem chronicled_advance {id : String} {after : TransactionMetadata}
    (hchron : Chronicled tc) (hfind : tc.transactions.find? id = some txn)
    (hadvances : Advances txn after events) :
    Chronicled (tc.save id after events) := by
  obtain ⟨hid, hlt, life, hreplay, hmatches⟩ := hchron.shown id txn hfind
  obtain ⟨later, hrun, hlater⟩ := hadvances.lives life hmatches
  have hserial := hadvances.same.serial
  have hadvanced : Life.replay
      (eventsOf (tc.save id after events).history txn.serial) = some later := by
    rw [eventsOf_save, if_pos hserial, replay_append, hreplay]
    exact hrun
  have hother : ∀ serial, serial ≠ txn.serial →
      eventsOf (tc.save id after events).history serial =
        eventsOf tc.history serial := by
    intro serial hne
    rw [eventsOf_save, hserial, if_neg hne.symm, List.append_nil]
  have hstored : ∀ probe stored,
      (tc.save id after events).transactions.find? probe = some stored →
      (probe = id ∧ stored = after) ∨
        (probe ≠ id ∧ tc.transactions.find? probe = some stored) := by
    intro probe stored hstored
    change (tc.transactions.insert id after).find? probe = some stored
      at hstored
    rw [find?_insert] at hstored
    split at hstored
    next heq => exact Or.inl ⟨heq.symm, (Option.some.inj hstored).symm⟩
    next hne => exact Or.inr ⟨Ne.symm hne, hstored⟩
  constructor
  · intro serial hle
    have hle : tc.started ≤ serial := hle
    rw [hother serial (by omega)]
    exact hchron.unborn serial hle
  · intro serial
    by_cases heq : serial = txn.serial
    · exact ⟨later, heq ▸ hadvanced⟩
    · rw [hother serial heq]
      exact hchron.lives serial
  · intro probe stored hprobe
    rcases hstored probe stored hprobe with ⟨rfl, rfl⟩ | ⟨hne, hold⟩
    · exact ⟨hadvances.same.transactionId.trans hid, hserial ▸ hlt, later,
        by rw [hserial]; exact hadvanced, hlater⟩
    · obtain ⟨hprobeId, hprobeLt, hlife⟩ := hchron.shown probe stored hold
      have hdiffers : stored.serial ≠ txn.serial := fun heq =>
        hne (hchron.apart probe id stored txn hold hfind heq)
      rw [hother stored.serial hdiffers]
      exact ⟨hprobeId, hprobeLt, hlife⟩
  · intro first second stored stored' hfirst hsecond heq
    rcases hstored first stored hfirst with ⟨rfl, rfl⟩ | ⟨hne, hold⟩
    · rcases hstored second stored' hsecond with ⟨rfl, rfl⟩ | ⟨hne', hold'⟩
      · rfl
      · exact hchron.apart _ _ txn stored' hfind hold' (hserial ▸ heq)
    · rcases hstored second stored' hsecond with ⟨rfl, rfl⟩ | ⟨hne', hold'⟩
      · exact hchron.apart _ _ stored txn hold hfind (hserial ▸ heq)
      · exact hchron.apart _ _ stored stored' hold hold' heq

theorem Chronicled.of_eq {tc after : TransactionCoordinator}
    (hchron : Chronicled tc) (htransactions : ∀ id txn,
      after.transactions.find? id = some txn → tc.transactions.find? id = some txn)
    (hstarted : after.started = tc.started)
    (hhistory : after.history = tc.history) : Chronicled after := by
  constructor
  · rw [hstarted, hhistory]
    exact hchron.unborn
  · rw [hhistory]
    exact hchron.lives
  · intro id txn hfind
    rw [hstarted, hhistory]
    exact hchron.shown id txn (htransactions id txn hfind)
  · intro id other txn txn' hfind hfind'
    exact hchron.apart id other txn txn' (htransactions id txn hfind)
      (htransactions other txn' hfind')

theorem chronicled_move {tc after : TransactionCoordinator}
    (hchron : Chronicled tc) (hmove : Move tc after) : Chronicled after := by
  cases hmove with
  | advance hfind hadvances => exact chronicled_advance hchron hfind hadvances
  | log hfind | schedule hfind hended =>
    exact hchron.of_eq (fun _ _ h => h) rfl rfl

theorem chronicled_moves {tc after : TransactionCoordinator}
    (hchron : Chronicled tc) (hmoves : Moves tc after) : Chronicled after := by
  induction hmoves with
  | refl => exact hchron
  | tail _ hmove ih => exact chronicled_move ih hmove

theorem chronicled_effect {tc after : TransactionCoordinator}
    (hchron : Chronicled tc) (heffect : Effect tc after) :
    Chronicled after := by
  cases heffect with
  | carry hmoves => exact chronicled_moves hchron hmoves
  | start hfree hserial hnew hmoves =>
    apply chronicled_moves _ hmoves
    exact (chronicled_start hchron hserial hnew).of_eq (fun _ _ h => h) rfl rfl

/-- One transaction at two times: it has the same producer, has been through
the states it was in, and keeps what was decided. -/
structure Continued (txn after : TransactionMetadata) : Prop where
  same : SameTransaction txn after
  path : txn.state.path <+: after.state.path
  decided : ∀ commit, txn.state.outcome = some commit →
    after.state.outcome = some commit ∧ after.partitions = txn.partitions

theorem Continued.refl (txn : TransactionMetadata) : Continued txn txn :=
  ⟨⟨rfl, rfl, rfl, rfl⟩, List.prefix_rfl, fun _ houtcome => ⟨houtcome, rfl⟩⟩

theorem Continued.trans {first second third : TransactionMetadata}
    (hfirst : Continued first second) (hsecond : Continued second third) :
    Continued first third := by
  constructor
  · exact ⟨hsecond.same.1.trans hfirst.same.1,
      hsecond.same.2.trans hfirst.same.2, hsecond.same.3.trans hfirst.same.3,
      hsecond.same.4.trans hfirst.same.4⟩
  · exact hfirst.path.trans hsecond.path
  · intro commit houtcome
    obtain ⟨hmiddle, hpartitions⟩ := hfirst.decided commit houtcome
    obtain ⟨hlast, hpartitions'⟩ := hsecond.decided commit hmiddle
    exact ⟨hlast, hpartitions'.trans hpartitions⟩

theorem Advances.continued {after : TransactionMetadata}
    (hadvances : Advances txn after events) :
    Continued txn after := by
  obtain ⟨later, hrun, hlater⟩ := hadvances.lives
    ⟨txn.state, txn.partitions, txn.groupId, txn.pendingOffsets, []⟩
    ⟨rfl, rfl, rfl, rfl⟩
  have hprogresses := progresses_of_run hrun
  constructor
  · exact hadvances.same
  · rw [hlater.state]
    exact hprogresses.path
  · intro commit houtcome
    obtain ⟨hlast, hpartitions, -⟩ := hprogresses.decided commit houtcome
    rw [hlater.state, hlater.partitions]
    exact ⟨hlast, hpartitions⟩

/-- Whatever is stored later was stored under the same ID before, unless it
started since. -/
structure Continues (tc after : TransactionCoordinator) : Prop where
  started : tc.started ≤ after.started
  stored : ∀ id txn', after.transactions.find? id = some txn' →
    tc.started ≤ txn'.serial ∨
      ∃ txn, tc.transactions.find? id = some txn ∧ Continued txn txn'

theorem Continues.of_eq {tc after : TransactionCoordinator}
    (htransactions : ∀ id txn, after.transactions.find? id = some txn →
      tc.transactions.find? id = some txn)
    (hstarted : after.started = tc.started) : Continues tc after :=
  ⟨hstarted.ge, fun id txn hfind =>
    Or.inr ⟨txn, htransactions id txn hfind, .refl txn⟩⟩

theorem Continues.trans {first second third : TransactionCoordinator}
    (hfirst : Continues first second) (hsecond : Continues second third) :
    Continues first third := by
  refine ⟨hfirst.started.trans hsecond.started, ?_⟩
  intro id last hlast
  rcases hsecond.stored id last hlast with hnew | ⟨middle, hmiddle, hkept⟩
  · exact Or.inl (hfirst.started.trans hnew)
  · rcases hfirst.stored id middle hmiddle with hnew | ⟨old, hold, hkept'⟩
    · exact Or.inl (hkept.same.serial ▸ hnew)
    · exact Or.inr ⟨old, hold, hkept'.trans hkept⟩

theorem continues_move {tc after : TransactionCoordinator}
    (hmove : Move tc after) : Continues tc after := by
  cases hmove with
  | advance hfind hadvances =>
    refine ⟨le_rfl, ?_⟩
    intro id txn' hstored
    change (tc.transactions.insert _ _).find? id = some txn' at hstored
    rw [find?_insert] at hstored
    split at hstored
    next heq =>
      cases hstored
      exact Or.inr ⟨_, heq ▸ hfind, hadvances.continued⟩
    · exact Or.inr ⟨txn', hstored, .refl txn'⟩
  | log hfind | schedule hfind hended => exact .of_eq (fun _ _ h => h) rfl

theorem continues_moves {tc after : TransactionCoordinator}
    (hmoves : Moves tc after) : Continues tc after := by
  induction hmoves with
  | refl => exact .of_eq (fun _ _ h => h) rfl
  | tail _ hmove ih => exact ih.trans (continues_move hmove)

theorem continues_effect {tc after : TransactionCoordinator}
    (heffect : Effect tc after) : Continues tc after := by
  cases heffect with
  | carry hmoves => exact continues_moves hmoves
  | start hfree hserial hnew hmoves =>
    apply Continues.trans _ (continues_moves hmoves)
    refine ⟨Nat.le_succ _, ?_⟩
    intro id stored hfind
    change (tc.transactions.insert _ _).find? id = some stored at hfind
    rw [find?_insert] at hfind
    split at hfind
    · cases hfind
      exact Or.inl hserial.ge
    · exact Or.inr ⟨stored, hfind, .refl stored⟩

namespace TransactionCoordinator

variable {σ : Type} {tc : TransactionCoordinator} (services : Services σ)
  {world : σ} {now : Int} {req : EndTxnRequest}

/-- A transaction whose end is reported is stored as ended that way. -/
theorem find?_endTxn (hnone : (tc.endTxn services world req now).2.2 = .none) :
    ∃ ended, (tc.endTxn services world req now).1.transactions.find?
      req.transactionId = some ended ∧ ended.state = .complete req.commit := by
  rcases endTxn_cases services tc world req now with
    ⟨code, hcode, hresult⟩ | ⟨txn, hfind, hcode, -, hresult⟩
  · rw [hresult] at hnone
    exact absurd hnone hcode
  · obtain ⟨-, -, hstate⟩ := moves_prepareOnce hfind hcode
    have htxn := resolvePrepared_txn services world now hstate
    rw [hresult] at hnone ⊢
    unfold finish at hnone ⊢
    dsimp only at hnone ⊢
    split at hnone
    next hsucceeded =>
      rw [if_pos hsucceeded] at htxn ⊢
      refine ⟨_, find?_insert_self _ _ _, ?_⟩
      rw [htxn]
    · cases hnone

/-- The life of a transaction whose end is reported. -/
theorem replay_endTxn (hchron : Chronicled tc)
    (hnone : (tc.endTxn services world req now).2.2 = .none) :
    ∃ txn life, (tc.endTxn services world req now).1.transactions.find?
        req.transactionId = some txn ∧ txn.state = .complete req.commit ∧
      Life.replay (eventsOf (tc.endTxn services world req now).1.history
        txn.serial) = some life ∧ txn.Matches life := by
  obtain ⟨txn, hfind, hstate⟩ := find?_endTxn services hnone
  obtain ⟨-, -, life, hreplay, hmatches⟩ := (chronicled_moves hchron
    (moves_endTxn services tc world req now)).shown req.transactionId txn hfind
  exact ⟨txn, life, hfind, hstate, hreplay, hmatches⟩

end TransactionCoordinator

namespace CoordinatorRun

variable {σ : Type} (services : Services σ)

theorem chronicled_step {run : CoordinatorRun σ} (hchron : Chronicled run.tc)
    (op : TxnOperation) :
    Chronicled (run.step services op).tc := by
  cases op with
  | cleanup id serial =>
    exact hchron.of_eq (fun _ _ => find?_cleanup)
      (run.tc.started_cleanup id serial) (run.tc.history_cleanup id serial)
  | initProducerId req =>
    rw [step, initProducerId_frame]
    exact hchron.of_eq (fun _ _ h => h) rfl rfl
  | _ => exact chronicled_effect hchron (step_effect services run trivial)

theorem continues_step (run : CoordinatorRun σ) (op : TxnOperation) :
    Continues run.tc (run.step services op).tc := by
  cases op with
  | cleanup id serial =>
    exact .of_eq (fun _ _ => find?_cleanup) (run.tc.started_cleanup id serial)
  | initProducerId req =>
    rw [step, initProducerId_frame]
    exact .of_eq (fun _ _ h => h) rfl
  | _ => exact continues_effect (step_effect services run trivial)

theorem continues_runSteps (run : CoordinatorRun σ) (ops : List TxnOperation) :
    Continues run.tc (runSteps (step services) run ops).tc := by
  induction ops generalizing run with
  | nil => exact .of_eq (fun _ _ h => h) rfl
  | cons op ops ih => exact (continues_step services run op).trans (ih _)

/-- The coordinator after operations on a fresh one. -/
def after (services : Services σ)
    (txnLog : Option (OrderedMap String TransactionLogEntry))
    (config : CoordinatorConfig) (world : σ) (ops : List TxnOperation) :
    CoordinatorRun σ :=
  runSteps (step services) ⟨newTransactionCoordinator txnLog config, world⟩ ops

theorem chronicled_after (txnLog : Option (OrderedMap String TransactionLogEntry))
    (config : CoordinatorConfig) (world : σ) (ops : List TxnOperation) :
    Chronicled (after services txnLog config world ops).tc := by
  apply runSteps_invariant (fun run : CoordinatorRun σ => Chronicled run.tc)
  · intro run op hchron
    exact chronicled_step services hchron op
  · exact chronicled_new txnLog config

theorem recorded_after (txnLog : Option (OrderedMap String TransactionLogEntry))
    (config : CoordinatorConfig) (world : σ) (ops : List TxnOperation) :
    Recorded services world (after services txnLog config world ops).tc.history
      (answersOf services ⟨newTransactionCoordinator txnLog config, world⟩ ops)
      (after services txnLog config world ops).world := by
  obtain ⟨entries, hhistory, hrecorded⟩ := @records_runSteps σ services
    ⟨newTransactionCoordinator txnLog config, world⟩ ops
  rw [after, hhistory]
  exact hrecorded

/-- What is known of the transactions of a run: the calls it made are those on
record, the markers of each transaction carry one flag, each goes through the
states in order, its end is reported only with a marker of the requested flag on
every partition, and what it is once prepared stays that way through all that
follows. -/
structure OneOutcome (services : Services σ) (world : σ)
    (run : CoordinatorRun σ) : Prop where
  calls : ∃ answers, Recorded services world run.tc.history answers run.world
  flag : ∀ serial partition commit succeeded partition' commit' succeeded',
    .marked partition commit succeeded ∈ eventsOf run.tc.history serial →
    .marked partition' commit' succeeded' ∈ eventsOf run.tc.history serial →
      commit = commit'
  path : ∀ serial, ∃ state : TransactionState,
    statesOf (eventsOf run.tc.history serial) = state.path
  state : ∀ id txn, run.tc.transactions.find? id = some txn →
    statesOf (eventsOf run.tc.history txn.serial) = txn.state.path
  ended : ∀ req now, (run.tc.endTxn services run.world req now).2.2 = .none →
    ∃ txn, (run.tc.endTxn services run.world req now).1.transactions.find?
        req.transactionId = some txn ∧ txn.state = .complete req.commit ∧
      ∀ partition ∈ txn.partitions, .marked partition req.commit true ∈ eventsOf
        (run.tc.endTxn services run.world req now).1.history txn.serial
  prepared : ∀ ops id later txn txn', run.tc.transactions.find? id = some txn →
    txn.state.outcome ≠ none →
    (runSteps (step services) run ops).tc.transactions.find? later =
      some txn' → txn'.serial = txn.serial →
    later = id ∧ txn'.partitions = txn.partitions ∧ txn'.producerId = txn.producerId ∧
      txn'.producerEpoch = txn.producerEpoch ∧
      txn'.state.outcome = txn.state.outcome

theorem oneOutcome_after (services : Services σ)
    (txnLog : Option (OrderedMap String TransactionLogEntry))
    (config : CoordinatorConfig) (world : σ) (ops : List TxnOperation) :
    OneOutcome services world (after services txnLog config world ops) := by
  have hchron := chronicled_after services txnLog config world ops
  constructor
  · exact ⟨_, recorded_after services txnLog config world ops⟩
  · intro serial partition commit succeeded partition' commit' succeeded'
      hmarked hmarked'
    obtain ⟨life, hreplay⟩ := hchron.lives serial
    have hmarks := marks_of_replay hreplay
    have hcommit := hmarks.outcome partition commit succeeded hmarked
    have hcommit' := hmarks.outcome partition' commit' succeeded' hmarked'
    exact Option.some.inj (hcommit.symm.trans hcommit')
  · intro serial
    obtain ⟨life, hreplay⟩ := hchron.lives serial
    exact ⟨life.state, (follows_of_replay hreplay).states⟩
  · intro id txn hfind
    obtain ⟨-, -, life, hreplay, hmatches⟩ := hchron.shown id txn hfind
    rw [hmatches.state]
    exact (follows_of_replay hreplay).states
  · intro req now hnone
    obtain ⟨txn, life, hfind, hstate, hreplay, hmatches⟩ :=
      replay_endTxn services hchron hnone
    refine ⟨txn, hfind, hstate, ?_⟩
    intro partition hmem
    have hcomplete : life.state = .complete req.commit :=
      hmatches.state.symm.trans hstate
    apply marked_of_done hreplay
    · apply done_of_terminal hreplay
      rw [hcomplete, isTerminal_complete]
    · rw [hcomplete, outcome_complete]
    · rwa [← hmatches.partitions]
  · intro later id other txn txn' hfind houtcome hlater hserial
    have hprogresses := continues_runSteps services
      (after services txnLog config world ops) later
    have hlt := (hchron.shown id txn hfind).2.1
    rcases hprogresses.stored other txn' hlater with hnew | ⟨old, hold, hkept⟩
    · omega
    · have hid : other = id := hchron.apart other id old txn hold hfind
        (hkept.same.serial.symm.trans hserial)
      subst hid
      obtain rfl : old = txn := Option.some.inj (hold.symm.trans hfind)
      obtain ⟨commit, hcommit⟩ := Option.ne_none_iff_exists'.mp houtcome
      obtain ⟨hdecided, hpartitions⟩ := hkept.decided commit hcommit
      exact ⟨rfl, hpartitions, hkept.same.producerId,
        hkept.same.producerEpoch, hdecided.trans hcommit.symm⟩

/-- What is known of the offsets of a run's transactions, with the answers that
were given: the calls and the answers are those on record, the partitions on
record those stored, and offsets are published only when every partition has its
commit marker, for the group that was named and as they were acknowledged last,
with success at most once, never by a transaction that aborts, and before the
commit is reported. -/
structure PublishedWithCommit (services : Services σ) (world : σ)
    (answers : History) (run : CoordinatorRun σ) : Prop where
  calls : Recorded services world run.tc.history answers run.world
  partitions : ∀ id txn, run.tc.transactions.find? id = some txn →
    partitionsOf (eventsOf run.tc.history txn.serial) = txn.partitions
  published : ∀ serial before after groupId offsets succeeded,
    eventsOf run.tc.history serial =
      before ++ .published groupId offsets succeeded :: after →
    (∀ partition ∈ partitionsOf (eventsOf run.tc.history serial),
        .marked partition true true ∈ before) ∧
      groupId = groupOf (eventsOf run.tc.history serial) ∧
      (∀ topic partition, offsets.lookup topic partition = lastAcknowledged
        (eventsOf run.tc.history serial) topic partition) ∧
      ¬ Published before ∧
      .completeAbort ∉ statesOf (eventsOf run.tc.history serial)
  reported : ∀ req now, req.commit = true →
    (run.tc.endTxn services run.world req now).2.2 = .none →
    ∃ txn, (run.tc.endTxn services run.world req now).1.transactions.find?
        req.transactionId = some txn ∧
      ∀ topic partition, lastAcknowledged (eventsOf
          (run.tc.endTxn services run.world req now).1.history txn.serial)
          topic partition ≠ none →
        Published (eventsOf
          (run.tc.endTxn services run.world req now).1.history txn.serial)

end CoordinatorRun

open Option OrderedMap TransactionCoordinator

theorem TransactionState.terminal_of_path {state after : TransactionState}
    (hpath : state.path <+: after.path) (hterminal : state.isTerminal = true) :
    after.isTerminal = true := by
  cases state <;> cases after <;>
    simp_all [TransactionState.path, TransactionState.isTerminal]

/-- Sleeping cleanups come from transactions that ended, and the transaction
log has an entry for each ID that is stored. -/
structure Tidy (tc : TransactionCoordinator) : Prop where
  ended : ∀ id serial, (id, serial) ∈ tc.scheduled → serial < tc.started ∧
    ∀ txn, tc.transactions.find? id = some txn → txn.serial = serial →
      txn.state.isTerminal = true
  logged : ∀ entries, tc.txnLog = some entries → ∀ id,
    (entries.find? id).isSome = (tc.transactions.find? id).isSome

variable {txn : TransactionMetadata} {tc : TransactionCoordinator}

theorem tidy_start (htidy : Tidy tc) (hserial : txn.serial = tc.started) :
    Tidy ((tc.start txn).logTransaction txn) := by
  constructor
  · intro id serial hmem
    obtain ⟨hlt, hended⟩ := htidy.ended id serial hmem
    refine ⟨Nat.lt_succ_of_lt hlt, ?_⟩
    intro stored hfind heq
    change (tc.transactions.insert _ _).find? id = some stored at hfind
    rw [find?_insert] at hfind
    split at hfind
    · cases hfind
      omega
    · exact hended stored hfind heq
  · intro entries hentries id
    obtain ⟨old, hold, rfl⟩ := map_eq_some_iff.mp hentries
    change _ = ((tc.transactions.insert _ _).find? id).isSome
    rw [find?_insert, find?_insert]
    split
    · rfl
    · exact htidy.logged old hold id

variable {tc after : TransactionCoordinator}

theorem tidy_move (hchron : Chronicled tc) (htidy : Tidy tc)
    (hmove : Move tc after) : Tidy after := by
  cases hmove with
  | advance hfind hadvances =>
    constructor
    · intro id serial hmem
      obtain ⟨hlt, hended⟩ := htidy.ended id serial hmem
      refine ⟨hlt, ?_⟩
      intro stored hstored heq
      change (tc.transactions.insert _ _).find? id = some stored at hstored
      rw [find?_insert] at hstored
      split at hstored
      next hid =>
        cases hstored
        subst hid
        have hcontinued := hadvances.continued
        exact TransactionState.terminal_of_path hcontinued.path
          (hended _ hfind (hcontinued.same.serial.symm.trans heq))
      · exact hended stored hstored heq
    · intro entries hentries id
      rw [htidy.logged entries hentries id]
      change _ = ((tc.transactions.insert _ _).find? id).isSome
      rw [find?_insert]
      split
      next hid =>
        rw [← hid, hfind]
        rfl
      · rfl
  | @log id txn hfind =>
    refine ⟨htidy.ended, ?_⟩
    intro entries hentries probe
    obtain ⟨old, hold, rfl⟩ := map_eq_some_iff.mp hentries
    have hid := (hchron.shown id txn hfind).1
    change _ = (tc.transactions.find? probe).isSome
    rw [find?_insert, hid]
    split
    next heq =>
      rw [← heq, hfind]
      rfl
    · exact htidy.logged old hold probe
  | @schedule id txn hfind hended =>
    refine ⟨?_, htidy.logged⟩
    intro probe serial hmem
    rcases List.mem_cons.mp hmem with heq | hold
    · cases heq
      refine ⟨(hchron.shown id txn hfind).2.1, ?_⟩
      intro stored hstored _
      obtain rfl : txn = stored := Option.some.inj (hfind.symm.trans hstored)
      exact hended
    · exact htidy.ended probe serial hold

theorem tidy_moves (hchron : Chronicled tc) (htidy : Tidy tc)
    (hmoves : Moves tc after) : Tidy after := by
  induction hmoves with
  | refl => exact htidy
  | tail hmoves hmove ih =>
    exact tidy_move (chronicled_moves hchron hmoves) ih hmove

theorem tidy_cleanup (htidy : Tidy tc) (id : String) (serial : Nat) :
    Tidy (tc.cleanup id serial) := by
  unfold TransactionCoordinator.cleanup
  split
  · constructor
    · intro probe other hmem
      obtain ⟨hlt, hended⟩ :=
        htidy.ended probe other (List.mem_of_mem_erase hmem)
      refine ⟨hlt, ?_⟩
      intro txn hfind
      rw [find?_erase] at hfind
      split at hfind
      · cases hfind
      · exact hended txn hfind
    · intro entries hentries probe
      obtain ⟨old, hold, rfl⟩ := map_eq_some_iff.mp hentries
      rw [find?_erase, find?_erase]
      split
      · rfl
      · exact htidy.logged old hold probe
  · exact htidy

theorem tidy_effect (hchron : Chronicled tc) (htidy : Tidy tc)
    (heffect : Effect tc after) :
    Tidy after := by
  cases heffect with
  | carry hmoves => exact tidy_moves hchron htidy hmoves
  | start hfree hserial hnew hmoves =>
    exact tidy_moves (chronicled_effect hchron
      (.start hfree hserial hnew .refl)) (tidy_start htidy hserial) hmoves

/-- Moves keep what is stored, and what the log has. -/
theorem kept_moves (hmoves : Moves tc after) : ∀ id txn,
      tc.transactions.find? id = some txn →
        ∃ txn', after.transactions.find? id = some txn' ∧
          txn'.serial = txn.serial := by
  induction hmoves with
  | refl => exact fun id txn hfind => ⟨txn, hfind, rfl⟩
  | tail _ hmove ih =>
    intro id txn hfind
    obtain ⟨middle, hmiddle, hserial⟩ := ih id txn hfind
    cases hmove with
    | log _ | schedule _ _ => exact ⟨middle, hmiddle, hserial⟩
    | @advance other old new _ hstored hadvances =>
      by_cases hid : other = id
      · subst hid
        obtain rfl : old = middle :=
          Option.some.inj (hstored.symm.trans hmiddle)
        exact ⟨new, find?_insert_self _ _ _, hadvances.same.serial.trans hserial⟩
      · exact ⟨middle, (find?_insert_of_ne _ hid new).trans hmiddle, hserial⟩

/-- A step of the coordinator removes no live transaction, and no log entry
but that of an ended one. -/
structure KeepsLive (before after : TransactionCoordinator) : Prop where
  live : ∀ id txn, before.transactions.find? id = some txn →
    txn.state.isTerminal = false →
    ∃ txn', after.transactions.find? id = some txn' ∧ txn'.serial = txn.serial
  log : ∀ entries entries', before.txnLog = some entries →
    after.txnLog = some entries' → ∀ id, (entries.find? id).isSome →
    entries'.find? id = none →
    ∃ txn, before.transactions.find? id = some txn ∧ txn.state.isTerminal = true

variable {before : TransactionCoordinator}

/-- If nothing stored is lost, the log loses nothing. -/
theorem keepsLive_of_kept {after : TransactionCoordinator}
    (hbefore : Tidy before) (hafter : Tidy after)
    (hstored : ∀ id txn, before.transactions.find? id = some txn →
      (after.transactions.find? id).isSome)
    (hlive : ∀ id txn, before.transactions.find? id = some txn →
      txn.state.isTerminal = false →
      ∃ txn', after.transactions.find? id = some txn' ∧
        txn'.serial = txn.serial) : KeepsLive before after := by
  refine ⟨hlive, ?_⟩
  intro entries entries' hentries hentries' id hentry hgone
  rw [hbefore.logged entries hentries id, isSome_iff_exists] at hentry
  obtain ⟨txn, hfind⟩ := hentry
  have hkept := hstored id txn hfind
  rw [← hafter.logged entries' hentries' id, hgone] at hkept
  cases hkept

theorem keepsLive_moves {after : TransactionCoordinator}
    (hchron : Chronicled before) (htidy : Tidy before)
    (hmoves : Moves before after) : KeepsLive before after := by
  apply keepsLive_of_kept htidy (tidy_moves hchron htidy hmoves)
  · intro id txn hfind
    obtain ⟨txn', hfind', -⟩ := kept_moves hmoves id txn hfind
    simp [hfind']
  · intro id txn hfind _
    exact kept_moves hmoves id txn hfind

theorem keepsLive_start {after : TransactionCoordinator}
    (hchron : Chronicled before) (htidy : Tidy before)
    (hfree : before.live txn.transactionId = none)
    (hserial : txn.serial = before.started)
    (hnew : txn.Matches { Life.unborn with state := .ongoing })
    (hmoves : Moves ((before.start txn).logTransaction txn) after) :
    KeepsLive before after := by
  have hafter := tidy_effect hchron htidy (.start hfree hserial hnew hmoves)
  have hother : ∀ id, txn.transactionId ≠ id →
      ((before.start txn).logTransaction txn).transactions.find? id =
        before.transactions.find? id := fun id hne =>
    find?_insert_of_ne _ hne txn
  apply keepsLive_of_kept htidy hafter
  · intro id stored hfind
    by_cases hid : txn.transactionId = id
    · obtain ⟨txn', hfind', -⟩ := kept_moves hmoves id txn
        (hid ▸ find?_insert_self _ _ _)
      simp [hfind']
    · obtain ⟨txn', hfind', -⟩ := kept_moves hmoves id stored
        ((hother id hid).trans hfind)
      simp [hfind']
  · intro id stored hfind hopen
    by_cases hid : txn.transactionId = id
    · -- The ID had no live transaction.
      rw [hid, TransactionCoordinator.live, hfind, filter_some,
        isTerminalState_eq, hopen] at hfree
      cases hfree
    · exact kept_moves hmoves id stored ((hother id hid).trans hfind)

theorem keepsLive_effect {after : TransactionCoordinator}
    (hchron : Chronicled before) (htidy : Tidy before)
    (heffect : Effect before after) : KeepsLive before after := by
  cases heffect with
  | carry hmoves => exact keepsLive_moves hchron htidy hmoves
  | start hfree hserial hnew hmoves =>
    exact keepsLive_start hchron htidy hfree hserial hnew hmoves

/-- The transaction a cleanup finds, if any, has asked for a cleanup too. -/
def TransactionCoordinator.cleanupOwned (tc : TransactionCoordinator)
    (id : String) (serial : Nat) : Prop :=
  (id, serial) ∈ tc.scheduled →
    ∀ txn ∈ tc.transactions.find? id, (id, txn.serial) ∈ tc.scheduled
deriving Decidable

theorem keepsLive_cleanup (htidy : Tidy tc) {id : String} {serial : Nat}
    (howned : tc.cleanupOwned id serial) :
    KeepsLive tc (tc.cleanup id serial) := by
  unfold TransactionCoordinator.cleanup
  split
  next hscheduled =>
    have hended : ∀ txn, tc.transactions.find? id = some txn →
        txn.state.isTerminal = true := fun txn hfind =>
      (htidy.ended id txn.serial (howned hscheduled txn hfind)).2 txn hfind rfl
    constructor
    · intro probe txn hfind hopen
      by_cases hid : id = probe
      · have := hended txn (hid ▸ hfind)
        simp [hopen] at this
      · refine ⟨txn, ?_, rfl⟩
        rw [find?_erase, if_neg hid, hfind]
    · intro entries entries' hentries hentries' probe hentry hgone
      rw [htidy.logged entries hentries probe, isSome_iff_exists] at hentry
      obtain ⟨txn, hfind⟩ := hentry
      refine ⟨txn, hfind, ?_⟩
      by_cases hid : id = probe
      · exact hended txn (hid ▸ hfind)
      · simp only [hentries, map_some, Option.some.injEq] at hentries'
        rw [← hentries', find?_erase, if_neg hid] at hgone
        have hlogged := htidy.logged entries hentries probe
        simp [hgone, hfind] at hlogged
  · apply keepsLive_of_kept htidy htidy
    · intro probe txn hfind
      simp [hfind]
    · intro probe txn hfind _
      exact ⟨txn, hfind, rfl⟩

/-- Whatever an ID with a sleeping cleanup stores has asked for one itself. -/
def CleanupsFollow (tc : TransactionCoordinator) : Prop :=
  ∀ id serial, tc.cleanupOwned id serial

theorem cleanupsFollow_moves (hfollow : CleanupsFollow tc)
    (hmoves : Moves tc after) : CleanupsFollow after := by
  induction hmoves with
  | refl => exact hfollow
  | tail _ hmove ih =>
    intro probe serial hmem stored hstored
    cases hmove with
    | advance hfind hadvances =>
      change (OrderedMap.insert _ _ _).find? probe = some stored at hstored
      rw [find?_insert] at hstored
      split at hstored
      next hid =>
        cases hstored
        rw [hadvances.same.serial]
        exact ih probe serial hmem _ (hid ▸ hfind)
      · exact ih probe serial hmem stored hstored
    | log hfind => exact ih probe serial hmem stored hstored
    | schedule hfind hended =>
      rcases List.mem_cons.mp hmem with heq | hold
      · cases heq
        obtain rfl := Option.some.inj (hfind.symm.trans hstored)
        exact List.mem_cons_self
      · exact List.mem_cons_of_mem _ (ih probe serial hold stored hstored)

theorem cleanupsFollow_start (hfollow : CleanupsFollow tc)
    (hrested : ∀ entry ∈ tc.scheduled, entry.1 ≠ txn.transactionId) :
    CleanupsFollow ((tc.start txn).logTransaction txn) := by
  intro probe serial hmem stored hstored
  have hne : txn.transactionId ≠ probe := (hrested _ hmem).symm
  exact hfollow probe serial hmem stored
    ((find?_insert_of_ne _ hne txn).symm.trans hstored)

theorem cleanupsFollow_cleanup (hfollow : CleanupsFollow tc) (id : String)
    (serial : Nat) : CleanupsFollow (tc.cleanup id serial) := by
  unfold TransactionCoordinator.cleanup
  split
  · intro probe other hmem stored hstored
    change (tc.transactions.erase id).find? probe = some stored at hstored
    rw [find?_erase] at hstored
    split at hstored
    · cases hstored
    next hne =>
      have hown := hfollow probe other (List.mem_of_mem_erase hmem) stored hstored
      refine (List.mem_erase_of_ne ?_).mpr hown
      exact fun heq => hne (congrArg Prod.fst heq).symm
  · exact hfollow

namespace CoordinatorRun

variable {σ : Type}

/-- Cleanups wake up only to transactions that have asked for one. -/
def CleanupsOwned (run : CoordinatorRun σ) : TxnOperation → Prop
  | .cleanup id serial => run.tc.cleanupOwned id serial
  | _ => True

instance (run : CoordinatorRun σ) (op : TxnOperation) :
    Decidable (run.CleanupsOwned op) := by
  cases op <;> unfold CleanupsOwned <;> infer_instance

variable {run : CoordinatorRun σ} (services : Services σ)

theorem tidy_step (hchron : Chronicled run.tc) (htidy : Tidy run.tc)
    (op : TxnOperation) :
    Tidy (run.step services op).tc := by
  cases op with
  | cleanup id serial => exact tidy_cleanup htidy id serial
  | initProducerId req =>
    rw [step, initProducerId_frame]
    exact ⟨htidy.ended, htidy.logged⟩
  | _ => exact tidy_effect hchron htidy (step_effect services run trivial)

theorem keepsLive_step (hchron : Chronicled run.tc) (htidy : Tidy run.tc)
    {op : TxnOperation} (howned : run.CleanupsOwned op) :
    KeepsLive run.tc (run.step services op).tc := by
  cases op with
  | cleanup id serial => exact keepsLive_cleanup htidy howned
  | initProducerId req =>
    rw [step, initProducerId_frame]
    have hsame := keepsLive_moves hchron htidy .refl
    exact ⟨hsame.live, hsame.log⟩
  | _ => exact keepsLive_effect hchron htidy (step_effect services run trivial)

/-- A coordinator with an empty log, or without one. -/
def fresh (logged : Bool) (config : CoordinatorConfig) (world : σ) :
    CoordinatorRun σ :=
  ⟨newTransactionCoordinator (if logged then some ∅ else none) config, world⟩

theorem tidy_fresh (logged : Bool) (config : CoordinatorConfig) (world : σ) :
    Tidy (fresh logged config world).tc := by
  constructor
  · intro id serial hmem
    cases hmem
  · intro entries hentries id
    cases logged <;> cases hentries
    rfl

/-- A transaction is started only under an ID that no sleeping cleanup is
for. -/
def StartsRested (run : CoordinatorRun σ) : TxnOperation → Prop
  | .addPartitionsToTxn req _ => run.tc.live req.transactionId = none →
    ∀ entry ∈ run.tc.scheduled, entry.1 ≠ req.transactionId
  | _ => True

instance (run : CoordinatorRun σ) (op : TxnOperation) :
    Decidable (run.StartsRested op) := by
  cases op <;> unfold StartsRested <;> infer_instance

theorem cleanupsFollow_step (hfollow : CleanupsFollow run.tc)
    {op : TxnOperation} (hrested : run.StartsRested op) :
    CleanupsFollow (run.step services op).tc := by
  cases op with
  | initProducerId req =>
    rw [step, initProducerId_frame]
    exact hfollow
  | addPartitionsToTxn req now =>
    change CleanupsFollow (run.tc.addPartitionsToTxn req now).1
    rcases run.tc.addPartitionsToTxn_cases req now with
      hsame | ⟨producer, hfree, hresult⟩ | ⟨txn, hfind, hongoing, hresult⟩
    · rwa [hsame]
    · rw [hresult]
      exact cleanupsFollow_moves (cleanupsFollow_start hfollow (hrested hfree))
        (moves_addPartitions (find?_insert_self _ _ _) rfl)
    · rw [hresult]
      exact cleanupsFollow_moves hfollow (moves_addPartitions hfind hongoing)
  | addOffsetsToTxn req =>
    exact cleanupsFollow_moves hfollow (run.tc.moves_addOffsetsToTxn req)
  | txnOffsetCommit req =>
    exact cleanupsFollow_moves hfollow (run.tc.moves_txnOffsetCommit services req)
  | endTxn req now =>
    exact cleanupsFollow_moves hfollow
      (run.tc.moves_endTxn services run.world req now)
  | checkExpiredTransactions visits =>
    exact cleanupsFollow_moves hfollow
      (run.tc.moves_checkExpiredTransactions services run.world visits)
  | cleanup id serial => exact cleanupsFollow_cleanup hfollow id serial

/-- In a run that starts transactions only under IDs no sleeping cleanup is
for, no step removes a live transaction. -/
theorem keepsLive_of_startsRested (services : Services σ) (logged : Bool)
    (config : CoordinatorConfig) (world : σ) (ops : List TxnOperation)
    (op : TxnOperation) (hrested : AllAllowed (step services) StartsRested
      (fresh logged config world) (ops ++ [op])) :
    KeepsLive (runSteps (step services) (fresh logged config world) ops).tc
      (runSteps (step services) (fresh logged config world) (ops ++ [op])).tc := by
  rw [allAllowed_append] at hrested
  rw [runSteps_append]
  obtain ⟨hchron, htidy, hfollow⟩ := hrested.1.invariant
    (fun run : CoordinatorRun σ =>
      Chronicled run.tc ∧ Tidy run.tc ∧ CleanupsFollow run.tc)
    (fun run op hrun hop => ⟨chronicled_step services hrun.1 op,
      tidy_step services hrun.1 hrun.2.1 op,
      cleanupsFollow_step services hrun.2.2 hop⟩)
    ⟨chronicled_new _ config, tidy_fresh logged config world,
      fun _ _ hmem => absurd hmem List.not_mem_nil⟩
  apply keepsLive_step services hchron htidy
  cases op <;> first | trivial | exact hfollow _ _

/-- A marker writer and an offset committer that always work. -/
def reliable : Services Unit :=
  ⟨some fun world _ _ => (world, true), some fun world _ _ => (world, true)⟩

/-- The configuration of the broker, in nanoseconds. -/
def defaultConfig : CoordinatorConfig := ⟨60000000000, 900000000000⟩

/-- Two transactions one after the other under one ID, the first committed, the
second ongoing. -/
def reusedId : List TxnOperation :=
  [.initProducerId ⟨"t", 0⟩, .addPartitionsToTxn ⟨"t", 1001, 0, [⟨"orders", 0⟩]⟩ 0,
    .endTxn ⟨"t", 1001, 0, true⟩ 1,
    .addPartitionsToTxn ⟨"t", 1001, 0, [⟨"orders", 0⟩]⟩ 2]

/-- The same with the cleanup of the first in between, and the second committed
as well. -/
def cleanedUp : List TxnOperation :=
  reusedId.take 3 ++ .cleanup "t" 0 :: reusedId.drop 3 ++
    [.endTxn ⟨"t", 1001, 0, true⟩ 3]

theorem keepsLive_cleanedUp :
    AllAllowed (step reliable) StartsRested (fresh true defaultConfig ())
        (cleanedUp ++ [.cleanup "t" 1]) ∧
      KeepsLive (runSteps (step reliable) (fresh true defaultConfig ()) cleanedUp).tc
        (runSteps (step reliable) (fresh true defaultConfig ())
          (cleanedUp ++ [.cleanup "t" 1])).tc :=
  ⟨by decide +kernel, keepsLive_of_startsRested reliable true defaultConfig ()
    _ _ (by decide +kernel)⟩

/-- The cleanup of the first transaction wakes up while the second is ongoing:
the second and its log entry are gone. -/
theorem cleanup_removes_ongoing :
    ((runSteps (step reliable) (fresh true defaultConfig ())
        reusedId).tc.transactions.find? "t").map (fun txn => txn.state) =
      some .ongoing ∧
    (runSteps (step reliable) (fresh true defaultConfig ())
      (reusedId ++ [.cleanup "t" 0])).tc.transactions.find? "t" = none ∧
    (runSteps (step reliable) (fresh true defaultConfig ())
      (reusedId ++ [.cleanup "t" 0])).tc.txnLog = some ∅ := by
  decide +kernel

end CoordinatorRun

end Streambus
