/-
The counters of a partition log.  Appending hands out the next offsets,
deleting moves the start, and reopening recomputes both from the files that are
left.  The log and its write-ahead log count offsets separately: a batch that
fails after some of its messages, or in the fsync that follows one, has already
moved the write-ahead log's counter.
-/
import Streambus.LogDurability

namespace Streambus

namespace LogRun

/-- Nothing is deleted; on an open log the operation is orderly, its messages
come back as written, and no table is dropped too early. -/
def FaultSafe (run : LogRun) (op : LogOp) : Prop :=
  (match op with
    | .delete _ => False
    | _ => True) ∧
    (run.log.closed = false → run.Orderly op ∧ run.Keeps op ∧ run.Spares op)

instance (run : LogRun) (op : LogOp) : Decidable (run.FaultSafe op) := by
  induction op using LogOp.casesOn <;> unfold FaultSafe <;> infer_instance

/-- The counters agree, and while the log is open every acknowledged message
is read at its offset. -/
structure InStep (run : LogRun) : Prop where
  next_eq : run.log.nextOffset = run.log.wal.nextOffset
  hwm_eq : run.log.highWaterMark = run.log.nextOffset
  reads : run.log.closed = false → run.ReadsInPlace

/-- Both logs answer every read alike. -/
def ReadsAlike (run next : LogRun) : Prop :=
  (∀ offset maxBytes, (next.log.read next.disk offset maxBytes).2 =
    (run.log.read run.disk offset maxBytes).2) ∧
  ∀ startOffset endOffset, (next.log.readRange next.disk startOffset endOffset).2 =
      (run.log.readRange run.disk startOffset endOffset).2

/-- Nothing that can be seen of a log has changed, now or after reopening
it. -/
structure Undisturbed (run next : LogRun) : Prop where
  end_eq : next.log.nextOffset = run.log.nextOffset
  hwm_eq : next.log.highWaterMark = run.log.highWaterMark
  reads : run.ReadsAlike next
  reopened : (run.log.closed = false → run.Orderly .reopen) →
    (run.step .reopen).ReadsAlike (next.step .reopen)

variable {run next : LogRun}

/-- What a run under the condition keeps. -/
structure Faithful (run : LogRun) : Prop where
  durable : run.Durable 0
  legible : run.Legible
  covers : run.log.closed = false → run.Covers

theorem start_faithful (config : LogConfig) : (start config).Faithful :=
  have hserving := start_serving config
  ⟨Or.inl hserving.sound, hserving.legible, fun _ => hserving.covers⟩

theorem Faithful.step (hfaithful : run.Faithful) {op : LogOp}
    (hsafe : run.FaultSafe op) : (run.step op).Faithful := by
  obtain ⟨hkept, hsafe⟩ := hsafe
  obtain ⟨first, hdurable, hsame⟩ :=
    hfaithful.durable.step fun hopened => (hsafe hopened).1
  have hfirst : first = 0 := hsame (by rintro _ rfl; exact hkept)
  subst hfirst
  refine ⟨hdurable, hfaithful.legible.step_open fun hopened =>
    (hsafe hopened).2.1, fun hopened => ?_⟩
  rcases hfaithful.durable with hsound | hstored
  · obtain ⟨horderly, -, hspares⟩ := hsafe hsound.log.opened
    by_cases hopen : op.StaysOpen
    · exact (hsound.step hopen horderly).2 rfl hspares
        (hfaithful.covers hsound.log.opened)
    · cases op with
      | delete beforeOffset => exact hkept.elim
      | close =>
        rw [(hsound.close horderly).1.closed] at hopened
        cases hopened
      | reopen =>
        obtain ⟨-, hacked, -, hcovered⟩ := hsound.reopen horderly
        rw [← hacked] at hcovered
        exact hcovered
      | _ => exact absurd trivial hopen
  · by_cases hop : op = .reopen
    · subst hop
      obtain ⟨-, hacked, -, hcovered⟩ := hstored.reopen
      rw [← hacked] at hcovered
      exact hcovered
    · rw [step_closed hstored.closed hop, hstored.closed] at hopened
      cases hopened

theorem Faithful.readable (hfaithful : run.Faithful)
    (hopened : run.log.closed = false) : run.Readable := by
  rcases hfaithful.durable with hsound | hstored
  · exact ⟨hsound, hfaithful.legible, hfaithful.covers hopened⟩
  · rw [hstored.closed] at hopened
    cases hopened

theorem Faithful.inStep (hfaithful : run.Faithful) : run.InStep := by
  rcases hfaithful.durable with hsound | hstored
  · refine ⟨?_, ?_, fun hopened => (hfaithful.readable hopened).readsInPlace⟩
    · rw [hsound.log.next_eq, hsound.log.healthy.next_eq]
    · rw [hsound.log.hwm_eq, hsound.log.next_eq]
  · refine ⟨?_, ?_, fun hopened => ?_⟩
    · rw [hstored.next_eq, hstored.wal_next_eq]
    · rw [hstored.hwm_eq, hstored.next_eq]
    · rw [hstored.closed] at hopened
      cases hopened

/-- Two open logs over the same messages that start alike answer every read
alike. -/
theorem Readable.readsAlike (hrun : run.Readable) (hnext : next.Readable)
    (hacked : next.acked = run.acked)
    (hstart : next.log.logStartOffset = run.log.logStartOffset) :
    run.ReadsAlike next := by
  refine ⟨fun offset maxBytes => ?_, fun startOffset endOffset => ?_⟩
  · rw [hrun.read_eq, hnext.read_eq, hacked, hstart]
  · rw [hrun.readRange_eq, hnext.readRange_eq, hacked]

theorem Undisturbed.refl (run : LogRun) : run.Undisturbed run :=
  ⟨rfl, rfl, ⟨fun _ _ => rfl, fun _ _ => rfl⟩,
    fun _ => ⟨fun _ _ => rfl, fun _ _ => rfl⟩⟩

/-- Reopening an open log reads every message from the write-ahead log. -/
theorem Sound.reopen_readable (hsound : run.Sound 0) (hlegible : run.Legible)
    (hend : run.Orderly .reopen) :
    (run.step .reopen).Readable ∧ (run.step .reopen).acked = run.acked ∧
      (run.step .reopen).log.logStartOffset = 0 := by
  obtain ⟨hnext, hacked, hstart, hcovered⟩ := hsound.reopen hend
  rw [← hacked] at hcovered
  exact ⟨⟨hnext, hlegible.step trivial, hcovered⟩, hacked, hstart⟩

/-- A failed append leaves no trace. -/
theorem Faithful.undisturbed (hfaithful : run.Faithful) {batch : MessageBatch}
    {faults : List AppendFaults} (hsafe : run.FaultSafe (.append batch faults))
    {error : StorageError}
    (hfails : (run.log.append run.disk batch faults).2.2 = .error error) :
    run.Undisturbed (run.step (.append batch faults)) := by
  rcases hfaithful.durable with hsound | hstored
  · have hopened := hsound.log.opened
    obtain ⟨horderly, hkeeps, -⟩ := hsafe.2 hopened
    by_cases haccepts : run.log.Accepts batch
    · obtain ⟨hfits, hfaults⟩ := horderly haccepts
      rcases Log.writeMessages_rollFaults hsound.log.healthy hfits.atEnd
        hfaults with hsame | ⟨wal, after, hwrite, hadvances, hempty⟩
      · obtain ⟨_, _, _, -, happend, -⟩ := hsound.log.append haccepts hfits
        have hok : run.log.append run.disk batch faults =
            run.log.append run.disk batch [] := by
          simp only [Log.append, hsame]
        rw [hok, happend] at hfails
        cases hfails
      · have hnext := (hfaithful.step hsafe).readable
        have hlegible := hfaithful.legible.step hkeeps
        have hgrown := hsound.grows (Log.Grows.withWal hsound.log hadvances).1
        rw [step_failed hopened haccepts hwrite] at hnext hlegible ⊢
        refine ⟨rfl, rfl, (hfaithful.readable hopened).readsAlike
          (hnext hopened) rfl rfl, fun horderly => ?_⟩
        obtain ⟨hleft, hleftAcked, hleftStart⟩ :=
          hsound.reopen_readable hfaithful.legible (horderly hopened)
        obtain ⟨hright, hrightAcked, hrightStart⟩ :=
          hgrown.sound.reopen_readable hlegible (Or.inr hempty)
        exact hleft.readsAlike hright (hrightAcked.trans hleftAcked.symm)
          (hrightStart.trans hleftStart.symm)
    · rw [step_refused hopened haccepts]
      exact Undisturbed.refl run
  · rw [step_closed hstored.closed (by simp)]
    exact Undisturbed.refl run

/-- In every run under the condition the counters stay in step, acknowledged
messages are read at their offsets, and a failed append leaves no trace. -/
theorem inStep_of_faultSafe (config : LogConfig) (ops : List LogOp)
    (hallowed : AllAllowed step FaultSafe (start config) ops) :
    (runSteps step (start config) ops).InStep ∧ ∀ batch faults error,
        (runSteps step (start config) ops).FaultSafe (.append batch faults) →
        ((runSteps step (start config) ops).log.append
          (runSteps step (start config) ops).disk batch faults).2.2 = .error error →
        (runSteps step (start config) ops).Undisturbed
          ((runSteps step (start config) ops).step (.append batch faults)) := by
  have hfaithful := hallowed.invariant Faithful
    (fun _ _ hfaithful hsafe => hfaithful.step hsafe) (start_faithful config)
  exact ⟨hfaithful.inStep, fun batch faults error hsafe hfails =>
    hfaithful.undisturbed hsafe hfails⟩

/-- The device refuses the fsync before a new segment. -/
def rollFault : AppendFaults := ⟨⟨none, true⟩, false, none, Fault.none⟩

/-- A batch that cannot roll, a flush that fails and one that does not, a
reopen, and a segment that is full again. -/
def faultyOps : List LogOp :=
  [.append smallBatch [], .append smallBatch [],
    .append smallBatch [rollFault], .flush ⟨none, true⟩, .flush Fault.none,
    .reopen]

theorem faulty_inStep :
    (runSteps step (start (smallConfig .never 4)) faultyOps).InStep ∧
    (runSteps step (start (smallConfig .never 4)) faultyOps).Undisturbed
      ((runSteps step (start (smallConfig .never 4)) faultyOps).step
        (.append smallBatch [rollFault])) := by
  have hinStep := inStep_of_faultSafe (smallConfig .never 4) faultyOps
    (by decide +kernel)
  have hfails : ((runSteps step (start (smallConfig .never 4))
      faultyOps).log.append (runSteps step (start (smallConfig .never 4))
        faultyOps).disk smallBatch [rollFault]).2.2.toOption = none := by
    decide +kernel
  refine ⟨hinStep.1, ?_⟩
  cases hresult : ((runSteps step (start (smallConfig .never 4))
      faultyOps).log.append (runSteps step (start (smallConfig .never 4))
        faultyOps).disk smallBatch [rollFault]).2.2 with
  | error error =>
    exact hinStep.2 smallBatch [rollFault] error (by decide +kernel) hresult
  | ok offsets =>
    rw [hresult] at hfails
    cases hfails

/-- The fsync after the write fails. -/
def syncFault : AppendFaults := ⟨Fault.none, false, none, ⟨none, true⟩⟩

/-- A batch of one message with the given value. -/
def valueBatch (value : UInt8) : MessageBatch :=
  ⟨[⟨0, [107], [value], ∅, some 5, 0, 0⟩], 0, 0⟩

/-- A message whose fsync fails is not acknowledged but has moved the
write-ahead log's counter.  The next message is acknowledged at offset 0, and
after a reopen the first one is read there. -/
theorem sync_fault_out_of_step : (runSteps step (start (smallConfig .always 1))
      [.append (valueBatch 1) [syncFault]]).log.nextOffset = 0 ∧
    (runSteps step (start (smallConfig .always 1))
      [.append (valueBatch 1) [syncFault]]).log.wal.nextOffset = 1 ∧
    (runSteps step (start (smallConfig .always 1))
      [.append (valueBatch 1) [syncFault], .append (valueBatch 2) [],
        .reopen]).acked.map Message.value = [[2]] ∧
    ((runSteps step (start (smallConfig .always 1))
      [.append (valueBatch 1) [syncFault], .append (valueBatch 2) [],
        .reopen]).log.readRange (runSteps step (start (smallConfig .always 1))
      [.append (valueBatch 1) [syncFault], .append (valueBatch 2) [],
        .reopen]).disk 0 1).2.toOption.map (List.map Message.value) = some [[1]] := by
  decide +kernel

end LogRun

open List

theorem MessageBatch.stampFrom_bounds {batch : MessageBatch} {offset : Int}
    {messages : List Message} {message : Message}
    (hmem : message ∈ batch.stampFrom offset messages) :
    offset ≤ message.offset ∧ message.offset < offset + messages.length := by
  obtain ⟨index, hindex, rfl⟩ := mem_iff_getElem.mp hmem
  have hoffset := offset_of_stampFrom (getElem?_eq_getElem hindex)
  rw [stampFrom_length] at hindex
  omega

theorem MessageBatch.stampFrom_nodup (batch : MessageBatch) (offset : Int)
    (messages : List Message) :
    ((batch.stampFrom offset messages).map Message.offset).Nodup := by
  induction messages generalizing offset with
  | nil => simp [stampFrom]
  | cons message rest ih =>
    rw [stampFrom, map_cons, nodup_cons]
    refine ⟨fun hmem => ?_, ih (offset + 1)⟩
    obtain ⟨later, hlater, hsame⟩ := mem_map.mp hmem
    have hbounds := stampFrom_bounds hlater
    have hhere : (batch.stamp offset message).offset = offset := rfl
    omega

namespace LogRun

/-- A delete stays inside the log, and only a log that still starts at zero is
reopened; until something is deleted every operation is orderly. -/
def BoundsSafe (run : LogRun) : LogOp → Prop
  | .delete beforeOffset => run.log.closed = false →
      run.log.logStartOffset ≤ beforeOffset ∧ beforeOffset ≤ run.log.highWaterMark
  | .reopen => run.log.logStartOffset = 0 ∧
      (run.log.closed = false → run.Orderly .reopen)
  | op => run.log.logStartOffset = 0 → run.log.closed = false → run.Orderly op

instance (run : LogRun) (op : LogOp) : Decidable (run.BoundsSafe op) := by
  induction op using LogOp.casesOn <;> unfold BoundsSafe <;> infer_instance

/-- The start does not pass the end, and no offset was given out twice. -/
structure WellBounded (run : LogRun) : Prop where
  hwm_eq : run.log.highWaterMark = run.log.nextOffset
  start_le : run.log.logStartOffset ≤ run.log.highWaterMark
  nodup : (run.acked.map Message.offset).Nodup

/-- Neither bound moved back. -/
structure BoundsLe (run next : LogRun) : Prop where
  start_le : run.log.logStartOffset ≤ next.log.logStartOffset
  end_le : run.log.nextOffset ≤ next.log.nextOffset

theorem BoundsLe.refl (run : LogRun) : run.BoundsLe run := ⟨le_rfl, le_rfl⟩

theorem BoundsLe.trans {run middle next : LogRun} (hleft : run.BoundsLe middle)
    (hright : middle.BoundsLe next) : run.BoundsLe next :=
  ⟨hleft.start_le.trans hright.start_le, hleft.end_le.trans hright.end_le⟩

/-- What a run under the condition keeps: the bounds are right, every offset
given out lies below the end, and as long as the log starts at zero all its
messages are on disk. -/
structure Bounded (run : LogRun) : Prop extends run.WellBounded where
  start_nonneg : 0 ≤ run.log.logStartOffset
  below : ∀ message ∈ run.acked, message.offset < run.log.nextOffset
  durable : run.log.logStartOffset = 0 → run.Durable 0

variable {run : LogRun}

theorem Durable.next_eq {first : Int} (hdurable : run.Durable first) :
    run.log.nextOffset = run.acked.length := by
  rcases hdurable with hsound | hstored
  · rw [hsound.log.next_eq, records_length]
  · exact hstored.next_eq

theorem Bounded.append (hbounded : run.Bounded) {batch : MessageBatch}
    {faults : List AppendFaults} (hsafe : run.BoundsSafe (.append batch faults)) :
    (run.step (.append batch faults)).Bounded ∧
      run.BoundsLe (run.step (.append batch faults)) := by
  have hdurable : run.log.logStartOffset = 0 →
      (run.step (.append batch faults)).Durable 0 := by
    intro hstart
    obtain ⟨start, hnext, hsame⟩ :=
      (hbounded.durable hstart).step (hsafe hstart)
    rwa [hsame (by simp)] at hnext
  rcases run.log.append_shape run.disk batch faults with
    ⟨wal, active, after, error, happend⟩ |
      ⟨-, -, wal, active, immutables, after, happend⟩
  · have hstep : run.step (.append batch faults) =
        { run with
          log := { run.log with wal := wal, active := active }
          disk := after } := by
      simp only [step, happend]
    rw [hstep] at hdurable ⊢
    exact ⟨⟨⟨hbounded.hwm_eq, hbounded.start_le, hbounded.nodup⟩,
      hbounded.start_nonneg, hbounded.below, hdurable⟩, le_rfl, le_rfl⟩
  · have hstep : run.step (.append batch faults) =
        ⟨{ run.log with
            wal := wal
            active := active
            immutables := immutables
            nextOffset := run.log.nextOffset + batch.messages.length
            highWaterMark := run.log.nextOffset + batch.messages.length }, after,
          run.acked ++ batch.stampFrom run.log.nextOffset batch.messages⟩ := by
      simp only [step, happend, MessageBatch.zipWith_stamp]
    have hstart := hbounded.start_le
    have hhwm := hbounded.hwm_eq
    rw [hstep] at hdurable ⊢
    refine ⟨⟨⟨rfl, ?_, ?_⟩, hbounded.start_nonneg, ?_, hdurable⟩, le_rfl, ?_⟩
    · change run.log.logStartOffset ≤ run.log.nextOffset + _
      omega
    · rw [map_append, nodup_append]
      refine ⟨hbounded.nodup, batch.stampFrom_nodup _ _, ?_⟩
      intro offset hold other hnew
      obtain ⟨message, hmem, rfl⟩ := mem_map.mp hold
      obtain ⟨later, hlater, rfl⟩ := mem_map.mp hnew
      have hbelow := hbounded.below message hmem
      have habove := MessageBatch.stampFrom_bounds hlater
      omega
    · intro message hmem
      rcases mem_append.mp hmem with hold | hnew
      · have hbelow := hbounded.below message hold
        change message.offset < run.log.nextOffset + _
        omega
      · exact (MessageBatch.stampFrom_bounds hnew).2
    · change run.log.nextOffset ≤ run.log.nextOffset + _
      omega

theorem Bounded.delete (hbounded : run.Bounded) {beforeOffset : Int}
    (hsafe : run.BoundsSafe (.delete beforeOffset)) :
    (run.step (.delete beforeOffset)).Bounded ∧
      run.BoundsLe (run.step (.delete beforeOffset)) := by
  by_cases hclosed : run.log.closed = true
  · rw [step_closed hclosed (by simp)]
    exact ⟨hbounded, BoundsLe.refl run⟩
  have hopened : run.log.closed = false := by simpa using hclosed
  obtain ⟨hlower, hupper⟩ := hsafe hopened
  have hnonneg := hbounded.start_nonneg
  have hdurable : beforeOffset = 0 → (run.step (.delete beforeOffset)).Durable 0 := by
    rintro rfl
    rcases hbounded.durable (by omega) with hsound | hstored
    · obtain ⟨start, hnext, -, -, -, -, -, hsame⟩ :=
        hsound.delete hsound.log.healthy.current_bounds.1
      rw [hsame le_rfl] at hnext
      exact Or.inl hnext
    · exact absurd hstored.closed hclosed
  have hstep : ∃ wal after, run.step (.delete beforeOffset) =
      { run with
        log := { run.log with wal := wal, logStartOffset := beforeOffset }
        disk := after } := by
    simp only [step, Log.delete, hopened]
    exact ⟨_, _, rfl⟩
  obtain ⟨wal, after, hstep⟩ := hstep
  rw [hstep] at hdurable ⊢
  exact ⟨⟨⟨hbounded.hwm_eq, hupper, hbounded.nodup⟩, hnonneg.trans hlower,
    hbounded.below, hdurable⟩, hlower, le_rfl⟩

theorem Bounded.reopen (hbounded : run.Bounded) (hsafe : run.BoundsSafe .reopen) :
    (run.step .reopen).Bounded ∧ run.BoundsLe (run.step .reopen) := by
  obtain ⟨hstart, horderly⟩ := hsafe
  have hdurable := hbounded.durable hstart
  have hnext : (run.step .reopen).Sound 0 ∧ (run.step .reopen).acked = run.acked ∧
      (run.step .reopen).log.logStartOffset = 0 := by
    rcases hdurable with hsound | hstored
    · obtain ⟨hnext, hacked, hzero, -⟩ :=
        hsound.reopen (horderly hsound.log.opened)
      exact ⟨hnext, hacked, hzero⟩
    · obtain ⟨hnext, hacked, hzero, -⟩ := hstored.reopen
      exact ⟨hnext, hacked, hzero⟩
  obtain ⟨hsound, hacked, hzero⟩ := hnext
  have hend : (run.step .reopen).log.nextOffset = run.log.nextOffset := by
    rw [hsound.log.next_eq, records_length, hacked, hdurable.next_eq]
  have hhwm : (run.step .reopen).log.highWaterMark =
      (run.step .reopen).log.nextOffset := by
    rw [hsound.log.hwm_eq, hsound.log.next_eq]
  refine ⟨⟨⟨hhwm, ?_, ?_⟩, hzero.ge, ?_, fun _ => Or.inl hsound⟩, ?_, hend.ge⟩
  · rw [hhwm, hend, hdurable.next_eq]
    omega
  · rw [hacked]
    exact hbounded.nodup
  · rw [hacked, hend]
    exact hbounded.below
  · rw [hzero, hstart]

/-- One step under the condition keeps the bounds right and moves neither
back. -/
theorem Bounded.step (hbounded : run.Bounded) {op : LogOp}
    (hsafe : run.BoundsSafe op) :
    (run.step op).Bounded ∧ run.BoundsLe (run.step op) := by
  by_cases hkeeps : op.KeepsBounds
  · obtain ⟨-, hend, hhwm, hstart, hacked⟩ := run.step_keepsBounds hkeeps
    refine ⟨⟨⟨?_, ?_, ?_⟩, ?_, ?_, ?_⟩, hstart.ge, hend.ge⟩
    · rw [hhwm, hend]
      exact hbounded.hwm_eq
    · rw [hstart, hhwm]
      exact hbounded.start_le
    · rw [hacked]
      exact hbounded.nodup
    · rw [hstart]
      exact hbounded.start_nonneg
    · rw [hacked, hend]
      exact hbounded.below
    · intro hzero
      rw [hstart] at hzero
      have horderly : run.log.closed = false → run.Orderly op := by
        cases op with
        | append batch faults | delete beforeOffset | reopen =>
          exact hkeeps.elim
        | _ => exact hsafe hzero
      obtain ⟨start, hnext, hsame⟩ := (hbounded.durable hzero).step horderly
      rwa [hsame (by rintro _ rfl; exact hkeeps)] at hnext
  · cases op with
    | append batch faults => exact hbounded.append hsafe
    | delete beforeOffset => exact hbounded.delete hsafe
    | reopen => exact hbounded.reopen hsafe
    | _ => exact absurd trivial hkeeps

theorem start_bounded (config : LogConfig) : (start config).Bounded :=
  ⟨⟨rfl, le_rfl, by simp [start]⟩, le_rfl, by simp [start],
    fun _ => Or.inl (start_sound config)⟩

/-- In every run under the condition the bounds are right in every state and
neither ever moves back, and no offset is given out twice. -/
theorem wellBounded_of_boundsSafe (config : LogConfig) (front back : List LogOp)
    (hallowed : AllAllowed step BoundsSafe (start config) (front ++ back)) :
    (runSteps step (start config) (front ++ back)).WellBounded ∧
      (runSteps step (start config) front).BoundsLe
        (runSteps step (start config) (front ++ back)) := by
  have hstep : ∀ run op, Bounded run → run.BoundsSafe op →
      (run.step op).Bounded := fun _ _ hbounded hsafe => (hbounded.step hsafe).1
  obtain ⟨hfront, hback⟩ := allAllowed_append.mp hallowed
  have hmiddle := hfront.invariant Bounded hstep (start_bounded config)
  refine ⟨(hallowed.invariant Bounded hstep (start_bounded config)).toWellBounded, ?_⟩
  rw [runSteps_append]
  exact hback.related Bounded BoundsLe BoundsLe.refl (fun _ _ _ => BoundsLe.trans)
    (fun _ _ hbounded hsafe => hbounded.step hsafe) hmiddle

/-- Appends around a reopen, and then a delete. -/
def boundedOps : List LogOp :=
  [.append smallBatch [], .flush Fault.none, .close, .reopen,
    .append smallBatch [], .delete 1, .append smallBatch []]

theorem bounded_wellBounded : (runSteps step (start (smallConfig .never 1))
      (boundedOps ++ [.compact ⟨[], []⟩])).WellBounded ∧
    (runSteps step (start (smallConfig .never 1)) boundedOps).BoundsLe
      (runSteps step (start (smallConfig .never 1))
        (boundedOps ++ [.compact ⟨[], []⟩])) :=
  wellBounded_of_boundsSafe _ _ _ (by decide +kernel)

/-- Deleting everything and opening the log again moves both bounds back, and
offset 0 is given out a second time. -/
theorem reopen_moves_back : (runSteps step (start (smallConfig .never 1))
      [.append smallBatch [], .delete 1]).log.logStartOffset = 1 ∧
    (runSteps step (start (smallConfig .never 1))
      [.append smallBatch [], .delete 1]).log.nextOffset = 1 ∧
    (runSteps step (start (smallConfig .never 1))
      [.append smallBatch [], .delete 1, .close, .reopen]).log.logStartOffset = 0 ∧
    (runSteps step (start (smallConfig .never 1))
      [.append smallBatch [], .delete 1, .close, .reopen]).log.nextOffset = 0 ∧
    (runSteps step (start (smallConfig .never 1))
      [.append smallBatch [], .delete 1, .close, .reopen,
        .append smallBatch []]).acked.map Message.offset = [0, 0] := by
  decide +kernel

end LogRun

end Streambus
