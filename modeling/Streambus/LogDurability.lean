/-
What a partition log keeps.  A log in use is open and sound, or it was closed
and left an archive of its messages; orderly operations move between the two
and keep every acknowledged message, except that deleting drops every segment
that starts before the offset.  While the log stays open, reads are exact in
every run in which no rotation drops a table whose records are still in the
write buffer.
-/
import Streambus.LogRun

namespace Streambus

/-- Operations on a log that stays open and whose device does not fail. -/
def LogOp.Serves : LogOp → Prop
  | .append _ faults => faults = []
  | .flush fault => fault = Fault.none
  | .read .. => True
  | .readRange .. => True
  | .compact _ => True
  | .delete _ => False
  | .close => False
  | .reopen => False

instance (op : LogOp) : Decidable op.Serves := by
  induction op using LogOp.casesOn <;> unfold LogOp.Serves <;> infer_instance

namespace LogRun

/-- An accepted batch comes back from storage as it was written, its offsets
do not run out, and no table is dropped too early. -/
def ServesSafely (run : LogRun) : LogOp → Prop
  | .append batch _ => run.log.Accepts batch → run.KeepsBatch batch ∧
        run.log.nextOffset + batch.messages.length < 2 ^ 63 ∧
          run.SparesBuffered batch []
  | _ => True

instance (run : LogRun) (op : LogOp) : Decidable (run.ServesSafely op) := by
  induction op using LogOp.casesOn <;> unfold ServesSafely <;> infer_instance

/-- A read from any offset returns the consecutive messages there, up to the
first that brings the keys and values to the limit; reading a range returns
every message in it. -/
structure ReadsInPlace (run : LogRun) : Prop where
  hwm_eq : run.log.highWaterMark = run.acked.length
  inOrder : InOrder run.acked
  read_page : ∀ offset maxBytes, run.log.logStartOffset ≤ offset →
    offset ≤ run.log.highWaterMark → 1 ≤ maxBytes →
      ∃ page, (run.log.read run.disk offset maxBytes).2 = .ok page ∧
        IsPage (run.acked.drop offset.toNat) maxBytes page
  readRange_eq : ∀ startOffset endOffset,
    (run.log.readRange run.disk startOffset endOffset).2 =
      .ok (slice run.acked startOffset endOffset)

variable {run : LogRun}

/-- A log over legible messages, all of them covered. -/
structure Readable (run : LogRun) : Prop where
  sound : run.Sound 0
  legible : run.Legible
  covers : run.Covers

/-- What a read of such a log returns. -/
theorem Readable.read_eq (hreadable : run.Readable) (offset maxBytes : Int) :
    (run.log.read run.disk offset maxBytes).2 =
      if offset < run.log.logStartOffset then .error .offsetOutOfRange
      else .ok (takeBudget (some maxBytes) (run.acked.drop offset.toNat)) := by
  have hsound := hreadable.sound
  split
  next hbelow => simp [Log.read, hsound.log.opened, hbelow]
  next hwithin =>
    obtain ⟨next, hread⟩ := hsound.log.read
      (hsound.numbered hreadable.legible) maxBytes (not_lt.mp hwithin)
      fun probe _ hlower hupper => hreadable.covers probe hlower hupper
    rw [hread]

theorem Readable.readRange_eq (hreadable : run.Readable)
    (startOffset endOffset : Int) :
    (run.log.readRange run.disk startOffset endOffset).2 =
      .ok (slice run.acked startOffset endOffset) := by
  have hsound := hreadable.sound
  obtain ⟨next, hread⟩ := hsound.log.readRange
    (hsound.numbered hreadable.legible) endOffset
    fun probe _ hlower hupper => hreadable.covers probe hlower hupper
  rw [hread]

/-- A log that covers its messages reads them in place. -/
theorem Readable.readsInPlace (hreadable : run.Readable) : run.ReadsInPlace := by
  refine ⟨?_, hreadable.sound.inOrder, ?_, hreadable.readRange_eq⟩
  · rw [hreadable.sound.log.hwm_eq, records_length]
  · intro offset maxBytes hoffset _ _
    refine ⟨_, ?_, takeBudget_isPage _ _⟩
    rw [hreadable.read_eq, if_neg (by omega)]

/-- The log has been open since its directory was empty: it is sound, writes
in append mode, and covers every acknowledged message. -/
structure Serving (run : LogRun) : Prop extends run.Readable where
  appendMode : run.log.wal.current.file.appendMode = true

theorem start_serving (config : LogConfig) : (start config).Serving := by
  refine ⟨⟨start_sound config, by simp [Legible, start], ?_⟩, rfl⟩
  intro offset hlower hupper
  change offset < 0 at hupper
  omega

theorem Serving.step (hserving : run.Serving) {op : LogOp} (hserves : op.Serves)
    (hsafe : run.ServesSafely op) : (run.step op).Serving := by
  have hend : run.log.wal.AtEnd run.disk := Or.inl hserving.appendMode
  have hstep : op.StaysOpen ∧ run.Orderly op ∧ run.Keeps op ∧ run.Spares op := by
    cases op with
    | append batch faults =>
      obtain rfl : faults = [] := hserves
      refine ⟨trivial, fun haccepts => ?_, fun haccepts => (hsafe haccepts).1,
        fun haccepts => (hsafe haccepts).2.2⟩
      obtain ⟨hkeeps, hupper, -⟩ := hsafe haccepts
      exact ⟨⟨Or.inl hend, hkeeps.short, hupper⟩, by decide⟩
    | flush fault =>
      obtain rfl : fault = Fault.none := hserves
      exact ⟨trivial, ⟨rfl, Or.inl hend⟩, trivial, trivial⟩
    | read offset maxBytes | readRange startOffset endOffset =>
      exact ⟨trivial, trivial, trivial, trivial⟩
    | compact choice => exact ⟨trivial, trivial, trivial, trivial⟩
    | delete beforeOffset | close | reopen => exact hserves.elim
  obtain ⟨hopen, horderly, hkeeps, hspares⟩ := hstep
  obtain ⟨hcontinues, hcovers⟩ := hserving.sound.step hopen horderly
  exact ⟨⟨hcontinues.sound, hserving.legible.step hkeeps,
    hcovers rfl hspares hserving.covers⟩,
    hcontinues.appendMode hserving.appendMode⟩

/-- In every run on one open log in which no rotation drops a record that is
still in the write buffer, every acknowledged message stays readable in
place. -/
theorem readsInPlace_of_servesSafely (config : LogConfig) (ops : List LogOp)
    (hallowed : AllAllowed step
      (fun run op => op.Serves ∧ run.ServesSafely op) (start config) ops) :
    (runSteps step (start config) ops).ReadsInPlace :=
  have hserving := hallowed.invariant Serving
    (fun _ _ hserving hop => hserving.step hop.1 hop.2) (start_serving config)
  hserving.readsInPlace

/-- Appends that fill and drop tables, with reads between. -/
def servedOps : List LogOp :=
  [.append smallBatch [], .append smallBatch [], .read 0 1,
    .append smallBatch [], .flush Fault.none, .readRange 0 3]

theorem served_readsInPlace :
    AllAllowed step (fun run op => op.Serves ∧ run.ServesSafely op)
      (start (smallConfig .always 1)) servedOps ∧
    (runSteps step (start (smallConfig .always 1)) servedOps).ReadsInPlace :=
  ⟨by decide +kernel, readsInPlace_of_servesSafely _ _ (by decide +kernel)⟩

/-- Without a sync the dropped table takes the only readable copy with it: the
acknowledged message is skipped. -/
theorem dropped_not_read : (runSteps step (start (smallConfig .never 0))
      [.append smallBatch []]).log.highWaterMark = 1 ∧
    (runSteps step (start (smallConfig .never 0))
      [.append smallBatch []]).acked.length = 1 ∧
    ((runSteps step (start (smallConfig .never 0)) [.append smallBatch []]).log.read
        (runSteps step (start (smallConfig .never 0))
          [.append smallBatch []]).disk 0 100).2.toOption = some [] := by
  decide +kernel

end LogRun

namespace LogRun

/-- The log was closed and left an archive of the acknowledged messages. -/
structure Stored (run : LogRun) (first : Int) : Prop where
  closed : run.log.closed = true
  archive : ∃ extents, run.disk.Archive extents first run.records
  inOrder : InOrder run.acked
  next_eq : run.log.nextOffset = run.acked.length
  hwm_eq : run.log.highWaterMark = run.acked.length
  wal_next_eq : run.log.wal.nextOffset = run.acked.length

/-- The log is open and sound, or closed with its messages on disk. -/
def Durable (run : LogRun) (first : Int) : Prop :=
  run.Sound first ∨ run.Stored first

variable {run : LogRun} {first : Int}

/-- A closed log does nothing but open again. -/
theorem step_closed (hclosed : run.log.closed = true) {op : LogOp}
    (hop : op ≠ .reopen) : run.step op = run := by
  cases op with
  | reopen => exact absurd rfl hop
  | append batch faults => simp [step, Log.append, hclosed]
  | flush fault => simp [step, Log.flush, hclosed]
  | read offset maxBytes => simp [step, Log.read, hclosed]
  | readRange startOffset endOffset => simp [step, Log.readRange, hclosed]
  | compact choice => simp [step, Log.compact, hclosed]
  | delete beforeOffset => simp [step, Log.delete, hclosed]
  | close => simp [step, Log.close, hclosed]

theorem Sound.close (hsound : run.Sound first)
    (hend : run.log.wal.FlushesAtEnd run.disk) :
    (run.step .close).Stored first ∧ (run.step .close).acked = run.acked ∧
      (run.step .close).log.config = run.log.config ∧
      (run.step .close).log.logStartOffset = run.log.logStartOffset := by
  obtain ⟨extents, after, hclose, harchive⟩ := hsound.log.close hend
  have hlength := run.records_length
  simp only [LogRun.step, hclose]
  exact ⟨⟨rfl, ⟨extents, harchive⟩, hsound.inOrder,
    hsound.log.next_eq.trans (by rw [hlength]),
    hsound.log.hwm_eq.trans (by rw [hlength]),
    hsound.log.healthy.next_eq.trans (by rw [hlength])⟩, trivial, trivial, trivial⟩

/-- Opening an archive covers every message that is on disk. -/
theorem Stored.reopen (hstored : run.Stored first) : (run.step .reopen).Sound first ∧
      (run.step .reopen).acked = run.acked ∧
      (run.step .reopen).log.logStartOffset = 0 ∧
      ∀ offset, first ≤ offset → offset < run.acked.length →
        (run.step .reopen).log.Covered (run.step .reopen).disk first offset := by
  obtain ⟨extents, harchive⟩ := hstored.archive
  obtain ⟨log, after, hnew, hsound, hconfig, hstart, hcovered⟩ :=
    harchive.newLog run.log.config
  have hreopen : run.log.reopen run.disk = (after, .ok log) := by
    rw [Log.reopen, Log.close, if_pos hstored.closed, hnew]
  simp only [step, hreopen]
  refine ⟨⟨?_, hstored.inOrder⟩, trivial, hstart, ?_⟩
  · simpa only [records, hconfig] using hsound
  · rwa [records_length] at hcovered

theorem step_reopen (hopened : run.log.closed = false) :
    run.step .reopen = (run.step .close).step .reopen := by
  simp [step, Log.reopen, Log.close, hopened]

/-- Reopening an open log covers every message that is on disk. -/
theorem Sound.reopen (hsound : run.Sound first)
    (hend : run.log.wal.FlushesAtEnd run.disk) :
    (run.step .reopen).Sound first ∧ (run.step .reopen).acked = run.acked ∧
      (run.step .reopen).log.logStartOffset = 0 ∧
      ∀ offset, first ≤ offset → offset < run.acked.length →
        (run.step .reopen).log.Covered (run.step .reopen).disk first offset := by
  obtain ⟨hstored, hacked, -, -⟩ := hsound.close hend
  rw [step_reopen hsound.log.opened]
  simpa only [hacked] using hstored.reopen

theorem Sound.delete (hsound : run.Sound first) {beforeOffset : Int}
    (hbefore : beforeOffset ≤ run.log.wal.current.baseOffset) :
    ∃ start, (run.step (.delete beforeOffset)).Sound start ∧
      (run.step (.delete beforeOffset)).acked = run.acked ∧
      (run.step (.delete beforeOffset)).log.logStartOffset = beforeOffset ∧
      (run.step (.delete beforeOffset)).log.tables = run.log.tables ∧
      run.log.wal.storedOffset run.disk ≤
        (run.step (.delete beforeOffset)).log.wal.storedOffset
          (run.step (.delete beforeOffset)).disk ∧
      (∀ segment ∈ run.log.wal.segments, beforeOffset ≤ segment.baseOffset →
        start ≤ segment.baseOffset) ∧
      (beforeOffset ≤ first → start = first) := by
  obtain ⟨wal, after, start, hdelete, hlog, hstored, hstart, hsame⟩ :=
    hsound.log.delete hbefore
  have hstep : run.step (.delete beforeOffset) =
      ⟨{ run.log with wal := wal, logStartOffset := beforeOffset }, after,
        run.acked⟩ := by
    simp only [LogRun.step, hdelete]
  rw [hstep]
  exact ⟨start, ⟨hlog, hsound.inOrder⟩, rfl, rfl, rfl, hstored, hstart, hsame⟩

theorem Durable.step (hdurable : run.Durable first) {op : LogOp}
    (horderly : run.log.closed = false → run.Orderly op) :
    ∃ start, (run.step op).Durable start ∧
      ((∀ beforeOffset, op ≠ .delete beforeOffset) → start = first) := by
  rcases hdurable with hsound | hstored
  · have horderly := horderly hsound.log.opened
    by_cases hopen : op.StaysOpen
    · exact ⟨first, Or.inl (hsound.step hopen horderly).1.sound, fun _ => rfl⟩
    · cases op with
      | delete beforeOffset =>
        obtain ⟨start, hnext, -⟩ := hsound.delete horderly
        exact ⟨start, Or.inl hnext, fun h => absurd rfl (h beforeOffset)⟩
      | close => exact ⟨first, Or.inr (hsound.close horderly).1, fun _ => rfl⟩
      | reopen => exact ⟨first, Or.inl (hsound.reopen horderly).1, fun _ => rfl⟩
      | _ => exact absurd trivial hopen
  · by_cases hop : op = .reopen
    · subst hop
      exact ⟨first, Or.inl hstored.reopen.1, fun _ => rfl⟩
    · rw [step_closed hstored.closed hop]
      exact ⟨first, Or.inr hstored, fun _ => rfl⟩

end LogRun

namespace LogRun

/-- Deleting before the offset keeps the current segment, and every message
from the offset on is in a table or stored in a segment that is kept. -/
@[mk_iff] structure KeepsFrom (run : LogRun) (beforeOffset : Int) : Prop where
  current : beforeOffset ≤ run.log.wal.current.baseOffset
  later : ∀ index ∈ List.range run.log.highWaterMark.toNat,
    beforeOffset ≤ (index : Int) → (∃ table ∈ run.log.tables, table.Has index) ∨
        ((index : Int) < run.log.wal.storedOffset run.disk ∧
          ∃ segment ∈ run.log.wal.segments,
            beforeOffset ≤ segment.baseOffset ∧ segment.baseOffset ≤ index)

instance (run : LogRun) (beforeOffset : Int) :
    Decidable (run.KeepsFrom beforeOffset) :=
  decidable_of_iff' _ (run.keepsFrom_iff beforeOffset)

/-- After closing and opening again the messages are read from their offset. -/
def SurvivesReopen (run : LogRun) (offset : Int) (messages : List Message) :
    Prop :=
  (run.step .reopen).log.closed = false ∧
    ((run.step .reopen).log.readRange (run.step .reopen).disk offset
      (offset + messages.length)).2 = .ok messages

/-- The batch is acknowledged at the next offsets, a flush after it succeeds,
and its messages survive a reopen with or without that flush. -/
structure TakesBatch (run : LogRun) (batch : MessageBatch) : Prop where
  append_ok : (run.log.append run.disk batch []).2.2 =
    .ok ((batch.stampFrom run.log.highWaterMark batch.messages).map Message.offset)
  flush_ok : (run.step (.append batch [])).Orderly (.flush Fault.none) →
    ((run.step (.append batch [])).log.flush (run.step (.append batch [])).disk
      Fault.none).2.2 = .ok ()
  survives : (run.step (.append batch [])).Orderly .reopen →
    (run.step (.append batch [])).SurvivesReopen run.log.highWaterMark
      (batch.stampFrom run.log.highWaterMark batch.messages)
  survives_flushed : (run.step (.append batch [])).Orderly (.flush Fault.none) →
    ((run.step (.append batch [])).step (.flush Fault.none)).SurvivesReopen
      run.log.highWaterMark
      (batch.stampFrom run.log.highWaterMark batch.messages)

/-- Every message from the offset on is read as it was acknowledged, and the
log takes and keeps further batches. -/
structure RetainsFrom (run : LogRun) (offset : Int) : Prop where
  read_page : ∀ start maxBytes, offset ≤ start →
    start ≤ run.log.highWaterMark → 1 ≤ maxBytes →
      ∃ page, (run.log.read run.disk start maxBytes).2 = .ok page ∧
        IsPage (run.acked.drop start.toNat) maxBytes page
  readRange_eq : ∀ startOffset endOffset, offset ≤ startOffset →
    (run.log.readRange run.disk startOffset endOffset).2 =
      .ok (slice run.acked startOffset endOffset)
  takes : ∀ batch, run.log.Accepts batch → run.Orderly (.append batch []) →
    run.KeepsBatch batch → run.TakesBatch batch

variable {run : LogRun} {first : Int} {front back : List Message}

section

variable (hsound : run.Sound first) (hlegible : run.Legible)

include hsound hlegible

/-- Messages at the end of a sound log survive a reopen. -/
theorem Sound.survivesReopen (hend : run.Orderly .reopen)
    (hacked : run.acked = front ++ back) (hfirst : first ≤ front.length) :
    run.SurvivesReopen front.length back := by
  obtain ⟨hnext, hsame, -, hcovered⟩ := hsound.reopen hend
  refine ⟨hnext.log.opened, ?_⟩
  rw [← hsame] at hcovered
  obtain ⟨next, hread⟩ := hnext.log.readRange (hnext.numbered (hlegible.step trivial))
    ((front.length : Int) + back.length) fun probe hprobe _ hupper =>
      hcovered probe (hfirst.trans hprobe) hupper
  rw [hread, hsame, hacked, slice_append_right]

theorem Sound.survivesReopen_flush (hend : run.Orderly (.flush Fault.none))
    (hacked : run.acked = front ++ back) (hfirst : first ≤ front.length) :
    (run.step (.flush Fault.none)).SurvivesReopen front.length back := by
  obtain ⟨next, after, hok, hgrows, hempty, -⟩ :=
    hsound.log.flush hend.2 false
  have hstep : run.step (.flush Fault.none) =
      { run with log := next, disk := after } := by
    simp only [LogRun.step, Fault.none, hok]
  have hlegible := hlegible.step (show run.Keeps (.flush Fault.none) from trivial)
  rw [hstep] at hlegible ⊢
  exact (hsound.grows hgrows).sound.survivesReopen hlegible (Or.inr hempty)
    hacked hfirst

theorem Sound.takesBatch {batch : MessageBatch} (haccepts : run.log.Accepts batch)
    (horderly : run.Orderly (.append batch [])) (hkeeps : run.KeepsBatch batch)
    : run.TakesBatch batch := by
  have hfits := (horderly haccepts).1
  have hlength := run.records_length
  have hlegible : (run.step (.append batch [])).Legible :=
    hlegible.step fun _ => hkeeps
  have hhwm : run.log.highWaterMark = run.acked.length := by
    rw [hsound.log.hwm_eq, hlength]
  have hnext : run.log.nextOffset = run.log.highWaterMark := by
    rw [hsound.log.next_eq, hsound.log.hwm_eq]
  have hfirst : first ≤ run.acked.length := by
    have hbounds := hsound.log.healthy.current_bounds
    rw [hlength] at hbounds
    exact hbounds.1.trans hbounds.2
  obtain ⟨_, next, after, -, happend, -⟩ := hsound.log.append haccepts hfits
  obtain ⟨hacked, hcontinues, -⟩ := hsound.append haccepts hfits
  rw [hnext] at hacked happend
  refine ⟨by rw [happend], fun hflush => ?_, fun hreopen => ?_, fun hflush => ?_⟩
  · obtain ⟨_, _, hok, -⟩ := hcontinues.sound.log.flush hflush.2 false
    rw [Fault.none, hok]
    rfl
  · rw [hhwm] at hacked ⊢
    exact hcontinues.sound.survivesReopen hlegible hreopen hacked hfirst
  · rw [hhwm] at hacked ⊢
    exact hcontinues.sound.survivesReopen_flush hlegible hflush hacked hfirst

/-- Deleting what may be deleted retains the rest. -/
theorem Sound.retainsFrom {beforeOffset : Int} (hkeeps : run.KeepsFrom beforeOffset) :
    (run.step (.delete beforeOffset)).RetainsFrom beforeOffset := by
  obtain ⟨start, hnext, hacked, hstart, htables, hstored, hsegments, -⟩ :=
    hsound.delete hkeeps.current
  have hhwm : run.log.highWaterMark = run.acked.length := by
    rw [hsound.log.hwm_eq, records_length]
  have hcovered : ∀ probe, beforeOffset ≤ probe → 0 ≤ probe →
      probe < (run.step (.delete beforeOffset)).acked.length →
      (run.step (.delete beforeOffset)).log.Covered
        (run.step (.delete beforeOffset)).disk start probe := by
    intro probe hprobe hlower hupper
    rw [hacked] at hupper
    obtain ⟨index, rfl⟩ := Int.eq_ofNat_of_zero_le hlower
    rcases hkeeps.later index (List.mem_range.mpr (by omega)) hprobe with
      htable | ⟨hlt, segment, hmem, hkept, hbase⟩
    · exact Or.inl (htables ▸ htable)
    · exact Or.inr ⟨(hsegments segment hmem hkept).trans hbase, hlt.trans_le hstored⟩
  have hlegible : (run.step (.delete beforeOffset)).Legible :=
    hlegible.step trivial
  have hnumbered := hnext.numbered hlegible
  refine ⟨?_, ?_, fun batch => hnext.takesBatch hlegible⟩
  · intro offset maxBytes hoffset _ _
    obtain ⟨_, hread⟩ := hnext.log.read hnumbered maxBytes
      (hstart.le.trans hoffset) fun probe hprobe =>
        hcovered probe (hoffset.trans hprobe)
    exact ⟨_, by rw [hread], takeBudget_isPage _ _⟩
  · intro startOffset endOffset hoffset
    obtain ⟨_, hread⟩ := hnext.log.readRange hnumbered endOffset
      fun probe hprobe => hcovered probe (hoffset.trans hprobe)
    rw [hread]

end

/-- After every orderly run, deleting before an offset that keeps the current
segment and every later message loses nothing else. -/
theorem retainsFrom_of_keepsFrom (config : LogConfig) (ops : List LogOp)
    (hallowed : AllAllowed step (fun run op => run.log.closed = false →
      run.Orderly op ∧ run.Keeps op) (start config) ops)
    (hopened : (runSteps step (start config) ops).log.closed = false)
    (beforeOffset : Int)
    (hkeeps : (runSteps step (start config) ops).KeepsFrom beforeOffset) :
    ((runSteps step (start config) ops).step
      (.delete beforeOffset)).RetainsFrom beforeOffset := by
  obtain ⟨⟨first, hdurable⟩, hlegible⟩ := hallowed.invariant
    (fun run => (∃ first, run.Durable first) ∧ run.Legible)
    (fun run op ⟨⟨first, hdurable⟩, hlegible⟩ hop => by
      obtain ⟨start, hnext, -⟩ := hdurable.step fun h => (hop h).1
      exact ⟨⟨start, hnext⟩, hlegible.step_open fun h => (hop h).2⟩)
    ⟨⟨0, Or.inl (start_sound config)⟩, by simp [Legible, start]⟩
  rcases hdurable with hsound | hstored
  · exact hsound.retainsFrom hlegible hkeeps
  · rw [hstored.closed] at hopened
    cases hopened

/-- Three messages, the third in a segment of its own. -/
def rolledOps : List LogOp :=
  [.append smallBatch [], .append smallBatch [], .append smallBatch []]

theorem rolled_retainsFrom : AllAllowed step (fun run op => run.log.closed = false →
      run.Orderly op ∧ run.Keeps op) (start (smallConfig .always 0)) rolledOps ∧
    ((runSteps step (start (smallConfig .always 0)) rolledOps).step
      (.delete 2)).RetainsFrom 2 :=
  ⟨by decide +kernel, retainsFrom_of_keepsFrom _ _ (by decide +kernel)
    (by decide +kernel) 2 (by decide +kernel)⟩

/-- Two messages in one segment. -/
def sharedOps : List LogOp := [.append smallBatch [], .append smallBatch []]

/-- Deleting before the second message drops the segment it is in: it is no
longer read, and after the next batch the log cannot be flushed. -/
theorem delete_loses_later : (runSteps step (start (smallConfig .always 0))
      sharedOps).log.logStartOffset = 0 ∧
    (runSteps step (start (smallConfig .always 0)) sharedOps).log.highWaterMark = 2 ∧
    ((runSteps step (start (smallConfig .always 0))
      (sharedOps ++ [.delete 1])).log.readRange
        (runSteps step (start (smallConfig .always 0))
          (sharedOps ++ [.delete 1])).disk 1 2).2.toOption = some [] ∧
    ((runSteps step (start (smallConfig .always 0))
      (sharedOps ++ [.delete 1, .append smallBatch []])).log.flush
        (runSteps step (start (smallConfig .always 0))
          (sharedOps ++ [.delete 1, .append smallBatch []])).disk
        Fault.none).2.2.toOption = none := by
  decide +kernel

end LogRun

end Streambus
