/-
A partition log in use.  Runs start on an empty directory and take the log's
operations one by one, each under its lock; the messages that were
acknowledged are kept on record with the offsets they were given.  Recovery
takes the counters from the write-ahead log, and deleting drops whole segments.
-/
import Streambus.GuardedRun
import Streambus.LogWrites

namespace Streambus

namespace Log

variable {log : Log} {disk : Disk} {first : Int} {data : List Bytes}

/-- The logs differ at most in their tables and the cursors of their file
handles. -/
def Loaded (log next : Log) : Prop :=
  ∃ wal active immutables,
    next = { log with wal := wal, active := active, immutables := immutables } ∧
      wal.rewound = log.wal.rewound

theorem Loaded.trans {middle next : Log} (hleft : log.Loaded middle)
    (hright : middle.Loaded next) : log.Loaded next := by
  obtain ⟨wal, active, immutables, rfl, hwal⟩ := hleft
  obtain ⟨other, table, tables, rfl, hother⟩ := hright
  exact ⟨other, table, tables, rfl, hother.trans hwal⟩

theorem Backed.insert {offset : Int} {entry : Bytes}
    (hbacked : log.Backed disk first data) (hlower : 0 ≤ offset)
    (hentry : data[offset.toNat]? = some entry) :
    Backed { log with active := log.active.insert offset entry } disk first
      data := by
  refine ⟨hbacked.healthy, ?_⟩
  intro table hmem probe value hfind
  rcases List.mem_cons.mp hmem with rfl | hold
  · rw [OrderedMap.find?_insert] at hfind
    split at hfind
    · rename_i hprobe
      rw [← hprobe, ← hfind]
      exact ⟨hlower, hentry⟩
    · exact hbacked.tables log.active List.mem_cons_self probe value hfind
  · exact hbacked.tables table (List.mem_cons_of_mem _ hold) probe value hfind

theorem Backed.rotateMemTable (hbacked : log.Backed disk first data) :
    log.rotateMemTable.Backed disk first data :=
  ⟨hbacked.healthy, hbacked.tables.rotateMemTable⟩

theorem recoverLoop_loaded (disk : Disk) (maxMemTableSize : Int) (count : Nat)
    (offset : Int) (state : Recovery) :
    state.log.Loaded (recoverLoop disk maxMemTableSize count offset state) := by
  induction count generalizing offset state with
  | zero => exact ⟨_, _, _, rfl, rfl⟩
  | succ count ih =>
    have hrewound := state.log.wal.read_rewound disk offset
    unfold recoverLoop
    split
    · rename_i wal error heq
      rw [heq] at hrewound
      exact Loaded.trans ⟨_, _, _, rfl, hrewound⟩ (ih _ _)
    · rename_i wal entry heq
      rw [heq] at hrewound
      dsimp only
      split
      · split
        · exact ⟨_, _, _, rfl, hrewound⟩
        · exact Loaded.trans ⟨_, _, _, rfl, hrewound⟩ (ih _ _)
      · exact Loaded.trans ⟨_, _, _, rfl, hrewound⟩ (ih _ _)

/-- Recovering takes the counters from the write-ahead log and fills the
tables. -/
theorem recover_loaded (log : Log) (disk : Disk) :
    Loaded { log with
      nextOffset := log.wal.nextOffset
      highWaterMark := log.wal.nextOffset
      logStartOffset := 0 } (log.recover disk) := by
  unfold Log.recover
  dsimp only
  split
  · exact ⟨_, _, _, rfl, rfl⟩
  · exact recoverLoop_loaded _ _ _ _ _

/-- Loading messages fills the tables with records. -/
theorem recoverLoop_backed (maxMemTableSize : Int) (count : Nat) (offset : Int)
    (state : Recovery) (hbacked : state.log.Backed disk first data) :
    (recoverLoop disk maxMemTableSize count offset state).Backed disk first
      data := by
  induction count generalizing offset state with
  | zero => exact hbacked
  | succ count ih =>
    have hread : Backed
        { state.log with wal := (state.log.wal.read disk offset).1 } disk first
        data :=
      ⟨hbacked.healthy.of_rewound (state.log.wal.read_rewound disk offset),
        hbacked.tables⟩
    unfold recoverLoop
    split
    · rename_i wal error heq
      rw [heq] at hread
      exact ih _ _ hread
    · rename_i wal entry heq
      obtain ⟨hlower, hentry⟩ := hbacked.healthy.read_sound
        (by rw [heq] : (state.log.wal.read disk offset).2 = .ok entry)
      rw [heq] at hread
      dsimp only
      split
      · split
        · exact hread.rotateMemTable
        · exact ih _ _ (hread.rotateMemTable.insert hlower hentry)
      · exact ih _ _ (hread.insert hlower hentry)

/-- Recovering a backed log makes it sound. -/
theorem Backed.recover (hbacked : log.Backed disk first data)
    (hopened : log.closed = false) :
    (log.recover disk).Sound disk first data := by
  have hnext := hbacked.healthy.next_eq
  have hcounted : Backed { log with
      nextOffset := log.wal.nextOffset
      highWaterMark := log.wal.nextOffset
      logStartOffset := 0 } disk first data :=
    ⟨hbacked.healthy, hbacked.tables⟩
  have hrecovered : (log.recover disk).Backed disk first data := by
    unfold Log.recover
    dsimp only
    split
    · exact hcounted
    · exact recoverLoop_backed _ _ _ ⟨_, 0, 0⟩ hcounted
  obtain ⟨wal, active, immutables, heq, -⟩ := log.recover_loaded disk
  rw [heq] at hrecovered ⊢
  exact ⟨hrecovered, hopened, hnext, hnext⟩

/-- Deleting at or below the current segment drops the segments that start
before the offset and leaves the tables alone. -/
theorem Sound.delete (hsound : log.Sound disk first data) {beforeOffset : Int}
    (hbefore : beforeOffset ≤ log.wal.current.baseOffset) :
    ∃ wal after start, log.delete disk beforeOffset =
        ({ log with wal := wal, logStartOffset := beforeOffset }, after, .ok ()) ∧
      Sound { log with wal := wal, logStartOffset := beforeOffset } after start data ∧
      log.wal.storedOffset disk ≤ wal.storedOffset after ∧
      (∀ segment ∈ log.wal.segments, beforeOffset ≤ segment.baseOffset →
        start ≤ segment.baseOffset) ∧
      (beforeOffset ≤ first → start = first) := by
  obtain ⟨wal, after, start, htruncate, hadvances, hstart, hsame⟩ :=
    hsound.healthy.truncate hbefore
  refine ⟨wal, after, start, ?_, ?_, hadvances.stored_le, hstart, hsame⟩
  · simp [Log.delete, hsound.opened, htruncate]
  · exact ⟨⟨hadvances.healthy, hsound.tables⟩, hsound.opened, hsound.next_eq,
      hsound.hwm_eq⟩

theorem Sound.close (hsound : log.Sound disk first data)
    (hend : log.wal.FlushesAtEnd disk) :
    ∃ extents after, log.close disk =
        ({ log with
            wal := { log.wal with closed := true }
            closed := true }, after) ∧
      after.Archive extents first data := by
  refine ⟨_, _, ?_, hsound.healthy.close hend⟩
  simp [Log.close, hsound.opened, Wal.close, hsound.healthy.opened]

/-- Close the log and open its directory again. -/
def reopen (log : Log) (disk : Disk) : Disk × Except StorageError Log :=
  newLog (log.close disk).2 log.config

end Log

variable {disk : Disk} {data : List Bytes} {after : Disk}

/-- Opening a log whose write-ahead log opens healthy gives a sound log. -/
theorem newLog_sound {config : LogConfig} {wal : Wal} {first : Int}
    (hnew : newWAL disk config.wal = (after, .ok wal))
    (hhealthy : wal.Healthy after first data) :
    ∃ log, newLog disk config = (after, .ok log) ∧
      log.Sound after first data ∧ log.config = config ∧
      log.logStartOffset = 0 ∧ log.wal.rewound = wal.rewound := by
  let fresh : Log := ⟨config, wal, ∅, [], 0, 0, 0, false⟩
  have hbacked : fresh.Backed after first data := by
    refine ⟨hhealthy, ?_⟩
    intro table hmem offset value hfind
    obtain rfl : table = ∅ := List.mem_singleton.mp hmem
    simp at hfind
  have hsound := hbacked.recover rfl
  obtain ⟨wal, active, immutables, heq, hwal⟩ := fresh.recover_loaded after
  refine ⟨fresh.recover after, by simp only [newLog, hnew, fresh], hsound, ?_⟩
  rw [heq]
  exact ⟨rfl, rfl, hwal⟩

theorem newLog_config {config : LogConfig} {log : Log}
    (hnew : newLog disk config = (after, .ok log)) : log.config = config := by
  unfold newLog at hnew
  split at hnew
  · cases hnew
  · rename_i wal _
    obtain ⟨wal, active, immutables, heq, -⟩ := Log.recover_loaded
      ⟨config, wal, ∅, [], 0, 0, 0, false⟩ after
    obtain ⟨rfl, hlog⟩ := Prod.mk.inj hnew
    rw [← Except.ok.inj hlog, heq]

theorem newLog_empty (config : LogConfig) :
    ∃ log after, newLog Disk.empty config = (after, .ok log) ∧
      log.Sound after 0 [] := by
  obtain ⟨wal, after, hnew, hhealthy, -⟩ := newWAL_empty config.wal
  obtain ⟨log, hlog, hsound, -⟩ := newLog_sound hnew hhealthy
  exact ⟨log, after, hlog, hsound⟩

/-- Opening an archive gives a sound log of its records, all of them
covered. -/
theorem Disk.Archive.newLog {extents : List (Int × Int)} {first : Int}
    (harchive : disk.Archive extents first data) (config : LogConfig) :
    ∃ log after, newLog disk config = (after, .ok log) ∧
      log.Sound after first data ∧ log.config = config ∧
      log.logStartOffset = 0 ∧
      ∀ offset, first ≤ offset → offset < data.length →
        log.Covered after first offset := by
  obtain ⟨wal, after, hnew, hhealthy, -, hempty, -⟩ :=
    harchive.newWAL config.wal
  obtain ⟨log, hlog, hsound, hconfig, hstart, hwal⟩ := newLog_sound hnew hhealthy
  refine ⟨log, after, hlog, hsound, hconfig, hstart,
    fun offset hfirst hlast => Or.inr ⟨hfirst, ?_⟩⟩
  rwa [Wal.storedOffset_of_rewound hwal, hhealthy.storedOffset_eq hempty]

open List MessageBatch

/-- A log in use and the messages acknowledged so far, in order. -/
structure LogRun where
  log : Log
  disk : Disk
  acked : List Message

inductive LogOp where
  | append (batch : MessageBatch) (faults : List AppendFaults)
  | flush (fault : Fault)
  | read (offset maxBytes : Int)
  | readRange (startOffset endOffset : Int)
  | compact (choice : CompactionChoice)
  | delete (beforeOffset : Int)
  | close
  | reopen

namespace LogRun

variable (config : LogConfig)

/-- A new log on an empty directory. -/
def start : LogRun :=
  let (segment, disk) := createWALSegment Disk.empty 0
  ⟨⟨config, ⟨config.wal, [], segment, true, 0, false⟩, ∅, [], 0, 0, 0, false⟩,
    disk, []⟩

/-- One operation.  An acknowledged batch is recorded with the offsets it was
given; a directory that cannot be opened leaves the closed log. -/
def step (run : LogRun) : LogOp → LogRun
  | .append batch faults =>
    match run.log.append run.disk batch faults with
    | (log, disk, .ok offsets) =>
      ⟨log, disk, run.acked ++ List.zipWith batch.stamp offsets batch.messages⟩
    | (log, disk, .error _) => { run with log := log, disk := disk }
  | .flush fault =>
    let (log, disk, _) := run.log.flush run.disk fault
    { run with log := log, disk := disk }
  | .read offset maxBytes =>
    { run with log := (run.log.read run.disk offset maxBytes).1 }
  | .readRange startOffset endOffset =>
    { run with log := (run.log.readRange run.disk startOffset endOffset).1 }
  | .compact choice => { run with log := (run.log.compact choice).1 }
  | .delete beforeOffset =>
    let (log, disk, _) := run.log.delete run.disk beforeOffset
    { run with log := log, disk := disk }
  | .close =>
    let (log, disk) := run.log.close run.disk
    { run with log := log, disk := disk }
  | .reopen =>
    match run.log.reopen run.disk with
    | (disk, .ok log) => { run with log := log, disk := disk }
    | (disk, .error _) =>
      { run with log := (run.log.close run.disk).1, disk := disk }

end LogRun

theorem MessageBatch.zipWith_stamp (batch : MessageBatch) (offset : Int)
    (messages : List Message) :
    List.zipWith batch.stamp
        ((batch.stampFrom offset messages).map Message.offset) messages =
      batch.stampFrom offset messages := by
  induction messages generalizing offset with
  | nil => rfl
  | cons message rest ih =>
    simp only [stampFrom, map_cons, zipWith_cons_cons, ih]
    rfl

namespace LogRun

/-- The acknowledged messages as they are stored. -/
def records (run : LogRun) : List Bytes :=
  run.acked.map (serializeMessage run.log.config.messageFormatVersion)

theorem records_length (run : LogRun) : run.records.length = run.acked.length := by
  simp [records]

/-- The log is open and sound over the acknowledged messages. -/
structure Sound (run : LogRun) (first : Int) : Prop where
  log : run.log.Sound run.disk first run.records
  inOrder : InOrder run.acked

/-- The acknowledged messages come back from storage as they were written. -/
def Legible (run : LogRun) : Prop :=
  ∀ message ∈ run.acked, message.Kept run.log.config.messageFormatVersion

theorem Sound.numbered {run : LogRun} {first : Int} (hsound : run.Sound first)
    (hlegible : run.Legible) :
    Numbered run.log.config.messageFormatVersion run.acked :=
  ⟨hsound.inOrder, hlegible⟩

theorem start_sound (config : LogConfig) : (start config).Sound 0 := by
  obtain ⟨log, disk, hnew, hsound⟩ := newLog_empty config
  obtain ⟨rfl, rfl⟩ := hnew
  exact ⟨hsound, by simp [InOrder, start]⟩

variable {run : LogRun} {first : Int}

/-- The batch's messages come back from storage as they are stamped. -/
def KeepsBatch (run : LogRun) (batch : MessageBatch) : Prop :=
  ∀ message ∈ batch.stampFrom run.log.nextOffset batch.messages,
    message.Kept run.log.config.messageFormatVersion
deriving Decidable

variable {batch : MessageBatch}

theorem KeepsBatch.short (hkeeps : run.KeepsBatch batch) :
    ∀ entry ∈ run.log.entries batch run.log.nextOffset batch.messages,
      recordHeaderSize + entry.length < 2 ^ 32 := by
  intro entry hentry
  obtain ⟨message, hmessage, rfl⟩ := mem_map.mp hentry
  have hshort := (hkeeps message hmessage).storable.short
  have hlength := serializeMessage_length_le
    run.log.config.messageFormatVersion message
  simp only [recordHeaderSize]
  omega

theorem step_refused (hopened : run.log.closed = false)
    (hrefused : ¬ run.log.Accepts batch) (faults : List AppendFaults) :
    run.step (.append batch faults) = run := by
  obtain ⟨hversion, hproducer⟩ := Classical.not_imp.mp hrefused
  have happend : run.log.append run.disk batch faults =
      (run.log, run.disk, .error .transactionalRecordNeedsV3) := by
    simp [Log.append, hopened, hversion, hproducer]
  simp only [step, happend]

theorem step_failed (hopened : run.log.closed = false)
    (haccepts : run.log.Accepts batch) {faults : List AppendFaults} {log : Log}
    {disk : Disk} {error : StorageError}
    (hwrite : run.log.writeMessages batch run.disk run.log.nextOffset
      batch.messages faults = (log, disk, .error error)) :
    run.step (.append batch faults) = { run with log := log, disk := disk } := by
  have hversion : ¬ (run.log.config.messageFormatVersion = .v2 ∧
      batch.producerId ≠ 0) := fun h => h.2 (haccepts h.1)
  have happend : run.log.append run.disk batch faults =
      (log, disk, .error error) := by
    rw [Log.append, if_neg (by simp [hopened]), if_neg hversion, hwrite]
  simp only [step, happend]

/-- Every acknowledged message is in a table or in its file. -/
def Covers (run : LogRun) : Prop :=
  ∀ offset : Int, 0 ≤ offset → offset < run.acked.length →
    run.log.Covered run.disk 0 offset

/-- The rotation behind a written batch starts from a log in which the table
that it drops has no record left in the write buffer. -/
def SparesBuffered (run : LogRun) (batch : MessageBatch)
    (faults : List AppendFaults) : Prop :=
  let (written, disk, result) := run.log.writeMessages batch run.disk
    run.log.nextOffset batch.messages faults
  result.isOk → written.KeepsEvicted disk
deriving Decidable

/-- `next` continues an open log: sound, with the same start, and in append
mode if it was. -/
structure Continues (run next : LogRun) (first : Int) : Prop where
  sound : next.Sound first
  start_eq : next.log.logStartOffset = run.log.logStartOffset
  appendMode : run.log.wal.current.file.appendMode = true →
    next.log.wal.current.file.appendMode = true

variable (hsound : run.Sound first)

include hsound

theorem Sound.continues : run.Continues run first :=
  ⟨hsound, rfl, id⟩

/-- An accepted batch is acknowledged at the next offsets. -/
theorem Sound.append (haccepts : run.log.Accepts batch)
    (hfits : run.log.Fits run.disk batch) :
    (run.step (.append batch [])).acked = run.acked ++
        batch.stampFrom run.log.nextOffset batch.messages ∧
      run.Continues (run.step (.append batch [])) first ∧
      (first = 0 → run.SparesBuffered batch [] → run.Covers →
        (run.step (.append batch [])).Covers) := by
  obtain ⟨written, next, after, hwrite, happend, hgrows, hcovered⟩ :=
    hsound.log.append haccepts hfits
  have hstep : run.step (.append batch []) = ⟨next, after, run.acked ++
      batch.stampFrom run.log.nextOffset batch.messages⟩ := by
    simp only [step, happend, zipWith_stamp]
  have hnext : run.log.nextOffset = run.acked.length := by
    rw [hsound.log.next_eq, records_length]
  rw [hstep]
  refine ⟨rfl, ⟨⟨?_, ?_⟩, hgrows.start_eq, hgrows.wal.appendMode⟩, ?_⟩
  · simp only [records, map_append, hgrows.config_eq]
    exact hgrows.sound
  · rw [hnext]
    exact hsound.inOrder.stampFrom batch batch.messages
  · rintro rfl hspares hcovers offset hlower hupper
    rw [SparesBuffered, hwrite] at hspares
    refine hcovered rfl (hspares rfl) offset hlower ?_
    simp only [length_append, stampFrom_length] at hupper
    rw [records_length]
    by_cases hold : offset < run.acked.length
    · exact Or.inl (hcovers offset hlower hold)
    · exact Or.inr ⟨by omega, hupper⟩

/-- A step that changes no record and uncovers none continues the log. -/
theorem Sound.grows {next : Log} {after : Disk}
    (hgrows : run.log.Grows run.disk next after first run.records) :
    run.Continues { run with log := next, disk := after } first := by
  refine ⟨⟨?_, hsound.inOrder⟩, hgrows.start_eq, hgrows.wal.appendMode⟩
  simpa only [records, hgrows.config_eq] using hgrows.sound

theorem Sound.moved {next : Log} (hmoved : run.log.Moved next) :
    run.Continues { run with log := next } first ∧
      (run.Covers → Covers { run with log := next }) := by
  have hlog := hmoved.sound hsound.log
  have hcovered : ∀ offset, run.log.Covered run.disk 0 offset →
      next.Covered run.disk 0 offset := fun _ => hmoved.covered
  obtain ⟨wal, rfl, hwal⟩ := hmoved
  refine ⟨⟨⟨hlog, hsound.inOrder⟩, rfl, fun hmode => ?_⟩,
    fun hcovers offset hlower hupper =>
      hcovered offset (hcovers offset hlower hupper)⟩
  have hcurrent : wal.current.rewound = run.log.wal.current.rewound :=
    congrArg Wal.current hwal
  rw [WalSegment.eq_of_rewound_eq hcurrent]
  exact hmode

end LogRun

/-- Operations that leave an open log open and drop nothing from it. -/
def LogOp.StaysOpen : LogOp → Prop
  | .delete _ => False
  | .close => False
  | .reopen => False
  | _ => True

/-- Operations that move neither end of a log. -/
def LogOp.KeepsBounds : LogOp → Prop
  | .append .. => False
  | .delete _ => False
  | .reopen => False
  | _ => True

namespace LogRun

variable {run : LogRun} {first : Int}

/-- Every byte the operation writes goes where its file ends, every record fits
its header, the offsets do not run out, no write to a file fails, and nothing
fails after the first roll of a batch. -/
def Orderly (run : LogRun) : LogOp → Prop
  | .append batch faults => run.log.Accepts batch →
      run.log.Fits run.disk batch ∧ Log.RollFaults faults
  | .flush fault => fault.quota = none ∧ run.log.wal.FlushesAtEnd run.disk
  | .read .. => True
  | .readRange .. => True
  | .compact _ => True
  | .delete beforeOffset => beforeOffset ≤ run.log.wal.current.baseOffset
  | .close => run.log.wal.FlushesAtEnd run.disk
  | .reopen => run.log.wal.FlushesAtEnd run.disk

instance (run : LogRun) (op : LogOp) : Decidable (run.Orderly op) := by
  cases op <;> unfold Orderly <;> infer_instance

/-- No table is dropped whose records have not all reached their file. -/
def Spares (run : LogRun) : LogOp → Prop
  | .append batch faults => run.log.Accepts batch → run.SparesBuffered batch faults
  | _ => True

instance (run : LogRun) (op : LogOp) : Decidable (run.Spares op) := by
  cases op <;> unfold Spares <;> infer_instance

/-- The messages of an accepted batch come back from storage as stamped. -/
def Keeps (run : LogRun) : LogOp → Prop
  | .append batch _ => run.log.Accepts batch → run.KeepsBatch batch
  | _ => True

instance (run : LogRun) (op : LogOp) : Decidable (run.Keeps op) := by
  cases op <;> unfold Keeps <;> infer_instance

theorem step_keepsBounds (run : LogRun) {op : LogOp} (hop : op.KeepsBounds) :
    (run.step op).log.config = run.log.config ∧
      (run.step op).log.nextOffset = run.log.nextOffset ∧
      (run.step op).log.highWaterMark = run.log.highWaterMark ∧
      (run.step op).log.logStartOffset = run.log.logStartOffset ∧
      (run.step op).acked = run.acked := by
  cases op with
  | flush fault => simp only [step, Log.flush]; split <;> simp
  | read offset maxBytes =>
    obtain ⟨wal, hmoved, -⟩ := run.log.read_moved run.disk offset maxBytes
    simp [step, hmoved]
  | readRange startOffset endOffset =>
    obtain ⟨wal, hmoved, -⟩ :=
      run.log.readRange_moved run.disk startOffset endOffset
    simp [step, hmoved]
  | compact choice => simp only [step, Log.compact]; split <;> simp
  | close => simp only [step, Log.close]; split <;> simp
  | append batch faults | delete beforeOffset | reopen => exact hop.elim

/-- No operation changes the configuration, and only an accepted batch adds
messages. -/
theorem step_shape (run : LogRun) (op : LogOp) :
    (run.step op).log.config = run.log.config ∧ ((run.step op).acked = run.acked ∨
        ∃ batch faults, op = .append batch faults ∧
          run.log.closed = false ∧ run.log.Accepts batch ∧
          (run.step op).acked = run.acked ++
            batch.stampFrom run.log.nextOffset batch.messages) := by
  have hkeeps := @step_keepsBounds run op
  cases op with
  | append batch faults =>
    rcases run.log.append_shape run.disk batch faults with
      ⟨wal, active, after, error, happend⟩ |
        ⟨hopened, haccepts, wal, active, immutables, after, happend⟩
    · simp [step, happend]
    · simp only [step, happend, zipWith_stamp, true_and]
      exact Or.inr ⟨batch, faults, rfl, hopened, haccepts, rfl⟩
  | delete beforeOffset => simp only [step, Log.delete]; split <;> simp
  | reopen =>
    simp only [step]
    split
    next disk log hreopen => exact ⟨newLog_config hreopen, Or.inl rfl⟩
    · simp only [Log.close]; split <;> simp
  | _ =>
    obtain ⟨hconfig, -, -, -, hacked⟩ := hkeeps trivial
    exact ⟨hconfig, Or.inl hacked⟩

variable {op : LogOp}

theorem Legible.step_open (hlegible : run.Legible)
    (hkeeps : run.log.closed = false → run.Keeps op) :
    (run.step op).Legible := by
  obtain ⟨hconfig, hacked⟩ := run.step_shape op
  intro message hmem
  rw [hconfig]
  rcases hacked with hsame | ⟨batch, faults, rfl, hopened, haccepts, hmore⟩
  · exact hlegible message (hsame ▸ hmem)
  · rw [hmore] at hmem
    exact (mem_append.mp hmem).elim (hlegible message)
      (hkeeps hopened haccepts message)

theorem Legible.step (hlegible : run.Legible) (hkeeps : run.Keeps op) :
    (run.step op).Legible :=
  hlegible.step_open fun _ => hkeeps

/-- An orderly operation continues an open log, and one that spares what is
buffered keeps every message covered. -/
theorem Sound.step (hsound : run.Sound first) (hopen : op.StaysOpen)
    (horderly : run.Orderly op) :
    run.Continues (run.step op) first ∧
      (first = 0 → run.Spares op → run.Covers → (run.step op).Covers) := by
  cases op with
  | append batch faults =>
    by_cases haccepts : run.log.Accepts batch
    · obtain ⟨hfits, hfaults⟩ := horderly haccepts
      rcases Log.writeMessages_rollFaults hsound.log.healthy hfits.atEnd
        hfaults with hsame | ⟨wal, after, hwrite, hadvances, -⟩
      · obtain ⟨-, hcontinues, hcovers⟩ :=
          hsound.append haccepts hfits
        have hstep : run.step (.append batch faults) =
            run.step (.append batch []) := by
          simp only [LogRun.step, Log.append, hsame]
        rw [hstep]
        refine ⟨hcontinues, fun hfirst hspares => hcovers hfirst ?_⟩
        have := hspares haccepts
        rwa [SparesBuffered, hsame] at this
      · obtain ⟨hgrows, hcovered⟩ := Log.Grows.withWal hsound.log hadvances
        rw [step_failed hsound.log.opened haccepts hwrite]
        exact ⟨hsound.grows hgrows, fun h _ hcovers offset hlower hupper =>
          h ▸ hcovered offset (h ▸ hcovers offset hlower hupper)⟩
    · rw [step_refused hsound.log.opened haccepts]
      exact ⟨hsound.continues, fun _ _ => id⟩
  | flush fault =>
    obtain ⟨quota, fsyncFails⟩ := fault
    obtain ⟨rfl, hend⟩ := horderly
    obtain ⟨next, after, hflush, hgrows, -, hcovered⟩ :=
      hsound.log.flush hend fsyncFails
    simp only [LogRun.step, hflush]
    exact ⟨hsound.grows hgrows, fun h _ hcovers offset hlower hupper =>
      h ▸ hcovered offset (h ▸ hcovers offset hlower hupper)⟩
  | read offset maxBytes =>
    obtain ⟨hcontinues, hcovers⟩ := hsound.moved
      (run.log.read_moved run.disk offset maxBytes)
    exact ⟨hcontinues, fun _ _ => hcovers⟩
  | readRange startOffset endOffset =>
    obtain ⟨hcontinues, hcovers⟩ := hsound.moved
      (run.log.readRange_moved run.disk startOffset endOffset)
    exact ⟨hcontinues, fun _ _ => hcovers⟩
  | compact choice =>
    obtain ⟨next, hcompact, hgrows, hcovered⟩ := hsound.log.compact choice
    simp only [LogRun.step, hcompact]
    exact ⟨hsound.grows hgrows, fun h _ hcovers offset hlower hupper =>
      h ▸ hcovered offset (h ▸ hcovers offset hlower hupper)⟩
  | delete beforeOffset | close | reopen => exact hopen.elim

/-- A log with tables of one message that keeps `numImmutable` of them. -/
def smallConfig (policy : FsyncPolicy) (numImmutable : Nat) : LogConfig where
  wal := ⟨100, policy⟩
  memTableMaxSize := 1
  numImmutable := numImmutable
  messageFormatVersion := .v3
  compaction := ⟨.sizeTiered, 10⟩

/-- One message outside any transaction. -/
def smallBatch : MessageBatch := ⟨[⟨0, [107], [118], ∅, some 5, 0, 0⟩], 0, 0⟩

end LogRun

end Streambus
