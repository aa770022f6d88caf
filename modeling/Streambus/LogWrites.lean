/-
Writing a partition log.  Appending a batch, flushing and compacting keep the
log sound over its records; what they keep readable is said by which offsets
stay covered.  Rotating the memtables may drop one of them, and with it the
only readable copy of what is still in the write buffer.
-/
import Streambus.LogReads
import Streambus.WalRestart

namespace Streambus

open List MemTable MessageBatch

/-- The messages of a batch as they are stored from an offset on. -/
def MessageBatch.stampFrom (batch : MessageBatch) : Int → List Message → List Message
  | _, [] => []
  | offset, message :: rest =>
    batch.stamp offset message :: batch.stampFrom (offset + 1) rest

theorem MessageBatch.stampFrom_length (batch : MessageBatch) (offset : Int)
    (messages : List Message) :
    (batch.stampFrom offset messages).length = messages.length := by
  induction messages generalizing offset with
  | nil => rfl
  | cons message rest ih => simp [stampFrom, ih]

variable {offset : Int} {messages : List Message}

theorem MessageBatch.exists_of_mem_stampFrom {batch : MessageBatch}
    {message : Message} (hmem : message ∈ batch.stampFrom offset messages) :
    ∃ position, ∃ original ∈ messages, message = batch.stamp position original := by
  induction messages generalizing offset with
  | nil => cases hmem
  | cons head rest ih =>
    rcases mem_cons.mp hmem with rfl | hrest
    · exact ⟨offset, head, mem_cons_self, rfl⟩
    · obtain ⟨position, original, horiginal, heq⟩ := ih hrest
      exact ⟨position, original, mem_cons_of_mem head horiginal, heq⟩

theorem MessageBatch.offset_of_stampFrom {batch : MessageBatch} {index : Nat}
    {message : Message}
    (hmessage : (batch.stampFrom offset messages)[index]? = some message) :
    message.offset = offset + index := by
  induction messages generalizing offset index with
  | nil => simp [stampFrom] at hmessage
  | cons head rest ih =>
    cases index with
    | zero =>
      simp only [stampFrom, getElem?_cons_zero, Option.some.injEq] at hmessage
      simp [← hmessage, stamp]
    | succ index =>
      rw [ih hmessage]
      push_cast
      ring

theorem InOrder.stampFrom (hinOrder : InOrder messages) (batch : MessageBatch)
    (more : List Message) :
    InOrder (messages ++ batch.stampFrom messages.length more) := by
  intro index message hmessage
  by_cases hold : index < messages.length
  · rw [getElem?_append_left hold] at hmessage
    exact hinOrder index message hmessage
  · rw [getElem?_append_right (by omega)] at hmessage
    rw [offset_of_stampFrom hmessage]
    omega

/-- Put entries into a table at consecutive offsets. -/
def MemTable.putAll (offset : Int) : List Bytes → MemTable → MemTable
  | [], table => table
  | entry :: rest, table => putAll (offset + 1) rest (table.insert offset entry)

theorem MemTable.find?_putAll (offset : Int) (entries : List Bytes)
    (table : MemTable) (probe : Int) :
    (MemTable.putAll offset entries table).find? probe =
      if offset ≤ probe ∧ probe < offset + entries.length then
        entries[(probe - offset).toNat]?
      else table.find? probe := by
  induction entries generalizing offset table with
  | nil => simp [putAll]
  | cons entry rest ih =>
    rw [putAll, ih, OrderedMap.find?_insert]
    simp only [length_cons]
    by_cases hlater : offset + 1 ≤ probe ∧ probe < offset + 1 + rest.length
    · rw [if_pos hlater, if_pos (by omega),
        show (probe - offset).toNat = (probe - (offset + 1)).toNat + 1 by omega,
        getElem?_cons_succ]
    · rw [if_neg hlater]
      by_cases hhere : offset = probe
      · simp [hhere]
      · rw [if_neg hhere, if_neg (by omega)]

theorem MemTable.has_putAll {probe : Int} {entries : List Bytes} {table : MemTable}
    (hhas : table.Has probe ∨ offset ≤ probe ∧ probe < offset + entries.length) :
    (MemTable.putAll offset entries table).Has probe := by
  rw [MemTable.Has, find?_putAll]
  split
  · exact Option.isSome_iff_exists.mpr ⟨_, getElem?_eq_getElem (by omega)⟩
  next houtside => exact hhas.resolve_right houtside

namespace Log

variable {log : Log} {disk : Disk} {first : Int} {data : List Bytes}

/-- The stored form of a batch's messages from an offset on. -/
def entries (log : Log) (batch : MessageBatch) (offset : Int)
    (messages : List Message) : List Bytes :=
  (batch.stampFrom offset messages).map
    (serializeMessage log.config.messageFormatVersion)

theorem entries_cons (log : Log) (batch : MessageBatch) (offset : Int)
    (message : Message) (rest : List Message) :
    log.entries batch offset (message :: rest) =
      serializeMessage log.config.messageFormatVersion
        (batch.stamp offset message) :: log.entries batch (offset + 1) rest :=
  rfl

theorem entries_length (log : Log) (batch : MessageBatch) (offset : Int)
    (messages : List Message) :
    (log.entries batch offset messages).length = messages.length := by
  simp [entries, stampFrom_length]

variable {batch : MessageBatch} {offset : Int} {table : MemTable}

/-- Writing messages puts their stored form at the end of the write-ahead log
and into the active table. -/
theorem writeMessages_healthy {messages : List Message}
    (hhealthy : log.wal.Healthy disk first data)
    (hoffset : offset = data.length)
    (hend : log.wal.AppendsAllAtEnd disk (log.entries batch offset messages))
    (hshort : ∀ entry ∈ log.entries batch offset messages,
      recordHeaderSize + entry.length < 2 ^ 32)
    (hupper : offset + messages.length < 2 ^ 63) :
    ∃ wal after, log.writeMessages batch disk offset messages [] =
        ({ log with
            wal := wal
            active := MemTable.putAll offset
              (log.entries batch offset messages) log.active }, after,
          .ok ((batch.stampFrom offset messages).map Message.offset)) ∧
      log.wal.Advances disk wal after first
        (data ++ log.entries batch offset messages) := by
  induction messages generalizing log disk data offset with
  | nil =>
    exact ⟨log.wal, disk, rfl, by simpa [entries, MessageBatch.stampFrom] using
      hhealthy.advances⟩
  | cons message rest ih =>
    rw [entries_cons] at hend hshort
    simp only [length_cons] at hupper
    obtain ⟨middle, between, happend, hleft, hendRest⟩ :=
      hhealthy.append_cons hend (hshort _ (by simp)) (by omega)
    let next : Log :=
      { log with
        wal := middle
        active := log.active.insert offset (serializeMessage
          log.config.messageFormatVersion (batch.stamp offset message)) }
    have hnext : next.wal.Healthy between first _ := hleft.healthy
    obtain ⟨wal, after, hwrite, hright⟩ := ih hnext (by simp [hoffset])
      hendRest (fun entry hentry => hshort entry (mem_cons_of_mem _ hentry))
      (by omega)
    refine ⟨wal, after, ?_, ?_⟩
    · simp only [Log.writeMessages, headD_nil, tail_nil, happend]
      rw [hwrite]
      rfl
    · have hboth := hleft.trans hright
      rw [append_assoc] at hboth
      exact hboth

/-- The table that rotating a full active table drops. -/
def evicted (log : Log) : List MemTable :=
  if log.config.memTableMaxSize ≤ log.active.size ∧
      log.config.numImmutable < log.immutables.length + 1 then
    (log.immutables ++ [log.active]).take 1
  else []

/-- Every record of the table that a rotation drops has reached its file. -/
def KeepsEvicted (log : Log) (disk : Disk) : Prop :=
  ∀ table ∈ log.evicted, ∀ offset ∈ table.keys, offset < log.wal.storedOffset disk
deriving Decidable

theorem mem_tables_of_rotateMemTable (hmem : table ∈ log.rotateMemTable.tables) :
    table = ∅ ∨ table ∈ log.tables := by
  simp only [rotateMemTable, tables, mem_cons] at hmem
  rcases hmem with rfl | hold
  · exact Or.inl rfl
  · refine Or.inr ?_
    have hwas : table ∈ log.immutables ++ [log.active] := by
      split at hold
      · exact mem_of_mem_drop hold
      · exact hold
    simpa [tables, or_comm] using hwas

theorem TablesHold.rotateMemTable (htables : TablesHold log.tables data) :
    TablesHold log.rotateMemTable.tables data := by
  intro table hmem offset value hfind
  rcases mem_tables_of_rotateMemTable hmem with rfl | hold
  · simp at hfind
  · exact htables table hold offset value hfind

theorem mem_rotateIfFull_tables (hmem : table ∈ log.tables) :
    table ∈ log.rotateIfFull.tables ∨ table ∈ log.evicted := by
  unfold rotateIfFull evicted
  by_cases hfull : log.config.memTableMaxSize ≤ log.active.size
  · have hall : table ∈ log.immutables ++ [log.active] := by
      simpa [tables, or_comm] using hmem
    rw [if_pos hfull]
    by_cases hmany : log.config.numImmutable < log.immutables.length + 1
    · rw [if_pos ⟨hfull, hmany⟩]
      rw [← take_append_drop 1 (log.immutables ++ [log.active])] at hall
      rcases mem_append.mp hall with hfirst | hrest
      · exact Or.inr hfirst
      · refine Or.inl (mem_cons_of_mem _ ?_)
        simpa [rotateMemTable, hmany] using hrest
    · refine Or.inl (mem_cons_of_mem _ ?_)
      simpa [rotateMemTable, hmany] using hall
  · rw [if_neg hfull]
    exact Or.inl hmem

theorem rotateIfFull_eq (log : Log) : ∃ active immutables, log.rotateIfFull =
      { log with active := active, immutables := immutables } := by
  unfold rotateIfFull
  split
  · exact ⟨_, _, rfl⟩
  · exact ⟨log.active, log.immutables, rfl⟩

theorem TablesHold.rotateIfFull (htables : TablesHold log.tables data) :
    TablesHold log.rotateIfFull.tables data := by
  unfold Log.rotateIfFull
  split
  · exact htables.rotateMemTable
  · exact htables

theorem Covered.rotateIfFull (hlower : 0 ≤ offset)
    (hcovered : log.Covered disk 0 offset) (hkeeps : log.KeepsEvicted disk) :
    log.rotateIfFull.Covered disk 0 offset := by
  have hwal : log.rotateIfFull.wal = log.wal := by
    obtain ⟨_, _, heq⟩ := log.rotateIfFull_eq
    rw [heq]
  rcases hcovered with ⟨table, hmem, hhas⟩ | hstored
  · rcases mem_rotateIfFull_tables hmem with hstays | hdropped
    · exact Or.inl ⟨table, hstays, hhas⟩
    · refine Or.inr ⟨hlower, ?_⟩
      rw [hwal]
      exact hkeeps table hdropped offset (table.mem_keys_iff offset |>.mpr hhas)
  · exact Or.inr (by rwa [hwal])

theorem TablesHold.append {tables : List MemTable}
    (htables : TablesHold tables data) (more : List Bytes) :
    TablesHold tables (data ++ more) := by
  intro table hmem offset value hfind
  obtain ⟨hlower, hvalue⟩ := htables table hmem offset value hfind
  refine ⟨hlower, ?_⟩
  rw [List.getElem?_append_left (List.getElem?_eq_some_iff.mp hvalue).1, hvalue]

theorem TablesHold.putAll {rest : List MemTable}
    (htables : TablesHold (table :: rest) data) (more : List Bytes) :
    TablesHold (MemTable.putAll data.length more table :: rest) (data ++ more) := by
  intro other hmem offset value hfind
  rcases mem_cons.mp hmem with rfl | hrest
  · rw [find?_putAll] at hfind
    split at hfind
    · refine ⟨by omega, ?_⟩
      rw [getElem?_append_right (by omega), ← hfind]
      congr 1
      omega
    · exact htables.append more table mem_cons_self offset value hfind
  · exact htables.append more other (mem_cons_of_mem table hrest) offset value hfind

/-- Writing a batch covers its messages and uncovers none. -/
theorem Covered.write {wal : Wal} {after : Disk} {start : Int} {entries : List Bytes}
    (hstored : log.wal.storedOffset disk ≤ wal.storedOffset after)
    (hcovered : log.Covered disk first offset ∨
      start ≤ offset ∧ offset < start + entries.length) :
    Covered { log with
      wal := wal
      active := MemTable.putAll start entries log.active } after first
        offset := by
  rcases hcovered with (⟨table, hmem, hhas⟩ | ⟨hfirst, hlt⟩) | hnew
  · refine Or.inl ?_
    rcases mem_cons.mp hmem with rfl | hold
    · exact ⟨_, mem_cons_self, has_putAll (Or.inl hhas)⟩
    · exact ⟨table, mem_cons_of_mem _ hold, hhas⟩
  · exact Or.inr ⟨hfirst, hlt.trans_le hstored⟩
  · exact Or.inl ⟨_, mem_cons_self, has_putAll (Or.inr hnew)⟩

/-- One step on a sound log that adds records at its end: it ends sound over
them, and neither its configuration nor its start moves. -/
structure Grows (log : Log) (disk : Disk) (next : Log) (after : Disk)
    (first : Int) (data : List Bytes) : Prop where
  sound : next.Sound after first data
  wal : log.wal.Advances disk next.wal after first data
  config_eq : next.config = log.config
  start_eq : next.logStartOffset = log.logStartOffset

/-- Writing messages changes the write-ahead log and the active table, and
hands out consecutive offsets. -/
theorem writeMessages_shape (batch : MessageBatch) (log : Log) (disk : Disk)
    (offset : Int) (messages : List Message) (faults : List AppendFaults) :
    ∃ wal active after result, log.writeMessages batch disk offset messages faults =
        ({ log with wal := wal, active := active }, after, result) ∧
      ∀ offsets, result = .ok offsets →
        offsets = (batch.stampFrom offset messages).map Message.offset := by
  induction messages generalizing log disk offset faults with
  | nil =>
    exact ⟨log.wal, log.active, disk, .ok [], rfl, fun _ h =>
      (Except.ok.inj h).symm⟩
  | cons message rest ih =>
    unfold writeMessages
    dsimp only
    split
    next wal between error _ =>
      exact ⟨wal, log.active, between, .error error, rfl, fun _ h => by cases h⟩
    next wal between _ _ =>
      obtain ⟨other, active, after, result, hrest, hoffsets⟩ :=
        ih { log with
          wal := wal
          active := log.active.insert offset (serializeMessage
            log.config.messageFormatVersion (batch.stamp offset message)) }
          between (offset + 1) faults.tail
      rw [hrest]
      cases result with
      | error error =>
        exact ⟨other, active, after, .error error, rfl, fun _ h => by cases h⟩
      | ok offsets =>
        refine ⟨other, active, after, .ok (offset :: offsets), rfl, fun _ h => ?_⟩
        rw [← Except.ok.inj h, hoffsets offsets rfl]
        rfl

/-- The log refuses producers it has no room to name. -/
def Accepts (log : Log) (batch : MessageBatch) : Prop :=
  log.config.messageFormatVersion = .v2 → batch.producerId = 0
deriving Decidable

/-- An append fails and moves no counter, or hands out the next offsets and
moves past them. -/
theorem append_shape (log : Log) (disk : Disk) (batch : MessageBatch)
    (faults : List AppendFaults) :
    (∃ wal active after error, log.append disk batch faults =
      ({ log with wal := wal, active := active }, after, .error error)) ∨
    (log.closed = false ∧ log.Accepts batch ∧
      ∃ wal active immutables after, log.append disk batch faults =
        ({ log with
            wal := wal
            active := active
            immutables := immutables
            nextOffset := log.nextOffset + batch.messages.length
            highWaterMark := log.nextOffset + batch.messages.length }, after,
          .ok ((batch.stampFrom log.nextOffset
            batch.messages).map Message.offset))) := by
  unfold Log.append
  split
  · exact Or.inl ⟨log.wal, log.active, disk, _, rfl⟩
  rename_i hopened
  split
  · exact Or.inl ⟨log.wal, log.active, disk, _, rfl⟩
  rename_i hversion
  obtain ⟨wal, active, after, result, hwrite, hoffsets⟩ :=
    writeMessages_shape batch log disk log.nextOffset batch.messages faults
  rw [hwrite]
  cases result with
  | error error => exact Or.inl ⟨wal, active, after, error, rfl⟩
  | ok offsets =>
    refine Or.inr ⟨by simpa using hopened, fun hv2 => ?_, ?_⟩
    · exact not_not.mp fun hproducer => hversion ⟨hv2, hproducer⟩
    · obtain ⟨table, tables, hrotated⟩ := (publish
        { log with wal := wal, active := active }
        batch.messages.length).rotateIfFull_eq
      exact ⟨wal, table, tables, after, by
        rw [hoffsets offsets rfl]
        simp only [hrotated]
        rfl⟩

/-- What appending a batch asks of the write-ahead log: every byte goes where
its file ends, every record fits its header and the offsets do not run out. -/
@[mk_iff] structure Fits (log : Log) (disk : Disk) (batch : MessageBatch) : Prop where
  atEnd : log.wal.AppendsAllAtEnd disk
    (log.entries batch log.nextOffset batch.messages)
  short : ∀ entry ∈ log.entries batch log.nextOffset batch.messages,
    recordHeaderSize + entry.length < 2 ^ 32
  upper : log.nextOffset + batch.messages.length < 2 ^ 63

instance (log : Log) (disk : Disk) (batch : MessageBatch) :
    Decidable (log.Fits disk batch) :=
  decidable_of_iff' _ (log.fits_iff disk batch)

/-- Appending a batch to a sound log writes its messages, publishes them and
rotates the active table if it is full. -/
theorem Sound.append (hsound : log.Sound disk first data)
    (haccepts : log.Accepts batch) (hfits : log.Fits disk batch) :
    ∃ written next after,
      log.writeMessages batch disk log.nextOffset batch.messages [] =
        (written, after, .ok ((batch.stampFrom log.nextOffset
          batch.messages).map Message.offset)) ∧
      log.append disk batch [] = (next, after, .ok ((batch.stampFrom log.nextOffset
          batch.messages).map Message.offset)) ∧
      log.Grows disk next after first
        (data ++ log.entries batch log.nextOffset batch.messages) ∧
      (first = 0 → written.KeepsEvicted after → ∀ offset, 0 ≤ offset →
        log.Covered disk first offset ∨ data.length ≤ offset ∧
          offset < data.length + batch.messages.length →
        next.Covered after first offset) := by
  obtain ⟨wal, after, hwrite, hadvances⟩ := writeMessages_healthy hsound.healthy
    hsound.next_eq hfits.atEnd hfits.short hfits.upper
  let entries := log.entries batch log.nextOffset batch.messages
  let written : Log :=
    { log with
      wal := wal, active := MemTable.putAll log.nextOffset entries log.active }
  have hlength : entries.length = batch.messages.length :=
    log.entries_length batch log.nextOffset batch.messages
  have htables : TablesHold (written.publish batch.messages.length).tables
      (data ++ entries) := by
    simp only [written, publish, tables, hsound.next_eq]
    exact TablesHold.putAll hsound.tables entries
  obtain ⟨active, immutables, hrotated⟩ :=
    (written.publish batch.messages.length).rotateIfFull_eq
  refine ⟨written, (written.publish batch.messages.length).rotateIfFull, after,
    hwrite, ?_, ?_, ?_⟩
  · have hopened : ¬ log.closed = true := by simp [hsound.opened]
    have hversion : ¬ (log.config.messageFormatVersion = .v2 ∧
        batch.producerId ≠ 0) := fun h => h.2 (haccepts h.1)
    rw [Log.append, if_neg hopened, if_neg hversion, hwrite]
  · refine ⟨⟨⟨?_, htables.rotateIfFull⟩, ?_, ?_, ?_⟩, ?_, ?_, ?_⟩
    · rw [hrotated]
      exact hadvances.healthy
    · rw [hrotated]
      exact hsound.opened
    · rw [hrotated]
      simp [written, publish, hsound.next_eq, entries, entries_length]
    · rw [hrotated]
      simp [written, publish, hsound.next_eq, entries, entries_length]
    · rw [hrotated]
      exact hadvances
    · rw [hrotated]
      rfl
    · rw [hrotated]
      rfl
  · rintro rfl hkeeps offset hlower hcovered
    refine Covered.rotateIfFull hlower ?_ hkeeps
    refine Covered.write hadvances.stored_le (hcovered.imp_right fun hnew => ?_)
    rw [hsound.next_eq]
    omega

/-- Only the roll before the first message may go wrong. -/
@[mk_iff] structure RollFaults (faults : List AppendFaults) : Prop where
  head : (faults.headD AppendFaults.none).OnlyRoll
  tail : ∀ fault ∈ faults.tail, fault = AppendFaults.none

instance (faults : List AppendFaults) : Decidable (RollFaults faults) :=
  decidable_of_iff' _ (rollFaults_iff faults)

variable {faults : List AppendFaults}

theorem writeMessages_none (batch : MessageBatch) (log : Log) (disk : Disk)
    (offset : Int) (messages : List Message)
    (hnone : ∀ fault ∈ faults, fault = AppendFaults.none) :
    log.writeMessages batch disk offset messages faults =
      log.writeMessages batch disk offset messages [] := by
  induction messages generalizing log disk offset faults with
  | nil => rfl
  | cons message rest ih =>
    have hhead : faults.headD AppendFaults.none = AppendFaults.none := by
      cases faults with
      | nil => rfl
      | cons fault others => exact hnone fault mem_cons_self
    have htail : ∀ fault ∈ faults.tail, fault = AppendFaults.none :=
      fun fault hfault => hnone fault (mem_of_mem_tail hfault)
    simp only [writeMessages, hhead, headD_nil, tail_nil, ih _ _ _ htail]

/-- A batch of which only the first roll may fail is written as if nothing
could fail, or not at all. -/
theorem writeMessages_rollFaults {messages : List Message}
    (hhealthy : log.wal.Healthy disk first data)
    (hend : log.wal.AppendsAllAtEnd disk (log.entries batch offset messages))
    (hfaults : RollFaults faults) :
    log.writeMessages batch disk offset messages faults =
        log.writeMessages batch disk offset messages [] ∨
      ∃ wal after, log.writeMessages batch disk offset messages faults =
          ({ log with wal := wal }, after, .error .io) ∧
        log.wal.Advances disk wal after first data ∧
        wal.current.writer.buffered = [] := by
  cases messages with
  | nil => exact Or.inl rfl
  | cons message rest =>
    rcases hhealthy.append_onlyRoll hend.head hfaults.head with hsame | hfails
    · left
      simp only [writeMessages, hsame, headD_nil, tail_nil,
        writeMessages_none _ _ _ _ _ hfaults.tail]
    · obtain ⟨wal, after, happend, hadvances, hempty⟩ := hfails
      exact Or.inr ⟨wal, after, by simp only [writeMessages, happend],
        hadvances, hempty⟩

theorem Grows.withWal (hsound : log.Sound disk first data) {wal : Wal}
    {after : Disk} (hadvances : log.wal.Advances disk wal after first data) :
    log.Grows disk { log with wal := wal } after first data ∧
      ∀ offset, log.Covered disk first offset →
        Covered { log with wal := wal } after first offset := by
  refine ⟨⟨⟨⟨hadvances.healthy, hsound.tables⟩, hsound.opened, hsound.next_eq,
    hsound.hwm_eq⟩, hadvances, rfl, rfl⟩, fun offset hcovered => ?_⟩
  exact hcovered.imp_right fun hstored =>
    ⟨hstored.1, hstored.2.trans_le hadvances.stored_le⟩

/-- Flushing a sound log writes its buffer out, also when the fsync fails. -/
theorem Sound.flush (hsound : log.Sound disk first data)
    (hend : log.wal.FlushesAtEnd disk) (fsyncFails : Bool) :
    ∃ next after, log.flush disk ⟨none, fsyncFails⟩ =
        (next, after, if fsyncFails then .error .io else .ok ()) ∧
      log.Grows disk next after first data ∧
      next.wal.current.writer.buffered = [] ∧
      ∀ offset, log.Covered disk first offset → next.Covered after first offset := by
  obtain ⟨wal, after, hsync, hadvances, hempty⟩ := hsound.healthy.sync hend fsyncFails
  obtain ⟨hgrows, hcovered⟩ := Grows.withWal hsound hadvances
  exact ⟨{ log with wal := wal }, after,
    by simp [Log.flush, hsound.opened, hsync], hgrows, hempty, hcovered⟩

/-- Compacting rearranges the immutable tables. -/
theorem Sound.compact (hsound : log.Sound disk first data)
    (choice : CompactionChoice) :
    ∃ next, log.compact choice = (next, .ok ()) ∧
      log.Grows disk next disk first data ∧
      ∀ offset, log.Covered disk first offset → next.Covered disk first offset := by
  have hsame := runCompaction_sameRecords log.config.compaction choice log.immutables
  refine ⟨{ log with
      immutables := runCompaction log.config.compaction choice log.immutables },
    ?_, ?_, ?_⟩
  · simp [Log.compact, hsound.opened]
  · refine ⟨⟨⟨hsound.healthy, ?_⟩, hsound.opened, hsound.next_eq,
      hsound.hwm_eq⟩, hsound.healthy.advances, rfl, rfl⟩
    intro table hmem offset value hfind
    rcases mem_cons.mp hmem with rfl | hcompacted
    · exact hsound.tables log.active mem_cons_self offset value hfind
    · obtain ⟨source, hsource, hvalue⟩ :=
        hsame.sound table hcompacted offset value hfind
      exact hsound.tables source (mem_cons_of_mem _ hsource) offset value hvalue
  · intro offset hcovered
    refine hcovered.imp_left ?_
    rintro ⟨table, hmem, hhas⟩
    rcases mem_cons.mp hmem with rfl | hold
    · exact ⟨log.active, mem_cons_self, hhas⟩
    · obtain ⟨target, htarget, hhas⟩ := hsame.complete table hold offset hhas
      exact ⟨target, mem_cons_of_mem _ htarget, hhas⟩

end Log

end Streambus
