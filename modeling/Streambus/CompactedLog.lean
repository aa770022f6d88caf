/-
Retention by size, and compaction of a log in use.  The size of a partition is
estimated from at most ten messages, and messages are deleted from the front
until their actual sizes make up for the excess.  Merging tables forgets which
is older, so a compaction goes unnoticed only while the immutable tables share
no offset; a failed batch leaves records behind the next offset, whose offsets
may be written again in the next table.
-/
import Mathlib.Data.List.ReduceOption
import Streambus.TimestampSearch

namespace Streambus

open List

/-- The sum of sizes over an interval. -/
def totalSize (size : Int → Int) (low high : Int) : Int :=
  ((List.range (high - low).toNat).map fun index : Nat => size (low + index)).sum

variable (size : Int → Int) {high low : Int}

theorem totalSize_self (low : Int) : totalSize size low low = 0 := by
  simp [totalSize]

theorem totalSize_succ (hle : low ≤ high) :
    totalSize size low (high + 1) = totalSize size low high + size high := by
  have hlength : (high + 1 - low).toNat = (high - low).toNat + 1 := by omega
  have hlast : low + ((high - low).toNat : Int) = high := by omega
  simp only [totalSize, hlength, range_succ, map_append,
    sum_append, map_singleton, sum_singleton, hlast]

theorem totalSize_append {mid : Int} (hlow : low ≤ mid) (hhigh : mid ≤ high) :
    totalSize size low mid + totalSize size mid high = totalSize size low high := by
  induction high, hhigh using Int.leInduction with
  | base => rw [totalSize_self, add_zero]
  | succ high hhigh ih =>
    rw [totalSize_succ size hhigh, totalSize_succ size (hlow.trans hhigh), ← ih,
      add_assoc]

theorem totalSize_congr {size other : Int → Int}
    (hsame : ∀ offset, low ≤ offset → offset < high → size offset = other offset) :
    totalSize size low high = totalSize other low high := by
  refine congrArg List.sum (map_congr_left fun index hindex => ?_)
  have := mem_range.mp hindex
  exact hsame _ (by omega) (by omega)

namespace Log

/-- The size of the first message a read of one byte returns, if it returns
any.  A record that is cut off faults. -/
def sizeAt (log : Log) (disk : Disk) (offset : Int) :
    Except StorageError (Option Int) :=
  match (log.read disk offset 1).2 with
  | .error .fault => .error .fault
  | .error _ => .ok none
  | .ok [] => .ok none
  | .ok (message :: _) => .ok (some message.payload)

/-- Up to ten offsets at an even pace. -/
def sampleOffsets (start messageCount : Int) : List Int :=
  let sampleSize := if messageCount < 10 then messageCount else 10
  let step := if messageCount / sampleSize < 1 then 1
    else messageCount / sampleSize
  (List.range sampleSize.toNat).map fun index : Nat => start + index * step

/-- The size of a partition by up to ten samples. -/
def estimatePartitionSize (log : Log) (disk : Disk) (start stop : Int) :
    Except StorageError Int :=
  if stop - start ≤ 0 then .ok 0
  else
    match (sampleOffsets start (stop - start)).mapM (log.sizeAt disk) with
    | .error error => .error error
    | .ok sizes =>
      let samples := sizes.reduceOption
      if samples = [] then .ok 0
      else .ok (samples.sum / samples.length * (stop - start))

/-- The offset before which messages make up the excess.  An offset that cannot
be read counts as 64 bytes. -/
def findOffsetForSizeReduction (log : Log) (disk : Disk) (excessBytes : Int) :
    Nat → Int → Int → Except StorageError Int
  | 0, offset, _ => .ok offset
  | count + 1, offset, accumulated =>
    match log.sizeAt disk offset with
    | .error error => .error error
    | .ok size =>
      let accumulated := accumulated + size.getD 64
      if excessBytes ≤ accumulated then .ok (offset + 1)
      else findOffsetForSizeReduction log disk excessBytes count (offset + 1)
        accumulated

/-- Delete the oldest messages of a partition that is too large. -/
def enforceSizeBased (log : Log) (disk : Disk) (retentionBytes : Int) :
    Except StorageError (Log × Disk × RetentionStats) :=
  if retentionBytes ≤ 0 then .ok (log, disk, ⟨0, 0⟩)
  else if log.nextOffset ≤ log.logStartOffset then .ok (log, disk, ⟨0, 0⟩)
  else
    match log.estimatePartitionSize disk log.logStartOffset log.nextOffset with
    | .error error => .error error
    | .ok totalSize =>
      if totalSize ≤ retentionBytes then .ok (log, disk, ⟨0, 0⟩)
      else
        match log.findOffsetForSizeReduction disk (totalSize - retentionBytes)
            (log.nextOffset - log.logStartOffset).toNat log.logStartOffset
            0 with
        | .error error => .error error
        | .ok newStartOffset => .ok (log.deleteExpired disk newStartOffset)

/-- The key and value bytes of the message at an offset. -/
def actualSize (log : Log) (disk : Disk) (offset : Int) : Int :=
  (((log.recordAt disk offset).bind deserializeMessage).map Message.payload).getD 0

/-- Nothing is deleted within the budget, and what is left with the last
deleted message exceeds it. -/
structure KeepsBudget (log : Log) (disk : Disk) (retentionBytes : Int)
    (next : Log) (after : Disk) : Prop where
  within : totalSize (log.actualSize disk) log.logStartOffset log.nextOffset ≤
    retentionBytes → (next, after) = (log, disk)
  beyond : log.logStartOffset < next.logStartOffset →
    retentionBytes < log.actualSize disk (next.logStartOffset - 1) +
      totalSize (next.actualSize after) next.logStartOffset next.nextOffset

/-- Every message is in a memory table and comes back from a read. -/
def AllBuffered (log : Log) (disk : Disk) : Prop :=
  ∀ index ∈ List.range (log.nextOffset - log.logStartOffset).toNat,
    (findInTables (log.logStartOffset + index) log.tables).isSome = true ∧
      (log.sizeAt disk (log.logStartOffset + index)).toOption =
        some (some (log.actualSize disk (log.logStartOffset + index)))
deriving Decidable

/-- The sampled messages are on average no larger than all messages. -/
def SampledFairly (log : Log) (disk : Disk) : Prop :=
  let samples := sampleOffsets log.logStartOffset
    (log.nextOffset - log.logStartOffset)
  (samples.map (log.actualSize disk)).sum * (log.nextOffset - log.logStartOffset) ≤
    totalSize (log.actualSize disk) log.logStartOffset log.nextOffset * samples.length
deriving Decidable

variable {log : Log} {disk : Disk} {offset : Int}

theorem AllBuffered.at (hall : log.AllBuffered disk)
    (hlow : log.logStartOffset ≤ offset) (hhigh : offset < log.nextOffset) :
    (findInTables offset log.tables).isSome = true ∧
      log.sizeAt disk offset = .ok (some (log.actualSize disk offset)) := by
  have hoffset := hall (offset - log.logStartOffset).toNat (mem_range.mpr (by omega))
  rw [show log.logStartOffset + ((offset - log.logStartOffset).toNat : Int) =
    offset by omega] at hoffset
  refine ⟨hoffset.1, ?_⟩
  cases hsize : log.sizeAt disk offset with
  | error error => simp [hsize, Except.toOption] at hoffset
  | ok size => simpa [hsize, Except.toOption] using hoffset.2

theorem sampleOffsets_bounds {start count : Int} (hcount : 0 < count)
    (hoffset : offset ∈ sampleOffsets start count) :
    start ≤ offset ∧ offset < start + count := by
  obtain ⟨index, hindex, rfl⟩ := mem_map.mp hoffset
  have hlt := mem_range.mp hindex
  generalize hsamples : (if count < 10 then count else 10) = samples at *
  have hpositive : 0 < samples ∧ samples ≤ count := by
    rw [← hsamples]
    split_ifs <;> omega
  have hquotient : 1 ≤ count / samples := by
    rw [Int.le_ediv_iff_mul_le hpositive.1]
    omega
  rw [if_neg (by omega)]
  have hfits := Int.ediv_mul_le count (ne_of_gt hpositive.1)
  have hle : (index : Int) * (count / samples) ≤ (samples - 1) * (count / samples) :=
    mul_le_mul_of_nonneg_right (by omega) (by omega)
  have hnonneg : 0 ≤ (index : Int) * (count / samples) :=
    mul_nonneg (by omega) (by omega)
  rw [sub_mul, mul_comm samples] at hle
  omega

theorem sampleOffsets_ne_nil {start count : Int} (hcount : 0 < count) :
    sampleOffsets start count ≠ [] := by
  simp only [sampleOffsets, ne_eq, map_eq_nil_iff, range_eq_nil]
  split_ifs <;> omega

theorem mapM_sizeAt {offsets : List Int} (hsizes : ∀ offset ∈ offsets,
      log.sizeAt disk offset = .ok (some (log.actualSize disk offset))) :
    offsets.mapM (log.sizeAt disk) =
      .ok (offsets.map fun offset => some (log.actualSize disk offset)) := by
  induction offsets with
  | nil => rfl
  | cons offset rest ih =>
    rw [mapM_cons, hsizes offset mem_cons_self,
      ih fun other hother => hsizes other (mem_cons_of_mem _ hother)]
    rfl

/-- The estimate is at most the size of all messages if the samples are no
larger. -/
theorem AllBuffered.estimatePartitionSize_le (hall : log.AllBuffered disk)
    (hsampled : log.SampledFairly disk)
    (hsome : log.logStartOffset < log.nextOffset) :
    ∃ estimate, log.estimatePartitionSize disk log.logStartOffset
        log.nextOffset = .ok estimate ∧ estimate ≤
      totalSize (log.actualSize disk) log.logStartOffset log.nextOffset := by
  dsimp only [SampledFairly] at hsampled
  rw [estimatePartitionSize, if_neg (by omega), mapM_sizeAt]
  · have hsamples : ∀ offsets : List Int, (offsets.map fun offset =>
        some (log.actualSize disk offset)).reduceOption =
          offsets.map (log.actualSize disk) := by
      intro offsets
      simp [reduceOption]
    have hnonempty := @sampleOffsets_ne_nil log.logStartOffset
      (log.nextOffset - log.logStartOffset) (by omega)
    simp only [hsamples]
    generalize sampleOffsets log.logStartOffset _ = offsets at *
    generalize (offsets.map (log.actualSize disk)).sum = sum at *
    simp only [map_eq_nil_iff, length_map, hnonempty, if_false]
    refine ⟨_, rfl, ?_⟩
    have hlength : 0 < (offsets.length : Int) := by
      exact_mod_cast length_pos_iff.mpr hnonempty
    refine le_of_mul_le_mul_right ?_ hlength
    refine le_trans ?_ hsampled
    have hfloor := Int.ediv_mul_le sum (ne_of_gt hlength)
    calc sum / offsets.length * (log.nextOffset - log.logStartOffset) *
          offsets.length
        = sum / offsets.length * offsets.length *
          (log.nextOffset - log.logStartOffset) := by ring
      _ ≤ sum * (log.nextOffset - log.logStartOffset) :=
        mul_le_mul_of_nonneg_right hfloor (by omega)
  · intro offset hoffset
    have hbounds := sampleOffsets_bounds (by omega) hoffset
    exact (hall.at hbounds.1 (by omega)).2

/-- The messages before the last deleted one do not make up the excess. -/
theorem AllBuffered.findOffsetForSizeReduction (hall : log.AllBuffered disk)
    (excessBytes : Int) (count : Nat) (hlow : log.logStartOffset ≤ offset)
    (hcount : offset + count + 1 = log.nextOffset)
    (hless : totalSize (log.actualSize disk) log.logStartOffset offset <
      excessBytes) :
    ∃ cut, offset ≤ cut ∧ cut < log.nextOffset ∧
      log.findOffsetForSizeReduction disk excessBytes (count + 1) offset
        (totalSize (log.actualSize disk) log.logStartOffset offset) = .ok (cut + 1) ∧
      totalSize (log.actualSize disk) log.logStartOffset cut < excessBytes := by
  induction count generalizing offset with
  | zero =>
    refine ⟨offset, le_rfl, by omega, ?_, hless⟩
    rw [Log.findOffsetForSizeReduction, (hall.at hlow (by omega)).2]
    dsimp only
    split_ifs <;> rfl
  | succ count ih =>
    rw [Log.findOffsetForSizeReduction, (hall.at hlow (by omega)).2]
    dsimp only
    rw [Option.getD_some, ← totalSize_succ _ hlow]
    split_ifs with henough
    · exact ⟨offset, le_rfl, by omega, rfl, hless⟩
    · obtain ⟨cut, hcut, hrest⟩ := ih (by omega) (by push_cast at hcount; omega)
        (not_le.mp henough)
      exact ⟨cut, by omega, hrest⟩

/-- Deleting up to a message retains the sizes behind it. -/
theorem AllBuffered.totalSize_deleteExpired (hall : log.AllBuffered disk)
    {cut : Int} (hlow : log.logStartOffset ≤ cut) {wal : Wal}
    (hnext : (log.deleteExpired disk (cut + 1)).1 =
      { log with wal, logStartOffset := cut + 1 }) :
    totalSize ((log.deleteExpired disk (cut + 1)).1.actualSize
        (log.deleteExpired disk (cut + 1)).2.1) (cut + 1) log.nextOffset =
      totalSize (log.actualSize disk) (cut + 1) log.nextOffset := by
  refine totalSize_congr fun offset h1 h2 => ?_
  obtain ⟨value, hvalue⟩ := Option.isSome_iff_exists.mp
    (hall.at (by omega : log.logStartOffset ≤ offset) h2).1
  have htables : findInTables offset
      { log with wal, logStartOffset := cut + 1 }.tables = some value := hvalue
  rw [actualSize, actualSize, hnext, recordAt, recordAt, lookupOffset,
    lookupOffset, htables, hvalue]

end Log

/-- A log of messages with the given value sizes. -/
def sizedLog (sizes : List Nat) : LogRun :=
  (LogRun.start (LogRun.smallConfig .always 3)).step (.append
    ⟨sizes.map fun size => ⟨0, [], List.replicate size 0, ∅, some 5, 0, 0⟩, 0, 0⟩ [])

namespace Log

/-- Among tables that share no offset the order of lookup does not matter. -/
theorem findInTables_eq_some_iff {tables : List MemTable}
    (hapart : tables.Pairwise MemTable.Apart) {offset : Int} {value : Bytes} :
    findInTables offset tables = some value ↔
      ∃ table ∈ tables, table.find? offset = some value := by
  refine ⟨exists_of_findInTables, ?_⟩
  rintro ⟨table, hmem, hfind⟩
  cases hfound : findInTables offset tables with
  | none =>
    exact absurd (by simp [MemTable.Has, hfind])
      (not_has_of_findInTables hfound table hmem)
  | some other =>
    obtain ⟨source, hsource, hother⟩ := exists_of_findInTables hfound
    rw [← hfind, ← hother]
    exact find?_unique_of_apart hapart hsource hmem
      (by simp [MemTable.Has, hother]) (by simp [MemTable.Has, hfind])

/-- The log with other immutable tables. -/
def withImmutables (log : Log) (tables : List MemTable) : Log :=
  { log with immutables := tables }

@[simp] theorem withImmutables_closed (log : Log) (tables : List MemTable) :
    (log.withImmutables tables).closed = log.closed := rfl

@[simp] theorem withImmutables_start (log : Log) (tables : List MemTable) :
    (log.withImmutables tables).logStartOffset = log.logStartOffset := rfl

@[simp] theorem withImmutables_highWaterMark (log : Log) (tables : List MemTable) :
    (log.withImmutables tables).highWaterMark = log.highWaterMark := rfl

/-- The tables answer every lookup as the immutable tables of the log do. -/
def Answers (log : Log) (tables : List MemTable) : Prop :=
  ∀ offset, findInTables offset tables = findInTables offset log.immutables

variable {log : Log} {tables : List MemTable}

theorem Answers.lookupOffset (hanswers : log.Answers tables) (disk : Disk)
    (offset : Int) :
    (log.withImmutables tables).lookupOffset disk offset =
        ((log.lookupOffset disk offset).1.withImmutables tables,
          (log.lookupOffset disk offset).2) ∧
      (log.lookupOffset disk offset).1.Answers tables := by
  have hfind : findInTables offset (log.withImmutables tables).tables =
      findInTables offset log.tables := by
    simp only [Log.tables, findInTables, withImmutables]
    cases log.active.find? offset with
    | some value => rfl
    | none => exact hanswers offset
  obtain ⟨wal, hmoved, -⟩ := log.lookupOffset_moved disk offset
  constructor
  · rw [Log.lookupOffset, Log.lookupOffset, hfind]
    cases findInTables offset log.tables with
    | some value => rfl
    | none =>
      rcases hread : log.wal.read disk offset with ⟨wal, error | data⟩
      · simp only [withImmutables, hread]
      · simp only [withImmutables, hread]
  · rw [hmoved]
    exact hanswers

theorem Answers.collect (hanswers : log.Answers tables) (disk : Disk)
    (count : Nat) (offset : Int) (budget : Option Int) :
    (Log.collect disk count offset budget (log.withImmutables tables)).2 =
      (Log.collect disk count offset budget log).2 := by
  induction count generalizing log offset budget with
  | zero => rfl
  | succ count ih =>
    obtain ⟨hlookup, hnext⟩ := hanswers.lookupOffset disk offset
    rw [Log.collect, Log.collect, hlookup]
    split_ifs
    · rfl
    · rcases hresult : log.lookupOffset disk offset with ⟨next, data⟩
      rw [hresult] at hnext
      cases data with
      | none => exact ih hnext (offset + 1) budget
      | some data =>
        dsimp only
        cases deserializeMessage data with
        | none => rfl
        | some message =>
          have hrest := ih hnext (offset + 1) (budget.map
            (· - ((message.value.length : Int) + message.key.length)))
          rcases hleft : Log.collect disk count (offset + 1) (budget.map
            (· - ((message.value.length : Int) + message.key.length)))
            (next.withImmutables tables) with ⟨left, result⟩
          rcases hright : Log.collect disk count (offset + 1) (budget.map
            (· - ((message.value.length : Int) + message.key.length)))
            next with ⟨right, other⟩
          rw [hleft, hright] at hrest
          obtain rfl : result = other := hrest
          simp only [hleft, hright]
          cases result with
          | error error | ok rest => rfl

theorem Answers.recordAt (hanswers : log.Answers tables) (disk : Disk) :
    (log.withImmutables tables).recordAt disk = log.recordAt disk := by
  funext offset
  rw [Log.recordAt, (hanswers.lookupOffset disk offset).1, Log.recordAt]

/-- The compaction changes no record and no answer of the log. -/
structure CompactsUnseen (log : Log) (disk : Disk) (choice : CompactionChoice) :
    Prop where
  union : ∀ offset value, (∃ table ∈ (log.compact choice).1.immutables,
        table.find? offset = some value) ↔
      ∃ table ∈ log.immutables, table.find? offset = some value
  apart : (log.compact choice).1.immutables.Pairwise MemTable.Apart
  read_eq : ∀ offset maxBytes, ((log.compact choice).1.read disk offset maxBytes).2 =
      (log.read disk offset maxBytes).2
  readRange_eq : ∀ startOffset endOffset,
    ((log.compact choice).1.readRange disk startOffset endOffset).2 =
      (log.readRange disk startOffset endOffset).2
  find_eq : ∀ target, (log.compact choice).1.findOffsetByTimestamp disk target =
    log.findOffsetByTimestamp disk target

theorem compactsUnseen_of_apart (hapart : log.immutables.Pairwise MemTable.Apart)
    (disk : Disk) (choice : CompactionChoice) :
    log.CompactsUnseen disk choice := by
  by_cases hclosed : log.closed = true
  · have hsame : (log.compact choice).1 = log := by
      rw [Log.compact, if_pos hclosed]
    constructor <;> simp [hsame, hapart]
  · have hcompact : (log.compact choice).1 = log.withImmutables
        (runCompaction log.config.compaction choice log.immutables) := by
      rw [Log.compact, if_neg hclosed, withImmutables]
    have hafter := runCompaction_apart log.config.compaction choice hapart
    have hanswers : log.Answers
        (runCompaction log.config.compaction choice log.immutables) := by
      intro offset
      ext value
      rw [findInTables_eq_some_iff hafter, findInTables_eq_some_iff hapart,
        exists_find?_runCompaction_iff log.config.compaction choice hapart]
    have hread : (log.compact choice).1.readMessageAt disk =
        log.readMessageAt disk := by
      funext offset
      rw [readMessageAt, readMessageAt, hcompact, hanswers.recordAt]
    refine ⟨fun offset value => ?_, ?_, fun offset maxBytes => ?_,
      fun startOffset endOffset => ?_, fun target => ?_⟩
    · rw [hcompact]
      exact exists_find?_runCompaction_iff log.config.compaction choice hapart
    · rw [hcompact]
      exact hafter
    · simp only [hcompact, Log.read, withImmutables_closed, withImmutables_start,
        withImmutables_highWaterMark, if_neg hclosed]
      by_cases hstart : offset < log.logStartOffset
      · simp only [if_pos hstart]
      · by_cases hend : log.highWaterMark ≤ offset
        · simp only [if_neg hstart, if_pos hend]
        · simp only [if_neg hstart, if_neg hend]
          exact hanswers.collect disk _ _ _
    · simp only [hcompact, Log.readRange, withImmutables_closed, if_neg hclosed]
      exact hanswers.collect disk _ _ _
    · rw [Log.findOffsetByTimestamp, hread, hcompact]
      rfl

/-- The immutable tables share no offset and lie before the active one. -/
structure Layered (log : Log) : Prop where
  apart : log.immutables.Pairwise MemTable.Apart
  bound : ∃ bound ≤ log.nextOffset,
    (∀ table ∈ log.immutables, ∀ offset, table.Has offset → offset < bound) ∧
    ∀ offset, log.active.Has offset → bound ≤ offset

/-- A table with nothing at the next offset or behind it can be rotated. -/
theorem Layered.rotateMemTable (hlayered : log.Layered)
    (hbelow : ∀ offset, log.active.Has offset → offset < log.nextOffset) :
    log.rotateMemTable.Layered := by
  obtain ⟨hapart, bound, hbound, hbefore, hbehind⟩ := hlayered
  have hall : (log.immutables ++ [log.active]).Pairwise MemTable.Apart := by
    refine pairwise_append.mpr ⟨hapart, pairwise_singleton _ _, ?_⟩
    intro table htable other hother offset hhas hotherHas
    rw [mem_singleton.mp hother] at hotherHas
    have := hbefore table htable offset hhas
    have := hbehind offset hotherHas
    omega
  have hbeforeNext : ∀ table ∈ log.immutables ++ [log.active], ∀ offset,
      table.Has offset → offset < log.nextOffset := by
    intro table htable offset hhas
    rcases mem_append.mp htable with hold | hnew
    · have := hbefore table hold offset hhas
      omega
    · rw [mem_singleton.mp hnew] at hhas
      exact hbelow offset hhas
  have hsub : log.rotateMemTable.immutables.Sublist
      (log.immutables ++ [log.active]) := by
    unfold Log.rotateMemTable
    dsimp only
    split_ifs
    · exact drop_sublist 1 _
    · exact List.Sublist.refl _
  exact ⟨hall.sublist hsub, log.nextOffset, le_rfl,
    fun table htable => hbeforeNext table (hsub.subset htable),
    fun offset hhas => by cases hhas⟩

/-- Writing messages puts nothing into the active table but their offsets. -/
theorem has_writeMessages (batch : MessageBatch) (messages : List Message)
    (log : Log) (disk : Disk) (offset : Int) (faults : List AppendFaults)
    {probe : Int} (hhas : (log.writeMessages batch disk offset messages
      faults).1.active.Has probe) :
    log.active.Has probe ∨ offset ≤ probe ∧ probe < offset + messages.length := by
  induction messages generalizing log disk offset faults with
  | nil => exact Or.inl hhas
  | cons message rest ih =>
    unfold Log.writeMessages at hhas
    dsimp only at hhas
    split at hhas
    · exact Or.inl hhas
    next wal between _ _ =>
      have hrest : (Log.writeMessages batch { log with
          wal := wal
          active := log.active.insert offset (serializeMessage
            log.config.messageFormatVersion (batch.stamp offset message)) }
          between (offset + 1) rest faults.tail).1.active.Has probe := by
        split at hhas <;> rename_i hwrite <;> rw [hwrite] <;> exact hhas
      rw [length_cons]
      rcases ih _ _ _ _ hrest with hactive | hlater
      · rw [MemTable.Has, OrderedMap.find?_insert] at hactive
        split_ifs at hactive with hoffset
        · exact Or.inr (by push_cast; omega)
        · exact Or.inl hactive
      · exact Or.inr (by push_cast; omega)

/-- A batch that is acknowledged and fills the active table leaves no record of
a failed batch behind it. -/
def LeavesNothing (log : Log) (disk : Disk) (batch : MessageBatch)
    (faults : List AppendFaults) : Prop :=
  let (written, _, result) := log.writeMessages batch disk log.nextOffset
    batch.messages faults
  result.isOk → log.config.memTableMaxSize ≤ written.active.size →
    ∀ offset ∈ log.active.keys, offset < log.nextOffset + batch.messages.length
deriving Decidable

theorem Layered.append (hlayered : log.Layered) {disk : Disk}
    {batch : MessageBatch} {faults : List AppendFaults}
    (hleaves : log.LeavesNothing disk batch faults) :
    (log.append disk batch faults).1.Layered := by
  obtain ⟨wal, active, after, result, hwrite, -⟩ :=
    writeMessages_shape batch log disk log.nextOffset batch.messages faults
  have hactive : ∀ offset, active.Has offset → log.active.Has offset ∨
      log.nextOffset ≤ offset ∧ offset < log.nextOffset + batch.messages.length := by
    intro offset hhas
    refine has_writeMessages batch batch.messages log disk _ faults ?_
    rwa [hwrite]
  obtain ⟨hapart, bound, hbound, hbefore, hbehind⟩ := hlayered
  have hwritten : ∀ offset, active.Has offset → bound ≤ offset := by
    intro offset hhas
    rcases hactive offset hhas with hold | hnew
    · exact hbehind offset hold
    · omega
  rw [LeavesNothing, hwrite] at hleaves
  rw [Log.append]
  split_ifs
  · exact ⟨hapart, bound, hbound, hbefore, hbehind⟩
  · exact ⟨hapart, bound, hbound, hbefore, hbehind⟩
  · rw [hwrite]
    cases result with
    | error error => exact ⟨hapart, bound, hbound, hbefore, hwritten⟩
    | ok offsets =>
      have hpublished : (Log.publish { log with wal := wal, active := active }
          batch.messages.length).Layered :=
        ⟨hapart, bound, hbound.trans (by simp [publish]), hbefore, hwritten⟩
      dsimp only
      rw [rotateIfFull]
      split_ifs with hfull
      · refine hpublished.rotateMemTable fun offset hhas => ?_
        rcases hactive offset hhas with hold | hnew
        · exact hleaves rfl hfull offset ((OrderedMap.mem_keys_iff _ _).mpr hold)
        · exact hnew.2
      · exact hpublished

/-- A compaction joins tables that lie before the active one. -/
theorem Layered.compact (hlayered : log.Layered) (choice : CompactionChoice) :
    (log.compact choice).1.Layered := by
  have hunseen := compactsUnseen_of_apart hlayered.apart Disk.empty choice
  obtain ⟨hapart, bound, hbound, hbefore, hbehind⟩ := hlayered
  have hfields : (log.compact choice).1.nextOffset = log.nextOffset ∧
      (log.compact choice).1.active = log.active := by
    rw [Log.compact]
    split_ifs <;> exact ⟨rfl, rfl⟩
  refine ⟨hunseen.apart, bound, by rw [hfields.1]; exact hbound, ?_, by
    rw [hfields.2]; exact hbehind⟩
  intro table htable offset hhas
  obtain ⟨value, hvalue⟩ := Option.isSome_iff_exists.mp hhas
  obtain ⟨source, hsource, hfind⟩ :=
    (hunseen.union offset value).mp ⟨table, htable, hvalue⟩
  exact hbefore source hsource offset (by simp [MemTable.Has, hfind])

end Log

namespace LogRun

/-- The operation leaves nothing of a failed batch behind a full table, and
does not open the log again. -/
def Clean (run : LogRun) : LogOp → Prop
  | .append batch faults => run.log.LeavesNothing run.disk batch faults
  | .reopen => False
  | _ => True

instance (run : LogRun) (op : LogOp) : Decidable (run.Clean op) := by
  induction op using LogOp.casesOn <;> unfold Clean <;> infer_instance

theorem step_layered {run : LogRun} (hlayered : run.log.Layered) {op : LogOp}
    (hclean : run.Clean op) : (run.step op).log.Layered := by
  cases op with
  | append batch faults =>
    have hnext := hlayered.append hclean
    rcases happend : run.log.append run.disk batch faults with
      ⟨log, disk, error | offsets⟩
    · rw [happend] at hnext
      simpa only [step, happend] using hnext
    · rw [happend] at hnext
      simpa only [step, happend] using hnext
  | flush fault =>
    simp only [step, Log.flush]
    split_ifs <;> exact ⟨hlayered.apart, hlayered.bound⟩
  | read offset maxBytes =>
    obtain ⟨wal, hmoved, -⟩ := run.log.read_moved run.disk offset maxBytes
    simp only [step, hmoved]
    exact ⟨hlayered.apart, hlayered.bound⟩
  | readRange startOffset endOffset =>
    obtain ⟨wal, hmoved, -⟩ :=
      run.log.readRange_moved run.disk startOffset endOffset
    simp only [step, hmoved]
    exact ⟨hlayered.apart, hlayered.bound⟩
  | compact choice => exact hlayered.compact choice
  | delete beforeOffset =>
    simp only [step, Log.delete]
    split_ifs <;> exact ⟨hlayered.apart, hlayered.bound⟩
  | close =>
    simp only [step, Log.close]
    split_ifs <;> exact ⟨hlayered.apart, hlayered.bound⟩
  | reopen => exact hclean.elim

/-- In every run that leaves nothing of a failed batch behind a full table,
compaction changes no record and no answer, whatever its strategy and order. -/
theorem compactsUnseen_of_clean (config : LogConfig) (ops : List LogOp)
    (hclean : AllAllowed step Clean (start config) ops)
    (choice : CompactionChoice) :
    (runSteps step (start config) ops).log.CompactsUnseen
      (runSteps step (start config) ops).disk choice := by
  have hlayered := hclean.invariant (fun run => run.log.Layered)
    (fun _ _ hlayered hop => step_layered hlayered hop)
    ⟨List.Pairwise.nil, 0, le_rfl, fun _ hmem => absurd hmem not_mem_nil,
      fun _ hhas => absurd hhas Bool.false_ne_true⟩
  exact Log.compactsUnseen_of_apart hlayered.apart _ choice

/-- A log that compacts by time, and a batch of messages with the values. -/
def windowConfig : LogConfig :=
  { smallConfig .always 3 with compaction := ⟨.timeWindow, 10⟩ }

variable (values : List UInt8)

def valuesBatch : MessageBatch :=
  ⟨values.map fun value => ⟨0, [], [value], ∅, some 5, 0, 0⟩, 0, 0⟩

/-- A batch whose last message cannot be synced, and two batches of one. -/
def failedOps : List LogOp :=
  [.append (valuesBatch values) (values.tail.map (fun _ => AppendFaults.none) ++
      [⟨Fault.none, false, none, ⟨none, true⟩⟩]),
    .append (valuesBatch [4]) [], .append (valuesBatch [5]) []]

theorem compactsUnseen_failedOps :
    (runSteps step (start windowConfig) (failedOps [1, 2])).log.CompactsUnseen
      (runSteps step (start windowConfig) (failedOps [1, 2])).disk ⟨[], []⟩ :=
  compactsUnseen_of_clean windowConfig (failedOps [1, 2]) (by decide +kernel) _

/-- A failed batch left two messages: the second is read instead of the one
acknowledged at its offset, until a compaction. -/
theorem not_compactsUnseen_failedOps :
    ((runSteps step (start windowConfig) (failedOps [1, 2, 3])).log.readRange
      (runSteps step (start windowConfig) (failedOps [1, 2, 3])).disk 1
        2).2.toOption.map (List.map Message.value) = some [[2]] ∧
    ((runSteps step (start windowConfig)
        (failedOps [1, 2, 3] ++ [.compact ⟨[], []⟩])).log.readRange
      (runSteps step (start windowConfig)
        (failedOps [1, 2, 3] ++ [.compact ⟨[], []⟩])).disk 1
        2).2.toOption.map (List.map Message.value) = some [[5]] := by
  decide +kernel

end LogRun

end Streambus
