/-
Offsets by timestamp.  The lookup searches the log as if its timestamps
increased, and scans it only if no message the search looked at is late enough.
Producers choose the timestamps, so the search may pass by the first late
message; retention, which deletes everything before the offset it is given,
then deletes that message.
-/
import Streambus.LogRun

namespace Streambus

open List Option

namespace Log

variable (log : Log)

/-- The record at an offset.  A read moves file handles and nothing else, and
does not depend on where they stand, so a search reads the log it started on. -/
def recordAt (disk : Disk) (offset : Int) : Option Bytes :=
  (log.lookupOffset disk offset).2

/-- The message at an offset, `none` if it cannot be read.  A record that is
cut off faults. -/
def readMessageAt (disk : Disk) (offset : Int) :
    Except StorageError (Option Message) :=
  match log.recordAt disk offset with
  | none => .ok none
  | some data =>
    match deserializeMessage data with
    | none => .error .fault
    | some message => .ok (some { message with offset := offset })

/-- The binary search.  What was found so far is `none` instead of the end of
the log and a zero timestamp. -/
def searchTimestamp (look : Int → Except StorageError (Option Message))
    (target : Int) : Nat → Int → Int → Option (Int × Int) →
    Except StorageError (Option (Int × Int))
  | 0, _, _, found => .ok found
  | fuel + 1, low, high, found =>
    if high < low then .ok found
    else
      let mid := low + (high - low) / 2
      match look mid with
      | .error error => .error error
      | .ok none => .ok found
      | .ok (some message) =>
        let nanos := Message.unixNano message.timestamp
        if target ≤ nanos then
          searchTimestamp look target fuel low (mid - 1) (some (mid, nanos))
        else searchTimestamp look target fuel (mid + 1) high found

def scanTimestamp (look : Int → Except StorageError (Option Message))
    (target : Int) : Nat → Int → Except StorageError (Option (Int × Int))
  | 0, _ => .ok none
  | count + 1, offset =>
    match look offset with
    | .error error => .error error
    | .ok none => scanTimestamp look target count (offset + 1)
    | .ok (some message) =>
      let nanos := Message.unixNano message.timestamp
      if target ≤ nanos then .ok (some (offset, nanos))
      else scanTimestamp look target count (offset + 1)

/-- The first offset with a timestamp of at least `target`, and that
timestamp; the end of the log if there is none. -/
def findOffsetByTimestamp (disk : Disk) (target : Int) :
    Except StorageError (Int × Int) :=
  if log.closed then .error .logClosed
  else if log.highWaterMark ≤ log.logStartOffset then
    .ok (log.highWaterMark, 0)
  else
    let look := log.readMessageAt disk
    let count := (log.highWaterMark - log.logStartOffset).toNat
    match searchTimestamp look target count log.logStartOffset
        (log.highWaterMark - 1) none with
    | .error error => .error error
    | .ok (some found) => .ok found
    | .ok none =>
      match scanTimestamp look target count log.logStartOffset with
      | .error error => .error error
      | .ok found => .ok (found.getD (log.highWaterMark, 0))

end Log

/-- What one retention run deleted. -/
structure RetentionStats where
  segmentsDeleted : Int
  bytesReclaimed : Int
deriving Repr, DecidableEq

namespace Log

def estimateBytes (start stop : Int) : Int :=
  if stop - start ≤ 0 then 0 else (stop - start) * 256

/-- Delete before an offset that is past the start. -/
def deleteExpired (log : Log) (disk : Disk) (newStartOffset : Int) :
    Log × Disk × RetentionStats :=
  if newStartOffset ≤ log.logStartOffset then (log, disk, ⟨0, 0⟩)
  else
    match log.delete disk newStartOffset with
    | (next, disk, .error _) => (next, disk, ⟨0, 0⟩)
    | (next, disk, .ok _) =>
      (next, disk, ⟨newStartOffset - log.logStartOffset,
        estimateBytes log.logStartOffset newStartOffset⟩)

/-- Before which time messages expire, in 64 bits. -/
def cutoffNanos (retentionMs now : Int) : Int :=
  Int.bmod (now - retentionMs * 1000000) (2 ^ 64)

/-- Delete what is older than the retention time. -/
def enforceTimeBased (log : Log) (disk : Disk) (retentionMs now : Int) :
    Log × Disk × RetentionStats :=
  if retentionMs ≤ 0 then (log, disk, ⟨0, 0⟩)
  else if log.nextOffset ≤ log.logStartOffset then (log, disk, ⟨0, 0⟩)
  else
    match log.findOffsetByTimestamp disk (cutoffNanos retentionMs now) with
    | .error _ => (log, disk, ⟨0, 0⟩)
    | .ok found => log.deleteExpired disk found.1

/-- The offsets that readers are served. -/
def offsets (log : Log) : List Int :=
  (List.range (log.highWaterMark - log.logStartOffset).toNat).map
    fun index : Nat => log.logStartOffset + index

variable {offset : Int}

theorem mem_offsets {log : Log} : offset ∈ log.offsets ↔
    log.logStartOffset ≤ offset ∧ offset < log.highWaterMark := by
  rw [offsets, List.mem_map]
  constructor
  · rintro ⟨index, hindex, rfl⟩
    have := mem_range.mp hindex
    omega
  · rintro ⟨hlow, hhigh⟩
    exact ⟨(offset - log.logStartOffset).toNat, mem_range.mpr (by omega), by omega⟩

/-- The timestamp of the message at an offset that can be read. -/
def stampAt (log : Log) (disk : Disk) (offset : Int) : Option Int :=
  ((log.recordAt disk offset).bind deserializeMessage).map
    fun message => Message.unixNano message.timestamp

/-- The message at the offset can be read and is not before the time. -/
def Late (log : Log) (disk : Disk) (target offset : Int) : Prop :=
  (log.stampAt disk offset).any (target ≤ ·) = true
deriving Decidable

/-- The first late message and its timestamp, or the end of the log. -/
def IsFirst (log : Log) (disk : Disk) (target : Int) (found : Int × Int) :
    Prop :=
  (found.1 ∈ log.offsets ∧ log.stampAt disk found.1 = some found.2 ∧
      target ≤ found.2 ∧
      ∀ offset ∈ log.offsets, log.Late disk target offset → found.1 ≤ offset) ∨
    found = (log.highWaterMark, 0) ∧
      ∀ offset ∈ log.offsets, ¬log.Late disk target offset

/-- Every message can be read, and behind a late one all are late. -/
def InOrder (log : Log) (disk : Disk) (target : Int) : Prop :=
  ∀ offset ∈ log.offsets, (log.stampAt disk offset).isSome = true ∧
    (log.Late disk target offset →
      ∀ later ∈ log.offsets, offset ≤ later → log.Late disk target later)
deriving Decidable

/-- The late messages are in memory tables. -/
def Buffered (log : Log) (disk : Disk) (target : Int) : Prop :=
  ∀ offset ∈ log.offsets, log.Late disk target offset →
    (findInTables offset log.tables).isSome = true
deriving Decidable

section Search

variable {look : Int → Except StorageError (Option Message)}
  {stamp : Int → Int} {target : Int}

/-- An offset is looked up as a message with the given timestamp. -/
def Reads (look : Int → Except StorageError (Option Message))
    (stamp : Int → Int) (offset : Int) : Prop :=
  ∃ message, look offset = .ok (some message) ∧
    Message.unixNano message.timestamp = stamp offset

/-- In an interval that is late from some offset on, the search finds that
offset; if that is behind the interval, what was found before. -/
theorem searchTimestamp_eq {first : Int} {fuel : Nat} {low high : Int}
    (hreads : ∀ offset, low ≤ offset → offset ≤ high → Reads look stamp offset)
    (hlate : ∀ offset, low ≤ offset → offset ≤ high →
      (target ≤ stamp offset ↔ first ≤ offset))
    (hfuel : high + 1 - low ≤ fuel) (hlow : low ≤ first)
    (hhigh : first ≤ high + 1) (found : Option (Int × Int)) :
    searchTimestamp look target fuel low high found =
      .ok (if first ≤ high then some (first, stamp first) else found) := by
  induction fuel generalizing low high found with
  | zero => rw [searchTimestamp, if_neg (by omega)]
  | succ fuel ih =>
    rw [searchTimestamp]
    by_cases hempty : high < low
    · rw [if_pos hempty, if_neg (by omega)]
    · rw [if_neg hempty]
      obtain ⟨message, hmessage, hstamp⟩ :=
        hreads (low + (high - low) / 2) (by omega) (by omega)
      have hmiddle := hlate (low + (high - low) / 2) (by omega) (by omega)
      generalize hmid : low + (high - low) / 2 = mid at *
      simp only [hmessage, hstamp]
      by_cases hle : first ≤ mid
      · -- The middle is late: the first late message is there or to its left.
        rw [if_pos (hmiddle.mpr hle), if_pos (by omega), ih
          (fun offset h1 h2 => hreads offset h1 (by omega))
          (fun offset h1 h2 => hlate offset h1 (by omega)) (by omega) hlow
          (by omega)]
        split_ifs with hbefore
        · rfl
        · rw [show mid = first by omega]
      · rw [if_neg (mt hmiddle.mp hle), ih
          (fun offset h1 h2 => hreads offset (by omega) h2)
          (fun offset h1 h2 => hlate offset (by omega) h2) (by omega)
          (by omega) hhigh]

/-- The scan of early messages finds nothing. -/
theorem scanTimestamp_eq_none (count : Nat) (offset : Int)
    (hearly : ∀ probe, offset ≤ probe → probe < offset + count →
      Reads look stamp probe ∧ stamp probe < target) :
    scanTimestamp look target count offset = .ok none := by
  induction count generalizing offset with
  | zero => rfl
  | succ count ih =>
    obtain ⟨⟨message, hmessage, hstamp⟩, hlt⟩ :=
      hearly offset le_rfl (by omega)
    rw [scanTimestamp, hmessage]
    simp only [hstamp, if_neg (not_le.mpr hlt)]
    exact ih (offset + 1) fun probe h1 h2 =>
      hearly probe (by omega) (by push_cast; omega)

end Search

variable {log : Log} {disk : Disk} {target : Int}

theorem late_iff {nanos : Int} (hstamp : log.stampAt disk offset = some nanos) :
    log.Late disk target offset ↔ target ≤ nanos := by
  simp [Late, hstamp]

/-- In a log in order the messages are late from some offset on. -/
theorem InOrder.exists_first (horder : log.InOrder disk target)
    (hopen : log.logStartOffset ≤ log.highWaterMark) :
    ∃ first, log.logStartOffset ≤ first ∧ first ≤ log.highWaterMark ∧
      ∀ offset ∈ log.offsets, log.Late disk target offset ↔ first ≤ offset := by
  by_cases hany : ∃ offset, offset ∈ log.offsets ∧ log.Late disk target offset
  · obtain ⟨first, ⟨hmem, hlate⟩, hleast⟩ := Int.exists_least_of_bdd
      ⟨log.logStartOffset, fun offset h => (mem_offsets.mp h.1).1⟩ hany
    have hbounds := mem_offsets.mp hmem
    exact ⟨first, hbounds.1, hbounds.2.le, fun offset hoffset =>
      ⟨fun h => hleast offset ⟨hoffset, h⟩,
        (horder first hmem).2 hlate offset hoffset⟩⟩
  · refine ⟨log.highWaterMark, hopen, le_rfl, fun offset hoffset => ?_⟩
    have hbounds := mem_offsets.mp hoffset
    exact ⟨fun h => absurd ⟨offset, hoffset, h⟩ hany, fun h => by omega⟩

theorem InOrder.reads (horder : log.InOrder disk target)
    (hoffset : offset ∈ log.offsets) :
    Reads (log.readMessageAt disk) (fun offset =>
      (log.stampAt disk offset).getD 0) offset ∧
    log.stampAt disk offset = some ((log.stampAt disk offset).getD 0) := by
  have hsome := (horder offset hoffset).1
  rw [Reads, readMessageAt, stampAt] at *
  cases hrecord : log.recordAt disk offset with
  | none => simp [hrecord] at hsome
  | some data =>
    cases hmessage : deserializeMessage data with
    | none => simp [hrecord, hmessage] at hsome
    | some message => exact ⟨⟨_, by simp only [hmessage]; rfl,
        by simp [hmessage]⟩, by simp [hmessage]⟩

/-- The lookup finds the first late message of a log in order. -/
theorem InOrder.findOffsetByTimestamp (horder : log.InOrder disk target)
    (hopened : log.closed = false) :
    ∃ found, log.findOffsetByTimestamp disk target = .ok found ∧
      log.IsFirst disk target found := by
  rw [Log.findOffsetByTimestamp, if_neg (by simp [hopened])]
  by_cases hempty : log.highWaterMark ≤ log.logStartOffset
  · refine ⟨_, if_pos hempty, Or.inr ⟨rfl, fun offset hoffset => ?_⟩⟩
    have := mem_offsets.mp hoffset
    omega
  rw [if_neg hempty]
  obtain ⟨first, hlow, hhigh, hfirst⟩ := horder.exists_first (by omega)
  have hlate : ∀ offset, log.logStartOffset ≤ offset →
      offset ≤ log.highWaterMark - 1 →
        (target ≤ (log.stampAt disk offset).getD 0 ↔ first ≤ offset) := by
    intro offset h1 h2
    have hoffset := mem_offsets.mpr ⟨h1, show offset < _ by omega⟩
    rw [← hfirst offset hoffset, late_iff (horder.reads hoffset).2]
  dsimp only
  rw [searchTimestamp_eq (fun offset h1 h2 =>
    (horder.reads (mem_offsets.mpr ⟨h1, by omega⟩)).1) hlate (by omega) hlow
    (by omega)]
  split_ifs with hinside
  · have hmem := mem_offsets.mpr ⟨hlow, show first < _ by omega⟩
    exact ⟨_, rfl, Or.inl ⟨hmem, (horder.reads hmem).2,
      (hlate first hlow hinside).mpr le_rfl,
      fun offset hoffset h => (hfirst offset hoffset).mp h⟩⟩
  · simp only
    rw [scanTimestamp_eq_none]
    · refine ⟨_, rfl, Or.inr ⟨rfl, fun offset hoffset h => ?_⟩⟩
      have hbounds := mem_offsets.mp hoffset
      have := (hfirst offset hoffset).mp h
      omega
    · intro probe h1 h2
      have hprobe := mem_offsets.mpr ⟨h1, show probe < _ by omega⟩
      refine ⟨(horder.reads hprobe).1, not_le.mp fun h => ?_⟩
      have := (hlate probe h1 (by omega)).mp h
      omega

/-- Deleting what is expired changes nothing, or moves the start and drops
files. -/
theorem deleteExpired_cases (log : Log) (disk : Disk) (newStartOffset : Int) :
    ((log.deleteExpired disk newStartOffset).1 = log ∧
      (log.deleteExpired disk newStartOffset).2.1 = disk) ∨
    log.logStartOffset < newStartOffset ∧
      ∃ wal, (log.deleteExpired disk newStartOffset).1 =
        { log with wal, logStartOffset := newStartOffset } := by
  rw [deleteExpired]
  split_ifs with hbefore
  · exact Or.inl ⟨rfl, rfl⟩
  · rw [Log.delete]
    split_ifs
    · exact Or.inl ⟨rfl, rfl⟩
    · refine Or.inr ⟨not_le.mp hbefore, ?_⟩
      rcases log.wal.truncate disk newStartOffset with ⟨wal, after, result⟩
      cases result <;> exact ⟨wal, rfl⟩

/-- What is in a memory table from the new start on is retained. -/
theorem deleteExpired_retains {newStartOffset : Int}
    (hoffset : offset ∈ log.offsets) (hnew : newStartOffset ≤ offset)
    (hbuffered : (findInTables offset log.tables).isSome = true) :
    offset ∈ (log.deleteExpired disk newStartOffset).1.offsets ∧
      (log.deleteExpired disk newStartOffset).1.recordAt
          (log.deleteExpired disk newStartOffset).2.1 offset =
        log.recordAt disk offset := by
  rcases log.deleteExpired_cases disk newStartOffset with
    ⟨hlog, hdisk⟩ | ⟨-, wal, hlog⟩
  · rw [hlog, hdisk]
    exact ⟨hoffset, rfl⟩
  · obtain ⟨value, hvalue⟩ := isSome_iff_exists.mp hbuffered
    rw [hlog]
    refine ⟨mem_offsets.mpr ⟨hnew, (mem_offsets.mp hoffset).2⟩, ?_⟩
    have htables : findInTables offset
        { log with wal, logStartOffset := newStartOffset }.tables =
          some value := hvalue
    rw [recordAt, recordAt, lookupOffset, lookupOffset, htables, hvalue]

end Log

/-- A log of one batch with the given timestamps. -/
def stampedLog (stamps : List Int) : LogRun :=
  (LogRun.start (LogRun.smallConfig .always 3)).step (.append
    ⟨stamps.map fun nanos => ⟨0, [107], [118], ∅, some nanos, 0, 0⟩, 0, 0⟩ [])

end Streambus
