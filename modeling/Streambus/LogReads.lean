/-
The partition log: the write-ahead log, an active memtable that takes the
writes and a few immutable ones.  A full active table is rotated into the
immutable list, which drops its oldest table when it grows too long; what no
table holds any more is read from the write-ahead log.  Over offsets that some
table still has or that have reached their segment's file a read returns
consecutive messages as they were written, as many as its budget pays for.
-/
import Streambus.Compaction
import Streambus.WalHealth

namespace Streambus

open List

structure LogConfig where
  wal : WalConfig
  memTableMaxSize : Int
  numImmutable : Nat
  messageFormatVersion : MessageFormatVersion
  compaction : CompactionConfig
deriving Repr, DecidableEq

/-- Messages to append with the identity of their producer. -/
structure MessageBatch where
  messages : List Message
  producerId : Int
  producerEpoch : Int
deriving DecidableEq

structure Log where
  config : LogConfig
  wal : Wal
  active : MemTable
  immutables : List MemTable
  nextOffset : Int
  highWaterMark : Int
  logStartOffset : Int
  closed : Bool
deriving DecidableEq

/-- A message as it is stored: with its offset and its batch's identity. -/
def MessageBatch.stamp (batch : MessageBatch) (offset : Int)
    (message : Message) : Message :=
  { message with
    offset := offset
    producerId := batch.producerId
    producerEpoch := batch.producerEpoch }

namespace Log

variable (log : Log)

/-- Every table of the log, in the order lookups try them. -/
def tables : List MemTable := log.active :: log.immutables

/-- Move the active table to the immutable ones and drop the oldest of them if
there are too many. -/
def rotateMemTable : Log :=
  let immutables := log.immutables ++ [log.active]
  { log with
    active := ∅
    immutables :=
      if log.config.numImmutable < immutables.length then immutables.drop 1
      else immutables }

/-- Counters of a recovery: how many messages were put into tables and the
bytes in the active one. -/
structure Recovery where
  log : Log
  recovered : Nat
  totalSize : Int

/-- Load messages into the memtables, rotating full ones, until all are loaded
or no more tables may be filled. -/
def recoverLoop (disk : Disk) (maxMemTableSize : Int) : Nat → Int → Recovery → Log
  | 0, _, state => state.log
  | count + 1, offset, state =>
    match state.log.wal.read disk offset with
    | (wal, .error _) =>
      recoverLoop disk maxMemTableSize count (offset + 1)
        { state with log := { state.log with wal := wal } }
    | (wal, .ok data) =>
      let log := { state.log with wal := wal }
      let put (log : Log) (totalSize : Int) : Recovery :=
        ⟨{ log with active := log.active.insert offset data },
          state.recovered + 1, totalSize + data.length⟩
      if maxMemTableSize ≤ state.totalSize + data.length ∧ 0 < state.recovered then
        let rotated := log.rotateMemTable
        if log.config.numImmutable ≤ rotated.immutables.length then rotated
        else
          recoverLoop disk maxMemTableSize count (offset + 1) (put rotated 0)
      else
        recoverLoop disk maxMemTableSize count (offset + 1) (put log state.totalSize)

/-- Take the offsets from the write-ahead log and load its last messages.  The
start of the log is set to zero. -/
def recover (disk : Disk) : Log :=
  let nextOffset := log.wal.nextOffset
  let log :=
    { log with
      nextOffset := nextOffset, highWaterMark := nextOffset, logStartOffset := 0 }
  if nextOffset = 0 then log
  else
    let maxMemTableSize :=
      if log.config.memTableMaxSize = 0 then 64 * 1024 * 1024
      else log.config.memTableMaxSize
    let estimatedCapacity := maxMemTableSize.tdiv 2048
    let maxToRecover :=
      if nextOffset < estimatedCapacity then nextOffset else estimatedCapacity
    let startOffset :=
      if nextOffset - maxToRecover < 0 then 0 else nextOffset - maxToRecover
    recoverLoop disk maxMemTableSize (nextOffset - startOffset).toNat startOffset
      ⟨log, 0, 0⟩

/-- Write messages one by one: to the write-ahead log, then to the active
table.  An error stops the batch where it is. -/
def writeMessages (batch : MessageBatch) (log : Log) (disk : Disk)
    (offset : Int) : List Message → List AppendFaults →
    Log × Disk × Except StorageError (List Int)
  | [], _ => (log, disk, .ok [])
  | message :: rest, faults =>
    let data := serializeMessage log.config.messageFormatVersion
      (batch.stamp offset message)
    match log.wal.append disk data (faults.headD AppendFaults.none) with
    | (wal, disk, .error error) =>
      ({ log with wal := wal }, disk, .error error)
    | (wal, disk, .ok _) =>
      let log :=
        { log with wal := wal, active := log.active.insert offset data }
      match writeMessages batch log disk (offset + 1) rest faults.tail with
      | (log, disk, .error error) => (log, disk, .error error)
      | (log, disk, .ok offsets) => (log, disk, .ok (offset :: offsets))

/-- Publish written messages: move the offsets past them. -/
def publish (count : Nat) : Log :=
  { log with
    nextOffset := log.nextOffset + count
    highWaterMark := log.nextOffset + count }

/-- Rotate a full active table. -/
def rotateIfFull : Log :=
  if log.config.memTableMaxSize ≤ log.active.size then log.rotateMemTable
  else log

/-- Append a batch and return its offsets. -/
def append (disk : Disk) (batch : MessageBatch) (faults : List AppendFaults) :
    Log × Disk × Except StorageError (List Int) :=
  if log.closed then (log, disk, .error .logClosed)
  else if log.config.messageFormatVersion = .v2 ∧ batch.producerId ≠ 0 then
    (log, disk, .error .transactionalRecordNeedsV3)
  else
    match log.writeMessages batch disk log.nextOffset batch.messages faults with
    | (log, disk, .error error) => (log, disk, .error error)
    | (log, disk, .ok offsets) =>
      ((log.publish batch.messages.length).rotateIfFull, disk, .ok offsets)

/-- The first table that holds an offset. -/
def findInTables (offset : Int) : List MemTable → Option Bytes
  | [] => none
  | table :: rest =>
    match table.find? offset with
    | some value => some value
    | none => findInTables offset rest

/-- The stored bytes of an offset, from the memtables or else from the
write-ahead log; an error of the latter counts as not found. -/
def lookupOffset (disk : Disk) (offset : Int) : Log × Option Bytes :=
  match findInTables offset log.tables with
  | some value => (log, some value)
  | none =>
    match log.wal.read disk offset with
    | (wal, .ok data) => ({ log with wal := wal }, some data)
    | (wal, .error _) => ({ log with wal := wal }, none)

/-- Collect messages from an offset on, for at most `count` offsets and while
the budget lasts; offsets that are not found are skipped.  A `none` budget is
no limit. -/
def collect (disk : Disk) : Nat → Int → Option Int → Log →
    Log × Except StorageError (List Message)
  | 0, _, _, log => (log, .ok [])
  | count + 1, offset, budget, log =>
    if budget.any (· ≤ 0) then (log, .ok [])
    else
      match log.lookupOffset disk offset with
      | (log, none) => collect disk count (offset + 1) budget log
      | (log, some data) =>
        match deserializeMessage data with
        | none => (log, .error .fault)
        | some message =>
          let size : Int := message.value.length + message.key.length
          match collect disk count (offset + 1) (budget.map (· - size)) log with
          | (log, .error error) => (log, .error error)
          | (log, .ok rest) =>
            (log, .ok ({ message with offset := offset } :: rest))

/-- Read messages from an offset until their keys and values reach `maxBytes`
or the high water mark is reached. -/
def read (disk : Disk) (offset : Int) (maxBytes : Int) :
    Log × Except StorageError (List Message) :=
  if log.closed then (log, .error .logClosed)
  else if offset < log.logStartOffset then (log, .error .offsetOutOfRange)
  else if log.highWaterMark ≤ offset then (log, .ok [])
  else
    collect disk (log.highWaterMark - offset).toNat offset (some maxBytes) log

/-- Read every message of an offset range. -/
def readRange (disk : Disk) (startOffset endOffset : Int) :
    Log × Except StorageError (List Message) :=
  if log.closed then (log, .error .logClosed)
  else collect disk (endOffset - startOffset).toNat startOffset none log

def flush (disk : Disk) (fault : Fault) : Log × Disk × Except StorageError Unit :=
  if log.closed then (log, disk, .error .logClosed)
  else
    let (wal, disk, result) := log.wal.sync disk fault
    ({ log with wal := wal }, disk, result)

def compact (choice : CompactionChoice) : Log × Except StorageError Unit :=
  if log.closed then (log, .error .logClosed)
  else
    ({ log with
        immutables :=
          runCompaction log.config.compaction choice log.immutables }, .ok ())

/-- Move the start of the log and drop segments before it. -/
def delete (disk : Disk) (beforeOffset : Int) :
    Log × Disk × Except StorageError Unit :=
  if log.closed then (log, disk, .error .logClosed)
  else
    let (wal, disk, result) := log.wal.truncate disk beforeOffset
    ({ log with wal := wal, logStartOffset := beforeOffset }, disk, result)

def close (disk : Disk) : Log × Disk :=
  if log.closed then (log, disk)
  else
    let (wal, disk) := log.wal.close disk
    ({ log with wal := wal, closed := true }, disk)

end Log

/-- Open the log of a directory. -/
def newLog (disk : Disk) (config : LogConfig) : Disk × Except StorageError Log :=
  match newWAL disk config.wal with
  | (disk, .error error) => (disk, .error error)
  | (disk, .ok wal) =>
    (disk, .ok (Log.recover ⟨config, wal, ∅, [], 0, 0, 0, false⟩ disk))

variable {low : Int} {α : Type*}

theorem slice_eq_nil (data : List α) {high : Int} (hle : high ≤ low) :
    slice data low high = [] := by
  rw [slice, drop_eq_nil_iff, length_take]
  omega

theorem slice_cons {data : List α} {high : Int} {entry : α} (hlow : 0 ≤ low)
    (hentry : data[low.toNat]? = some entry) (hlt : low < high) :
    slice data low high = entry :: slice data (low + 1) high := by
  have htake : (data.take high.toNat)[low.toNat]? = some entry := by
    rw [getElem?_take_of_lt (by omega), hentry]
  obtain ⟨hinside, hvalue⟩ := List.getElem?_eq_some_iff.mp htake
  rw [slice, slice, drop_eq_getElem_cons hinside]
  congr 2
  omega

theorem slice_succ {data : List α} (houtside : low < 0 ∨ data.length ≤ low)
    (high : Int) :
    slice data low high = slice data (low + 1) high := by
  rcases houtside with hneg | hlong
  · rw [slice, slice, show low.toNat = (low + 1).toNat by omega]
  · have hnil : ∀ start, (data.length : Int) ≤ start →
        slice data start high = [] := by
      intro start hstart
      rw [slice, drop_eq_nil_iff, length_take]
      omega
    rw [hnil low hlong, hnil (low + 1) (by omega)]

theorem slice_append_right (front back : List α) :
    slice (front ++ back) front.length (front.length + back.length) = back := by
  have hhigh : ((front.length : Int) + back.length).toNat =
      (front ++ back).length := by
    rw [length_append]
    omega
  rw [slice, hhigh, take_length, Int.toNat_natCast, drop_left]

/-- What a message counts towards a read's byte limit. -/
def Message.payload (message : Message) : Int :=
  message.value.length + message.key.length

/-- The messages a byte budget pays for.  A `none` budget is no limit. -/
def takeBudget : Option Int → List Message → List Message
  | _, [] => []
  | budget, message :: rest =>
    if budget.any (· ≤ 0) then []
    else message :: takeBudget (budget.map (· - message.payload)) rest

variable (messages : List Message)

theorem takeBudget_none : takeBudget none messages = messages := by
  induction messages with
  | nil => rfl
  | cons message rest ih => simp [takeBudget, ih]

theorem takeBudget_spent {budget : Option Int} (hspent : budget.any (· ≤ 0))
    (messages : List Message) : takeBudget budget messages = [] := by
  cases messages with
  | nil => rfl
  | cons message rest => simp [takeBudget, hspent]

/-- `page` is what a read of at most `maxBytes` returns of `messages`: as many
from the front as bring the keys and values to that size, or all of them. -/
structure IsPage (messages : List Message) (maxBytes : Int)
    (page : List Message) : Prop where
  consecutive : page <+: messages
  below : ∀ front, front <+: page → front ≠ page →
    (front.map Message.payload).sum < maxBytes
  enough : page = messages ∨ maxBytes ≤ (page.map Message.payload).sum

theorem takeBudget_isPage (maxBytes : Int) (messages : List Message) :
    IsPage messages maxBytes (takeBudget (some maxBytes) messages) := by
  induction messages generalizing maxBytes with
  | nil =>
    refine ⟨prefix_rfl, fun front hfront hne => ?_, Or.inl rfl⟩
    exact absurd (prefix_nil.mp hfront) hne
  | cons message rest ih =>
    by_cases hspent : maxBytes ≤ 0
    · rw [takeBudget_spent (by simpa using hspent)]
      refine ⟨List.nil_prefix, fun front hfront hne => ?_, Or.inr ?_⟩
      · exact absurd (prefix_nil.mp hfront) hne
      · simpa using hspent
    · have hpage := ih (maxBytes - message.payload)
      simp only [takeBudget, Option.any_some, hspent, decide_false,
        Bool.false_eq_true, ↓reduceIte, Option.map_some]
      refine ⟨(prefix_cons_inj message).mpr hpage.consecutive, ?_, ?_⟩
      · intro front hfront hne
        cases front with
        | nil => simp; omega
        | cons head tail =>
          obtain ⟨rfl, htail⟩ := cons_prefix_cons.mp hfront
          have hbelow := hpage.below tail htail fun h => hne (by rw [h])
          simp only [map_cons, sum_cons]
          omega
      · refine hpage.enough.imp (fun h => by rw [h]) fun h => ?_
        simp only [map_cons, sum_cons]
        omega

/-- The message comes back from storage as it was written: its fields fit the
format, which has room for its producer's identity. -/
@[mk_iff] structure Message.Kept (version : MessageFormatVersion) (message : Message) :
    Prop where
  storable : message.Storable
  identity : version = .v2 → message.producerId = 0 ∧ message.producerEpoch = 0

instance (version : MessageFormatVersion) (message : Message) :
    Decidable (message.Kept version) :=
  decidable_of_iff' _ (message.kept_iff version)

/-- Every message carries its position as its offset. -/
def InOrder : Prop :=
  ∀ (index : Nat) (message : Message),
    messages[index]? = some message → message.offset = index

/-- Messages that carry their positions as offsets and come back from storage
as they were written. -/
structure Numbered (version : MessageFormatVersion) (messages : List Message) :
    Prop where
  inOrder : InOrder messages
  kept : ∀ message ∈ messages, message.Kept version

namespace Log

variable {offset : Int} {tables : List MemTable}

theorem exists_of_findInTables {value : Bytes}
    (hfound : findInTables offset tables = some value) :
    ∃ table ∈ tables, table.find? offset = some value := by
  induction tables with
  | nil => simp [findInTables] at hfound
  | cons table rest ih =>
    unfold findInTables at hfound
    split at hfound
    next found hfind => exact ⟨table, mem_cons_self, hfind.trans hfound⟩
    · obtain ⟨other, hother, hfind⟩ := ih hfound
      exact ⟨other, mem_cons_of_mem table hother, hfind⟩

theorem not_has_of_findInTables (habsent : findInTables offset tables = none) :
    ∀ table ∈ tables, ¬ table.Has offset := by
  induction tables with
  | nil => simp
  | cons table rest ih =>
    unfold findInTables at habsent
    split at habsent
    · cases habsent
    next hfind =>
      intro other hother
      rcases mem_cons.mp hother with rfl | hrest
      · simp [MemTable.Has, hfind]
      · exact ih habsent other hrest

/-- The tables hold nothing but records, each at its offset. -/
def TablesHold (tables : List MemTable) (data : List Bytes) : Prop :=
  ∀ table ∈ tables, ∀ offset value, table.find? offset = some value →
    0 ≤ offset ∧ data[offset.toNat]? = some value

/-- The write-ahead log holds the records from `first` on, and what the
memtables hold are records. -/
structure Backed (log : Log) (disk : Disk) (first : Int) (data : List Bytes) :
    Prop where
  healthy : log.wal.Healthy disk first data
  tables : TablesHold log.tables data

/-- Some table has the offset, or its record is in its file in full. -/
def Covered (log : Log) (disk : Disk) (first offset : Int) : Prop :=
  (∃ table ∈ log.tables, table.Has offset) ∨
    first ≤ offset ∧ offset < log.wal.storedOffset disk

/-- The logs differ at most in the cursors of their file handles. -/
def Moved (log next : Log) : Prop :=
  ∃ wal, next = { log with wal := wal } ∧ wal.rewound = log.wal.rewound

theorem Moved.refl (log : Log) : log.Moved log := ⟨log.wal, rfl, rfl⟩

theorem Moved.trans {log middle next : Log} (hleft : log.Moved middle)
    (hright : middle.Moved next) : log.Moved next := by
  obtain ⟨wal, rfl, hwal⟩ := hleft
  obtain ⟨other, rfl, hother⟩ := hright
  exact ⟨other, rfl, hother.trans hwal⟩

section Reads

variable {log next : Log} {disk : Disk} {first : Int} {data : List Bytes}

theorem Moved.backed (hmoved : log.Moved next)
    (hbacked : log.Backed disk first data) : next.Backed disk first data := by
  obtain ⟨wal, rfl, hwal⟩ := hmoved
  exact ⟨hbacked.healthy.of_rewound hwal, hbacked.tables⟩

variable {offset : Int}

theorem Moved.covered (hmoved : log.Moved next)
    (hcovered : log.Covered disk first offset) :
    next.Covered disk first offset := by
  obtain ⟨wal, rfl, hwal⟩ := hmoved
  refine hcovered.imp_right fun hstored => ?_
  rwa [Wal.storedOffset_of_rewound hwal]

theorem lookupOffset_moved (log : Log) (disk : Disk) (offset : Int) :
    log.Moved (log.lookupOffset disk offset).1 := by
  have hread := log.wal.read_rewound disk offset
  unfold lookupOffset
  split
  · exact Moved.refl log
  · split <;> rename_i heq <;> rw [heq] at hread <;> exact ⟨_, rfl, hread⟩

theorem collect_moved (log : Log) (disk : Disk) (count : Nat) (offset : Int)
    (budget : Option Int) :
    log.Moved (Log.collect disk count offset budget log).1 := by
  induction count generalizing log offset budget with
  | zero => exact Moved.refl log
  | succ count ih =>
    have hlookup := log.lookupOffset_moved disk offset
    unfold Log.collect
    split
    · exact Moved.refl log
    · split
      next middle heq =>
        rw [heq] at hlookup
        exact hlookup.trans (ih middle _ _)
      next middle data heq =>
        rw [heq] at hlookup
        split
        · exact hlookup
        · rename_i message _
          have hrest := ih middle (offset + 1) (budget.map
            (· - ((message.value.length : Int) + message.key.length)))
          dsimp only
          split <;> rename_i hcollect <;> rw [hcollect] at hrest <;>
            exact hlookup.trans hrest

/-- Reading moves file handles and nothing else. -/
theorem read_moved (log : Log) (disk : Disk) (offset maxBytes : Int) :
    log.Moved (log.read disk offset maxBytes).1 := by
  unfold Log.read
  split
  · exact Moved.refl log
  split
  · exact Moved.refl log
  split
  · exact Moved.refl log
  · exact log.collect_moved disk _ _ _

theorem readRange_moved (log : Log) (disk : Disk) (startOffset endOffset : Int) :
    log.Moved (log.readRange disk startOffset endOffset).1 := by
  unfold Log.readRange
  split
  · exact Moved.refl log
  · exact log.collect_moved disk _ _ _

theorem Backed.lookupOffset_covered (hbacked : log.Backed disk first data)
    {entry : Bytes} (hentry : data[offset.toNat]? = some entry)
    (hcovered : log.Covered disk first offset) :
    ∃ next, log.lookupOffset disk offset = (next, some entry) ∧ log.Moved next := by
  unfold lookupOffset
  split
  next value hfound =>
    obtain ⟨table, htable, hfind⟩ := exists_of_findInTables hfound
    obtain rfl : entry = value := by
      have hvalue := (hbacked.tables table htable _ _ hfind).2
      exact Option.some.inj (hentry.symm.trans hvalue)
    exact ⟨log, rfl, Moved.refl log⟩
  next habsent =>
    have hstored := hcovered.resolve_left fun ⟨table, htable, hhas⟩ =>
      not_has_of_findInTables habsent table htable hhas
    have hread := hbacked.healthy.read_stored hstored.1 hentry hstored.2
    refine ⟨{ log with wal := (log.wal.read disk offset).1 }, ?_,
      _, rfl, log.wal.read_rewound disk offset⟩
    rw [← Prod.mk.eta (p := log.wal.read disk offset), hread]

theorem Backed.lookupOffset_outside (hbacked : log.Backed disk first data)
    (offset : Int) (houtside : offset < 0 ∨ data.length ≤ offset) :
    ∃ next, log.lookupOffset disk offset = (next, none) ∧ log.Moved next := by
  unfold lookupOffset
  split
  next value hfound =>
    obtain ⟨table, htable, hfind⟩ := exists_of_findInTables hfound
    obtain ⟨_, hvalue⟩ := hbacked.tables table htable _ _ hfind
    have hinside := (List.getElem?_eq_some_iff.mp hvalue).1
    omega
  · have hfirst := hbacked.healthy.lower
    have hread : (log.wal.read disk offset).2 = .error .offsetOutOfRange :=
      hbacked.healthy.read_out_of_range (by omega)
    refine ⟨{ log with wal := (log.wal.read disk offset).1 }, ?_,
      _, rfl, log.wal.read_rewound disk offset⟩
    rw [← Prod.mk.eta (p := log.wal.read disk offset), hread]

/-- Collecting over covered offsets returns the messages there, as many as the
budget pays for. -/
theorem Backed.collect {version : MessageFormatVersion} {messages : List Message}
    (hbacked : log.Backed disk first (messages.map (serializeMessage version)))
    (hnumbered : Numbered version messages) (count : Nat) (offset : Int)
    (budget : Option Int)
    (hcovered : ∀ probe, offset ≤ probe → 0 ≤ probe →
      probe < messages.length → log.Covered disk first probe) :
    ∃ next, Log.collect disk count offset budget log = (next, .ok (takeBudget budget
          (slice messages offset (offset + count)))) := by
  induction count generalizing log offset budget with
  | zero =>
    refine ⟨log, ?_⟩
    rw [slice_eq_nil messages (by simp)]
    simp [Log.collect, takeBudget]
  | succ count ih =>
    by_cases hspent : budget.any (· ≤ 0)
    · refine ⟨log, ?_⟩
      rw [takeBudget_spent hspent, Log.collect, if_pos hspent]
    have hshift : offset + 1 + (count : Int) = offset + (count + 1 : Nat) := by
      push_cast
      ring
    by_cases houtside : offset < 0 ∨ messages.length ≤ offset
    · obtain ⟨middle, hlookup, hmoved⟩ :=
        hbacked.lookupOffset_outside offset (by simpa using houtside)
      obtain ⟨next, hrest⟩ := ih (hmoved.backed hbacked) (offset + 1)
        budget fun probe hprobe hlower hupper =>
          hmoved.covered (hcovered probe (by omega) hlower hupper)
      refine ⟨next, ?_⟩
      rw [Log.collect, if_neg hspent, hlookup, slice_succ houtside, ← hshift]
      exact hrest
    · have hinside : offset.toNat < messages.length := by omega
      obtain ⟨message, hmessage⟩ : ∃ message,
          messages[offset.toNat]? = some message :=
        ⟨_, getElem?_eq_getElem hinside⟩
      have hentry : (messages.map (serializeMessage version))[offset.toNat]? =
          some (serializeMessage version message) := by
        simp [hmessage]
      obtain ⟨middle, hlookup, hmoved⟩ :=
        hbacked.lookupOffset_covered hentry
          (hcovered offset le_rfl (by omega) (by omega))
      obtain ⟨next, hrest⟩ := ih (hmoved.backed hbacked) (offset + 1)
        (budget.map (· - message.payload)) fun probe hprobe hlower hupper =>
          hmoved.covered (hcovered probe (by omega) hlower hupper)
      refine ⟨next, ?_⟩
      have hsame : { message with offset := offset } = message := by
        rw [show offset = message.offset by
          rw [hnumbered.inOrder _ _ hmessage]; omega]
      rw [Log.collect, hlookup,
        slice_cons (by omega) hmessage (by push_cast; omega), ← hshift]
      have hkept := hnumbered.kept message (mem_of_getElem? hmessage)
      simp only [deserializeMessage_serializeMessage hkept.storable
        hkept.identity, takeBudget, hspent]
      simp only [Message.payload] at hrest ⊢
      simp [hrest, hsame]

end Reads

/-- An open log with its counters at the end of its records. -/
structure Sound (log : Log) (disk : Disk) (first : Int) (data : List Bytes) :
    Prop extends log.Backed disk first data where
  opened : log.closed = false
  next_eq : log.nextOffset = data.length
  hwm_eq : log.highWaterMark = data.length

section SoundReads

variable {log next : Log} {disk : Disk} {first : Int}
  {version : MessageFormatVersion} {messages : List Message}

theorem Moved.sound {data : List Bytes} (hmoved : log.Moved next)
    (hsound : log.Sound disk first data) : next.Sound disk first data := by
  have hbacked := hmoved.backed hsound.toBacked
  obtain ⟨wal, rfl, -⟩ := hmoved
  exact ⟨hbacked, hsound.opened, hsound.next_eq, hsound.hwm_eq⟩

variable
  (hsound : log.Sound disk first (messages.map (serializeMessage version)))
  (hnumbered : Numbered version messages)

include hsound hnumbered

/-- A read over covered offsets returns a page of the messages from its offset
on. -/
theorem Sound.read {offset : Int} (maxBytes : Int)
    (hstart : log.logStartOffset ≤ offset)
    (hcovered : ∀ probe, offset ≤ probe → 0 ≤ probe →
      probe < messages.length → log.Covered disk first probe) :
    ∃ next, log.read disk offset maxBytes = (next, .ok (takeBudget
      (some maxBytes) (messages.drop offset.toNat))) := by
  have hhwm := hsound.hwm_eq
  rw [length_map] at hhwm
  unfold Log.read
  rw [if_neg (by simp [hsound.opened]), if_neg (by omega)]
  split
  next hcaught =>
    refine ⟨log, ?_⟩
    rw [drop_eq_nil_of_le (by omega)]
    rfl
  · obtain ⟨next, hcollect⟩ := hsound.collect hnumbered
      (log.highWaterMark - offset).toNat offset (some maxBytes) hcovered
    refine ⟨next, ?_⟩
    rw [hcollect, slice, take_of_length_le (by omega)]

/-- Reading a range of covered offsets returns every message in it. -/
theorem Sound.readRange {startOffset : Int} (endOffset : Int)
    (hcovered : ∀ probe, startOffset ≤ probe → 0 ≤ probe →
      probe < messages.length → log.Covered disk first probe) :
    ∃ next, log.readRange disk startOffset endOffset =
      (next, .ok (slice messages startOffset endOffset)) := by
  obtain ⟨next, hcollect⟩ := hsound.collect hnumbered
    (endOffset - startOffset).toNat startOffset none hcovered
  refine ⟨next, ?_⟩
  rw [Log.readRange, if_neg (by simp [hsound.opened]), hcollect, takeBudget_none]
  by_cases hle : startOffset ≤ endOffset
  · rw [show startOffset + ((endOffset - startOffset).toNat : Int) = endOffset by
      omega]
  · rw [slice_eq_nil messages (by omega), slice_eq_nil messages (by omega)]

end SoundReads

end Log

end Streambus
