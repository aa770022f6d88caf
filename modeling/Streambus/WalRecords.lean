/-
One segment file of the write-ahead log.  A segment holds records
`[length:4][offset:8][crc:4][data]`; it is written through a buffered writer,
read through a buffered reader on the same handle, and indexed by an in-memory
list of record positions that is saved beside it.  A segment created by this
process writes in append mode; a segment opened from disk writes at its
cursor.  A file holding whole records is read back record by record; a file
cut inside a record fails the scan and every read that reaches the cut.
-/
import Streambus.BufferedFile
import Streambus.OrderedMap
import Streambus.Tiling

namespace Streambus

/-- The errors the storage layer reports. `io` stands for an error of the
operating system: a failed or short write, a failed fsync, a closed file.
`fault` stands for a run-time panic. -/
inductive StorageError where
  | offsetOutOfRange
  | logClosed
  | checksumMismatch
  | transactionalRecordNeedsV3
  | eof
  | unexpectedEof
  | io
  | fault
deriving Repr, DecidableEq

/-- One offset-to-position mapping. -/
structure IndexEntry where
  offset : Int
  position : Nat
deriving Repr, DecidableEq

/-- The partition's directory: the segment files and the index files, both by
base offset. -/
structure Disk where
  segments : OrderedMap Int Bytes
  indexes : OrderedMap Int (List IndexEntry)
deriving DecidableEq

namespace Disk

def empty : Disk := ⟨∅, ∅⟩

/-- The bytes of a segment file. -/
def content (disk : Disk) (base : Int) : Bytes :=
  (disk.segments.find? base).getD []

/-- Replace the bytes of a segment file.  A file that was removed does not come
back. -/
def setContent (disk : Disk) (base : Int) (bytes : Bytes) : Disk :=
  match disk.segments.find? base with
  | none => disk
  | some _ => { disk with segments := disk.segments.insert base bytes }

/-- Create a segment file; an existing one is kept as it is. -/
def create (disk : Disk) (base : Int) : Disk :=
  match disk.segments.find? base with
  | some _ => disk
  | none => { disk with segments := disk.segments.insert base [] }

def setIndex (disk : Disk) (base : Int) (entries : List IndexEntry) : Disk :=
  { disk with indexes := disk.indexes.insert base entries }

variable (disk : Disk)

@[simp] theorem setContent_indexes (base : Int) (bytes : Bytes) :
    (disk.setContent base bytes).indexes = disk.indexes := by
  unfold setContent
  split <;> rfl

theorem find?_setContent {base : Int} {old : Bytes}
    (hfile : disk.segments.find? base = some old) (bytes : Bytes)
    (probe : Int) :
    (disk.setContent base bytes).segments.find? probe =
      if base = probe then some bytes else disk.segments.find? probe := by
  simp [setContent, hfile, OrderedMap.find?_insert]

end Disk

/-- The in-memory index of a segment; `dirty` when it differs from its file. -/
structure Index where
  entries : List IndexEntry
  dirty : Bool
deriving Repr, DecidableEq

namespace Index

/-- Load the index file, or create an empty one. -/
def load (disk : Disk) (base : Int) : Index × Disk :=
  match disk.indexes.find? base with
  | some entries => (⟨entries, false⟩, disk)
  | none => (⟨[], false⟩, disk.setIndex base [])

variable (index : Index)

def add (offset : Int) (position : Nat) : Index :=
  ⟨index.entries ++ [⟨offset, position⟩], true⟩

/-- The position of the last entry at or before an offset. -/
def lookup (offset : Int) : Option Nat :=
  let found := searchList index.entries fun entry =>
    decide (entry.offset > offset)
  if found = 0 then none
  else index.entries[found - 1]?.map IndexEntry.position

/-- Write the index to its file if it changed. -/
def sync (disk : Disk) (base : Int) : Index × Disk :=
  if index.dirty then
    ({ index with dirty := false }, disk.setIndex base index.entries)
  else (index, disk)

end Index

structure WalSegment where
  baseOffset : Int
  nextOffset : Int
  size : Nat
  file : OpenFile
  writer : BufWriter
  index : Index
deriving Repr, DecidableEq

/-- What goes wrong with one write-out of a segment: the device stops taking
bytes after `quota` of them, or the fsync fails. -/
structure Fault where
  quota : Option Nat
  fsyncFails : Bool
deriving Repr, DecidableEq

def Fault.none : Fault := ⟨Option.none, false⟩

def recordHeaderSize : Nat := 16

/-- The header of a record.  The length is stored modulo `2 ^ 32`. -/
def recordHeader (offset : Int) (data : Bytes) : Bytes :=
  beBytes 4 data.length ++ putInt 8 offset ++ beBytes 4 (crc32c data).toNat

def headerLength (header : Bytes) : Nat := beNat (header.take 4)

def headerOffset (header : Bytes) : Int := getInt ((header.drop 4).take 8)

def headerCrc (header : Bytes) : Nat := beNat ((header.drop 12).take 4)

/-- Open a new segment file for appending. -/
def createWALSegment (disk : Disk) (base : Int) : WalSegment × Disk :=
  let (index, disk) := Index.load (disk.create base) base
  (⟨base, base, 0, ⟨0, true, false⟩, ⟨[], false⟩, index⟩, disk)

namespace WalSegment

variable (segment : WalSegment)

/-- The segment's file as its buffered writer sees it. -/
def sink (disk : Disk) (quota : Option Nat) :
    BufferedFile :=
  ⟨disk.content segment.baseOffset, segment.file, segment.writer, quota⟩

def withSink (sink : BufferedFile) : WalSegment :=
  { segment with file := sink.file, writer := sink.writer }

/-- Write one record: its header, then its data.  The size grows by the record
length computed in 32 bits. -/
def append (disk : Disk) (offset : Int) (data : Bytes) (quota : Option Nat) :
    WalSegment × Disk × Except StorageError Unit :=
  let (headed, ok) :=
    (segment.sink disk quota).put (recordHeader offset data)
  if ok then
    let (filled, ok) := headed.put data
    let disk := disk.setContent segment.baseOffset filled.content
    let next := segment.withSink filled
    if ok then
      ({ next with
          size := segment.size + (recordHeaderSize + data.length) % 2 ^ 32
          nextOffset := offset + 1
          index := segment.index.add offset segment.size }, disk, .ok ())
    else (next, disk, .error .io)
  else
    (segment.withSink headed,
      disk.setContent segment.baseOffset headed.content, .error .io)

/-- Read records one after the other until the wanted offset.  Every round
consumes a header, so the number of bytes bounds the rounds. -/
def readLoop (offset : Int) : Nat → BufReader → BufReader × Except StorageError Bytes
  | 0, reader => (reader, .error .offsetOutOfRange)
  | fuel + 1, reader =>
    match reader.readFull recordHeaderSize with
    | (reader, .error .eof) => (reader, .error .offsetOutOfRange)
    | (reader, .error .unexpectedEof) => (reader, .error .unexpectedEof)
    | (reader, .ok header) =>
      match reader.readFull (headerLength header) with
      | (reader, .error .eof) => (reader, .error .eof)
      | (reader, .error .unexpectedEof) => (reader, .error .unexpectedEof)
      | (reader, .ok data) =>
        if headerOffset header = offset then
          if (crc32c data).toNat = headerCrc header then
            (reader, .ok data)
          else (reader, .error .checksumMismatch)
        else if headerOffset header > offset then
          (reader, .error .offsetOutOfRange)
        else readLoop offset fuel reader

/-- Read one record: seek to the indexed position and scan from there.  The
handle is left where the buffered reader stopped reading ahead. -/
def read (disk : Disk) (offset : Int) : WalSegment × Except StorageError Bytes :=
  if offset < segment.baseOffset ∨ segment.nextOffset ≤ offset then
    (segment, .error .offsetOutOfRange)
  else if segment.file.closed then (segment, .error .io)
  else
    let content := disk.content segment.baseOffset
    let position := (segment.index.lookup offset).getD 0
    let (reader, result) :=
      readLoop offset (content.length + 1) ⟨content, position, []⟩
    ({ segment with file := { segment.file with cursor := reader.cursor } }, result)

/-- Flush the writer, then fsync the file, then save the index. -/
def sync (disk : Disk) (fault : Fault) :
    WalSegment × Disk × Except StorageError Unit :=
  let (flushed, ok) := (segment.sink disk fault.quota).flush
  let disk := disk.setContent segment.baseOffset flushed.content
  let next := segment.withSink flushed
  if ok && !segment.file.closed && !fault.fsyncFails then
    let (index, disk) := segment.index.sync disk segment.baseOffset
    ({ next with index := index }, disk, .ok ())
  else (next, disk, .error .io)

/-- Flush the writer, close the file and save the index. -/
def close (disk : Disk) : WalSegment × Disk × Except StorageError Unit :=
  let (flushed, ok) := (segment.sink disk none).flush
  let disk := disk.setContent segment.baseOffset flushed.content
  let next := segment.withSink flushed
  if ok && !segment.file.closed then
    let (index, disk) := segment.index.sync disk segment.baseOffset
    ({ next with
        file := { flushed.file with closed := true }
        index := index }, disk, .ok ())
  else (next, disk, .error .io)

/-- Walk the records of a segment file, finding the next offset and the size.
An empty index gets an entry for the first record seen. -/
def scanLoop : Nat → Bytes → Nat → WalSegment → WalSegment × Except StorageError Unit
  | 0, _, _, segment => (segment, .ok ())
  | fuel + 1, rest, position, segment =>
    if rest = [] then ({ segment with size := position }, .ok ())
    else if rest.length < recordHeaderSize then
      (segment, .error .unexpectedEof)
    else
      let length := headerLength rest
      let offset := headerOffset rest
      let index :=
        if segment.index.entries = [] then segment.index.add offset position
        else segment.index
      if rest.length - recordHeaderSize < length then
        ({ segment with index := index }, .error .eof)
      else
        scanLoop fuel (rest.drop (recordHeaderSize + length))
          (position + recordHeaderSize + length)
          { segment with nextOffset := offset + 1, index := index }

end WalSegment

/-- Open a segment file: load its index and scan its records.  A complete scan
ends with the handle at the end of the file and saves a rebuilt index; a
failed scan closes the segment, which saves it too. -/
def openWALSegment (disk : Disk) (base : Int) :
    Disk × Except StorageError WalSegment :=
  let content := disk.content base
  let (index, disk) := Index.load disk base
  let opened : WalSegment :=
    ⟨base, base, 0, ⟨content.length, false, false⟩, ⟨[], false⟩, index⟩
  match WalSegment.scanLoop (content.length + 1) content 0 opened with
  | (segment, .ok ()) =>
    let (index, disk) := segment.index.sync disk base
    (disk, .ok { segment with index := index })
  | (segment, .error error) => ((segment.index.sync disk base).2, .error error)

open List

/-- The bytes of one record. -/
def encodeRecord (offset : Int) (data : Bytes) : Bytes :=
  recordHeader offset data ++ data

/-- The bytes of a run of records with consecutive offsets. -/
def encodeFrom (offset : Int) : List Bytes → Bytes
  | [] => []
  | data :: rest => encodeRecord offset data ++ encodeFrom (offset + 1) rest

/-- A run of records whose lengths and offsets fit their header fields. -/
structure Sized (base : Int) (records : List Bytes) : Prop where
  lower : 0 ≤ base
  upper : base + records.length < 2 ^ 63
  short : ∀ data ∈ records, recordHeaderSize + data.length < 2 ^ 32

variable {base : Int} {data : Bytes} {records : List Bytes} (offset : Int)
  {entries : List IndexEntry}

theorem Sized.tail {rest : List Bytes} (hsized : Sized base (data :: rest)) :
    Sized (base + 1) rest where
  lower := by have := hsized.lower; omega
  upper := by
    have := hsized.upper
    simp only [length_cons] at this
    omega
  short record hrecord := hsized.short record (mem_cons_of_mem data hrecord)

theorem Sized.base_lt (hsized : Sized base records) : base < 2 ^ 63 := by
  have := hsized.upper
  omega

variable {front back : List Bytes}

theorem Sized.left (hsized : Sized base (front ++ back)) : Sized base front where
  lower := hsized.lower
  upper := by
    have := hsized.upper
    simp only [length_append] at this
    omega
  short record hrecord := hsized.short record (mem_append_left back hrecord)

theorem Sized.right (hsized : Sized base (front ++ back)) :
    Sized (base + front.length) back where
  lower := by have := hsized.lower; omega
  upper := by
    have := hsized.upper
    simp only [length_append] at this
    omega
  short record hrecord := hsized.short record (mem_append_right front hrecord)

@[simp] theorem recordHeader_length (data : Bytes) :
    (recordHeader offset data).length = recordHeaderSize := by
  simp [recordHeader, recordHeaderSize]

@[simp] theorem encodeRecord_length (data : Bytes) :
    (encodeRecord offset data).length = recordHeaderSize + data.length := by
  simp [encodeRecord]

theorem encodeFrom_append (front back : List Bytes) :
    encodeFrom offset (front ++ back) =
      encodeFrom offset front ++ encodeFrom (offset + front.length) back := by
  induction front generalizing offset with
  | nil => simp [encodeFrom]
  | cons data rest ih =>
    simp only [cons_append, encodeFrom, ih, append_assoc, length_cons]
    congr 3
    push_cast
    ring

theorem encodeFrom_concat (records : List Bytes) (data : Bytes) :
    encodeFrom offset (records ++ [data]) = encodeFrom offset records ++
        encodeRecord (offset + records.length) data := by
  simp [encodeFrom_append, encodeFrom]

/-- Every record takes at least a header, so the bytes bound the records. -/
theorem length_le_encodeFrom (records : List Bytes) :
    records.length ≤ (encodeFrom offset records).length := by
  induction records generalizing offset with
  | nil => simp [encodeFrom]
  | cons data rest ih =>
    have := ih (offset + 1)
    simp only [encodeFrom, length_cons, length_append,
      encodeRecord_length, recordHeaderSize]
    omega

theorem headerLength_recordHeader
    (hshort : recordHeaderSize + data.length < 2 ^ 32) (rest : Bytes) :
    headerLength (recordHeader offset data ++ rest) = data.length := by
  have htake : (recordHeader offset data ++ rest).take 4 = beBytes 4 data.length := by
    simp [recordHeader]
  rw [headerLength, htake, beNat_beBytes]
  norm_num [recordHeaderSize] at hshort ⊢
  omega

theorem headerOffset_recordHeader {offset : Int} (hlower : 0 ≤ offset)
    (hupper : offset < 2 ^ 63) (data rest : Bytes) :
    headerOffset (recordHeader offset data ++ rest) = offset := by
  have hdrop : ((recordHeader offset data ++ rest).drop 4).take 8 =
      putInt 8 offset := by
    simp [recordHeader]
  rw [headerOffset, hdrop, getInt_putInt_eight (by omega) hupper]

theorem headerCrc_recordHeader (data rest : Bytes) :
    headerCrc (recordHeader offset data ++ rest) = (crc32c data).toNat := by
  have hdrop : ((recordHeader offset data ++ rest).drop 12).take 4 =
      beBytes 4 (crc32c data).toNat := by
    have hsplit : recordHeader offset data ++ rest =
        (beBytes 4 data.length ++ putInt 8 offset) ++
          (beBytes 4 (crc32c data).toNat ++ rest) := by
      simp [recordHeader]
    rw [hsplit, drop_append_of_le_length (by simp), drop_eq_nil_of_le (by simp)]
    simp
  rw [headerCrc, hdrop, beNat_beBytes, Nat.mod_eq_of_lt]
  exact (crc32c data).toNat_lt

namespace WalSegment

variable {data : Bytes} {reader : BufReader} {offset : Int} {fuel cut : Nat}
  {rest : Bytes}

/-- Reading at a whole record: return it, stop past the target, or go on. -/
theorem readLoop_record (hstream : reader.stream = encodeRecord offset data ++ rest)
    (hshort : recordHeaderSize + data.length < 2 ^ 32) (hlower : 0 ≤ offset)
    (hupper : offset < 2 ^ 63) (target : Int) (fuel : Nat) :
    ∃ next : BufReader, next.stream = rest ∧ readLoop target (fuel + 1) reader =
        if offset = target then (next, .ok data)
        else if offset > target then (next, .error .offsetOutOfRange)
        else readLoop target fuel next := by
  have hbytes : reader.stream = recordHeader offset data ++ (data ++ rest) := by
    simp [hstream, encodeRecord]
  have hheader : recordHeaderSize ≤ reader.stream.length := by simp [hbytes]
  obtain ⟨headed, hheader, hheaded⟩ := reader.readFull_of_le hheader
  rw [hbytes, take_left' (by simp)] at hheader
  rw [hbytes, drop_left' (by simp)] at hheaded
  have hfill : data.length ≤ headed.stream.length := by simp [hheaded]
  obtain ⟨filled, hfill, hfilled⟩ := headed.readFull_of_le hfill
  rw [hheaded, take_left' rfl] at hfill
  rw [hheaded, drop_left' rfl] at hfilled
  have hlength := headerLength_recordHeader offset hshort []
  have hoffset := headerOffset_recordHeader hlower hupper data []
  have hcrc := headerCrc_recordHeader offset data []
  simp only [append_nil] at hlength hoffset hcrc
  refine ⟨filled, hfilled, ?_⟩
  simp only [readLoop, hheader, hlength, hfill, hoffset, hcrc, ↓reduceIte]

variable {before : List Bytes}

/-- Reading at a record boundary reaches the record of the target offset. -/
theorem readLoop_reaches {start : Int}
    (hstream : reader.stream = encodeFrom start (before ++ [data]) ++ rest)
    (hsized : Sized start (before ++ [data])) (hfuel : before.length < fuel) :
    ∃ next, readLoop (start + before.length) fuel reader = (next, .ok data) := by
  induction before generalizing reader start fuel with
  | nil =>
    cases fuel with
    | zero => simp at hfuel
    | succ fuel =>
      have hrecord : reader.stream = encodeRecord start data ++ rest := by
        simpa [encodeFrom] using hstream
      obtain ⟨next, -, hloop⟩ := readLoop_record hrecord
        (hsized.short data (by simp)) hsized.lower hsized.base_lt start fuel
      exact ⟨next, by simpa using hloop⟩
  | cons first before ih =>
    cases fuel with
    | zero => simp at hfuel
    | succ fuel =>
      have hrecord : reader.stream = encodeRecord start first ++
          (encodeFrom (start + 1) (before ++ [data]) ++ rest) := by
        simpa [encodeFrom] using hstream
      obtain ⟨next, hnext, hloop⟩ := readLoop_record hrecord
        (hsized.short first (by simp)) hsized.lower hsized.base_lt
        (start + (first :: before).length) fuel
      have htarget : start + ((first :: before).length : Int) =
          start + 1 + before.length := by
        push_cast [length_cons]; ring
      rw [if_neg (by simp; omega), if_neg (by simp; omega)] at hloop
      rw [hloop, htarget]
      exact ih hnext hsized.tail (by simpa using hfuel)

theorem readLoop_torn (hstream : reader.stream = (encodeRecord offset data).take cut)
    (hshort : recordHeaderSize + data.length < 2 ^ 32)
    (hcut : cut < recordHeaderSize + data.length) (target : Int) (fuel : Nat) :
    ∃ next error, readLoop target fuel reader = (next, .error error) := by
  cases fuel with
  | zero => exact ⟨reader, _, rfl⟩
  | succ fuel =>
    have hlength : reader.stream.length = cut := by
      rw [hstream, length_take, encodeRecord_length]
      omega
    by_cases hheader : cut < recordHeaderSize
    · obtain ⟨next, hread⟩ := reader.readFull_of_lt (hlength ▸ hheader)
      by_cases hempty : reader.stream = []
      · exact ⟨next, .offsetOutOfRange, by simp [readLoop, hread, hempty]⟩
      · exact ⟨next, .unexpectedEof, by simp [readLoop, hread, hempty]⟩
    · obtain ⟨headed, hread, hheaded⟩ :=
        reader.readFull_of_le (hlength ▸ not_lt.mp hheader)
      have hfront : reader.stream.take recordHeaderSize =
          recordHeader offset data := by
        rw [hstream, take_take, Nat.min_eq_left (by omega), encodeRecord,
          take_left' (by simp)]
      have hfield := headerLength_recordHeader offset hshort []
      rw [append_nil] at hfield
      have hrest : headed.stream.length < data.length := by
        rw [hheaded, length_drop]
        omega
      obtain ⟨next, hdata⟩ := headed.readFull_of_lt hrest
      rw [hfront] at hread
      by_cases hempty : headed.stream = []
      · exact ⟨next, .eof, by simp [readLoop, hread, hfield, hdata, hempty]⟩
      · exact ⟨next, .unexpectedEof, by simp [readLoop, hread, hfield, hdata, hempty]⟩

/-- Reading towards a record that the stream does not hold in full fails. -/
theorem readLoop_cut {start : Int}
    (hstream : reader.stream = (encodeFrom start (before ++ [data])).take cut)
    (hsized : Sized start (before ++ [data]))
    (hcut : cut < (encodeFrom start (before ++ [data])).length) (fuel : Nat) :
    ∃ next error, readLoop (start + before.length) fuel reader =
      (next, .error error) := by
  induction before generalizing reader start cut fuel with
  | nil =>
    simp only [nil_append, encodeFrom, append_nil] at hstream hcut
    exact readLoop_torn hstream (hsized.short data (by simp))
      (by simpa using hcut) _ fuel
  | cons first before ih =>
    simp only [cons_append, encodeFrom] at hstream hcut
    by_cases htorn : cut < recordHeaderSize + first.length
    · rw [take_append_of_le_length (by simp; omega)] at hstream
      exact readLoop_torn hstream (hsized.short first (by simp)) htorn _ fuel
    · cases fuel with
      | zero => exact ⟨reader, _, rfl⟩
      | succ fuel =>
        rw [take_append, take_of_length_le (by simp; omega)] at hstream
        obtain ⟨next, hnext, hloop⟩ := readLoop_record hstream
          (hsized.short first (by simp)) hsized.lower hsized.base_lt
          (start + (first :: before).length) fuel
        have htarget : start + ((first :: before).length : Int) =
            start + 1 + before.length := by
          push_cast [length_cons]; ring
        rw [if_neg (by simp; omega), if_neg (by simp; omega)] at hloop
        rw [hloop, htarget]
        refine ih hnext hsized.tail ?_ fuel
        simp only [length_append, encodeRecord_length] at hcut ⊢
        omega

theorem scanLoop_record (fuel : Nat)
    (hshort : recordHeaderSize + data.length < 2 ^ 32) (hlower : 0 ≤ offset)
    (hupper : offset < 2 ^ 63) (rest : Bytes) (position : Nat)
    (segment : WalSegment) :
    scanLoop (fuel + 1) (encodeRecord offset data ++ rest) position segment =
      scanLoop fuel rest (position + recordHeaderSize + data.length)
        { segment with
          nextOffset := offset + 1
          index := if segment.index.entries = [] then
              segment.index.add offset position
            else segment.index } := by
  have hnonempty : encodeRecord offset data ++ rest ≠ [] := by
    intro hnil
    have := congrArg List.length hnil
    simp [recordHeaderSize] at this
  have hdrop : (encodeRecord offset data ++ rest).drop
      (recordHeaderSize + data.length) = rest :=
    drop_left' (by simp)
  have hlength := headerLength_recordHeader offset hshort (data ++ rest)
  have hoffset := headerOffset_recordHeader hlower hupper data (data ++ rest)
  rw [← append_assoc, ← encodeRecord] at hlength hoffset
  rw [scanLoop, if_neg hnonempty, if_neg (by simp; omega)]
  simp only [hlength, hoffset, hdrop]
  rw [if_neg (by simp; omega)]

/-- What a scan leaves in the index: an empty one gets the first record. -/
def rebuilt (index : Index) (offset : Int) (position : Nat)
    (records : List Bytes) : Index :=
  if index.entries = [] ∧ records ≠ [] then index.add offset position else index

/-- A scan of whole records finds the next offset and the size. -/
theorem scanLoop_encodeFrom {base : Int} {records : List Bytes}
    (hsized : Sized base records) (hfuel : records.length < fuel)
    (position : Nat) {segment : WalSegment}
    (hnext : segment.nextOffset = base) :
    scanLoop fuel (encodeFrom base records) position segment =
      ({ segment with
          nextOffset := base + records.length
          size := position + (encodeFrom base records).length
          index := rebuilt segment.index base position records }, .ok ()) := by
  induction records generalizing base fuel position segment with
  | nil =>
    cases fuel with
    | zero => simp at hfuel
    | succ fuel => simp [scanLoop, encodeFrom, rebuilt, ← hnext]
  | cons data rest ih =>
    cases fuel with
    | zero => simp at hfuel
    | succ fuel =>
      rw [encodeFrom, scanLoop_record fuel (hsized.short data (by simp))
        hsized.lower hsized.base_lt,
        ih hsized.tail (by simpa using hfuel) _ rfl]
      have hindex : rebuilt (if segment.index.entries = [] then
            segment.index.add base position else segment.index)
          (base + 1) (position + recordHeaderSize + data.length) rest =
          rebuilt segment.index base position (data :: rest) := by
        by_cases hentries : segment.index.entries = []
        · simp [rebuilt, hentries, Index.add]
        · simp [rebuilt, hentries]
      simp only [hindex, length_append, encodeRecord_length, length_cons]
      congr 2
      · push_cast; ring
      · omega

theorem scanLoop_torn {base : Int} {records : List Bytes}
    (hsized : Sized base (records ++ [data])) (hpos : 0 < cut)
    (hcut : cut < recordHeaderSize + data.length)
    (hfuel : records.length < fuel) (position : Nat) (segment : WalSegment) :
    ∃ last error, scanLoop fuel (encodeFrom base records ++
        (encodeRecord (base + records.length) data).take cut) position segment =
      (last, .error error) := by
  induction records generalizing base fuel position segment with
  | nil =>
    cases fuel with
    | zero => simp at hfuel
    | succ fuel =>
      simp only [encodeFrom, nil_append, length_nil, Nat.cast_zero, add_zero]
      have hlength : ((encodeRecord base data).take cut).length = cut := by
        rw [length_take, encodeRecord_length]
        omega
      have hnonempty : (encodeRecord base data).take cut ≠ [] := by
        intro hnil
        rw [hnil] at hlength
        simp at hlength
        omega
      rw [scanLoop, if_neg hnonempty, hlength]
      by_cases hheader : cut < recordHeaderSize
      · exact ⟨segment, .unexpectedEof, by rw [if_pos hheader]⟩
      · have hfront : (encodeRecord base data).take cut =
            recordHeader base data ++ data.take (cut - recordHeaderSize) := by
          rw [encodeRecord, take_append, take_of_length_le
            (by simp; omega), recordHeader_length]
        have hfield : headerLength ((encodeRecord base data).take cut) =
            data.length := by
          rw [hfront]
          exact headerLength_recordHeader base (hsized.short data (by simp)) _
        rw [if_neg hheader]
        rw [if_pos (by omega)]
        exact ⟨_, .eof, rfl⟩
  | cons first records ih =>
    cases fuel with
    | zero => simp at hfuel
    | succ fuel =>
      have hoffset : base + ((first :: records).length : Int) =
          base + 1 + records.length := by
        push_cast [length_cons]; ring
      rw [encodeFrom, append_assoc, scanLoop_record fuel
        (hsized.short first (by simp)) hsized.lower hsized.base_lt, hoffset]
      exact ih hsized.tail (by simpa using hfuel) _ _

end WalSegment

/-- The number of records at the front of a byte string that are there in
full. -/
def completeRecords : Nat → Bytes → Nat
  | 0, _ => 0
  | fuel + 1, bytes =>
    if bytes.length < recordHeaderSize + headerLength bytes ∨
        bytes.length < recordHeaderSize then 0
    else
      completeRecords fuel (bytes.drop (recordHeaderSize + headerLength bytes)) + 1

theorem completeRecords_torn (fuel : Nat) {offset : Int}
    (hshort : recordHeaderSize + data.length < 2 ^ 32) {cut : Nat}
    (hcut : cut < recordHeaderSize + data.length) :
    completeRecords fuel ((encodeRecord offset data).take cut) = 0 := by
  cases fuel with
  | zero => rfl
  | succ fuel =>
    have hlength : ((encodeRecord offset data).take cut).length = cut := by
      rw [length_take, encodeRecord_length]
      omega
    rw [completeRecords, hlength, if_pos]
    by_cases hheader : cut < recordHeaderSize
    · exact Or.inr hheader
    · have hfront : (encodeRecord offset data).take cut =
          recordHeader offset data ++ data.take (cut - recordHeaderSize) := by
        rw [encodeRecord, take_append, take_of_length_le
          (by simp; omega), recordHeader_length]
      rw [hfront, headerLength_recordHeader offset hshort]
      exact Or.inl hcut

theorem completeRecords_record (fuel : Nat) {offset : Int}
    (hshort : recordHeaderSize + data.length < 2 ^ 32) (rest : Bytes) :
    completeRecords (fuel + 1) (encodeRecord offset data ++ rest) =
      completeRecords fuel rest + 1 := by
  have hlength := headerLength_recordHeader offset hshort (data ++ rest)
  rw [← append_assoc, ← encodeRecord] at hlength
  rw [completeRecords, hlength, if_neg (by simp; omega), drop_left' (by simp)]

/-- In a file cut anywhere, the complete records are those that end before the
cut. -/
theorem lt_completeRecords_iff (hsized : Sized base records) (cut : Nat)
    {fuel : Nat} (hfuel : ((encodeFrom base records).take cut).length ≤ fuel)
    (count : Nat) :
    count < completeRecords fuel ((encodeFrom base records).take cut) ↔
      count < records.length ∧
        (encodeFrom base (records.take (count + 1))).length ≤ cut := by
  induction records generalizing base cut fuel count with
  | nil =>
    cases fuel with
    | zero => simp [completeRecords]
    | succ fuel => simp [completeRecords, encodeFrom, recordHeaderSize]
  | cons data rest ih =>
    have hshort := hsized.short data (by simp)
    simp only [take_succ_cons, encodeFrom, length_append,
      encodeRecord_length, length_cons]
    by_cases htorn : cut < recordHeaderSize + data.length
    · rw [take_append_of_le_length (by simp; omega),
        completeRecords_torn fuel hshort htorn]
      omega
    · rw [encodeFrom, take_append, take_of_length_le
        (by simp; omega), length_append, encodeRecord_length] at hfuel
      cases fuel with
      | zero => simp [recordHeaderSize] at hfuel
      | succ fuel =>
        rw [take_append, take_of_length_le (by simp; omega),
          completeRecords_record fuel hshort, encodeRecord_length]
        cases count with
        | zero =>
          simp [encodeFrom]
          omega
        | succ count =>
          have hless : ((encodeFrom (base + 1) rest).take
              (cut - (recordHeaderSize + data.length))).length ≤ fuel := by
            have : 0 < recordHeaderSize := by decide
            omega
          rw [Nat.add_lt_add_iff_right, ih hsized.tail _ hless count]
          omega

/-- Index entries that point at records of a segment file, in increasing
order.  Not every record needs an entry. -/
structure Indexed (base : Int) (records : List Bytes)
    (entries : List IndexEntry) : Prop where
  ordered : entries.Pairwise fun left right => left.offset < right.offset
  exact_position : ∀ entry ∈ entries, ∃ count < records.length,
    entry = ⟨base + count, (encodeFrom base (records.take count)).length⟩

theorem Indexed.nil (base : Int) (records : List Bytes) : Indexed base records [] :=
  ⟨List.Pairwise.nil, by simp⟩

theorem Indexed.eq_nil (hindexed : Indexed base [] entries) : entries = [] := by
  refine eq_nil_iff_forall_not_mem.mpr fun entry hentry => ?_
  obtain ⟨count, hcount, -⟩ := hindexed.exact_position entry hentry
  simp at hcount

/-- Appending records keeps the entries of the earlier ones. -/
theorem Indexed.append (hindexed : Indexed base records entries)
    (more : List Bytes) : Indexed base (records ++ more) entries where
  ordered := hindexed.ordered
  exact_position entry hentry := by
    obtain ⟨count, hcount, heq⟩ := hindexed.exact_position entry hentry
    refine ⟨count, by simp; omega, ?_⟩
    rw [heq, take_append_of_le_length (by omega)]

/-- An appended record may get an entry of its own. -/
theorem Indexed.concat (hindexed : Indexed base records entries) (data : Bytes) :
    Indexed base (records ++ [data]) (entries ++
      [⟨base + records.length, (encodeFrom base records).length⟩]) where
  ordered := by
    rw [pairwise_append]
    refine ⟨hindexed.ordered, pairwise_singleton _ _, ?_⟩
    intro entry hentry last hlast
    obtain ⟨count, hcount, rfl⟩ := hindexed.exact_position entry hentry
    obtain rfl := mem_singleton.mp hlast
    simp only
    omega
  exact_position entry hentry := by
    rcases mem_append.mp hentry with hold | hlast
    · exact (hindexed.append [data]).exact_position entry hold
    · obtain rfl := mem_singleton.mp hlast
      exact ⟨records.length, by simp, by simp⟩

/-- The scan's rebuilt index is exact too. -/
theorem Indexed.rebuilt {index : Index}
    (hindexed : Indexed base records index.entries) :
    Indexed base records (WalSegment.rebuilt index base 0 records).entries := by
  by_cases hempty : index.entries = [] ∧ records ≠ []
  · cases records with
    | nil => simp at hempty
    | cons data rest =>
      simpa [WalSegment.rebuilt, hempty, Index.add, encodeFrom] using
        ((Indexed.nil base []).concat data).append rest
  · simpa [WalSegment.rebuilt, hempty] using hindexed

/-- A lookup leads to a record at or before the wanted one. -/
theorem Indexed.lookup {index : Index}
    (hindexed : Indexed base records index.entries) (count : Nat) :
    ∃ start ≤ count, (index.lookup (base + count)).getD 0 =
      (encodeFrom base (records.take start)).length := by
  have hmono : index.entries.Pairwise fun left right =>
      decide (left.offset > base + count) = true →
        decide (right.offset > base + count) = true :=
    hindexed.ordered.imp fun hlt hleft => by
      simp only [decide_eq_true_eq] at hleft ⊢
      omega
  obtain ⟨front, back, hsplit, hfront, hback⟩ := exists_split_of_pairwise hmono
  have hsearch := searchList_append hfront hback
  rw [← hsplit] at hsearch
  have hlookup : index.lookup (base + count) =
      if front.length = 0 then none
      else index.entries[front.length - 1]?.map IndexEntry.position := by
    rw [Index.lookup, hsearch]
  rcases front.eq_nil_or_concat with rfl | ⟨init, last, rfl⟩
  · exact ⟨0, Nat.zero_le count, by simp [hlookup, encodeFrom]⟩
  · have hlast : last ∈ index.entries := by simp [hsplit]
    obtain ⟨start, hstart, heq⟩ := hindexed.exact_position last hlast
    have hle : last.offset ≤ base + count := by
      simpa using hfront last (by simp)
    refine ⟨start, by simp [heq] at hle; omega, ?_⟩
    simp [hlookup, hsplit, heq]

end Streambus
