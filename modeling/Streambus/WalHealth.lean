/-
The write-ahead log: a list of segments, the last of which takes the writes.
In a healthy state the segments tile the offsets, every sealed segment is on
disk with its records, the current one holds the rest, and the directory has
exactly the files of the segments that have records and of the current one.
Appending, syncing, reading, rolling and restarting keep a log healthy as long
as bytes are written where their file ends.
-/
import Streambus.SegmentContents

namespace Streambus

/-- When appended data is forced to disk.  Under `interval` a timer calls
`Wal.sync`. -/
inductive FsyncPolicy where
  | always
  | interval
  | never
deriving Repr, DecidableEq

structure WalConfig where
  segmentSize : Int
  fsyncPolicy : FsyncPolicy
deriving Repr, DecidableEq

/-- What goes wrong during one append: with the sync of the old segment and
the creation of the new one when it rolls, with the writes, and with the sync
that follows under `FsyncPolicy.always`. -/
structure AppendFaults where
  roll : Fault
  createFails : Bool
  write : Option Nat
  sync : Fault
deriving Repr, DecidableEq

namespace AppendFaults

def none : AppendFaults := ⟨Fault.none, false, Option.none, Fault.none⟩

@[simp] theorem none_roll : none.roll = Fault.none := rfl

@[simp] theorem none_createFails : none.createFails = false := rfl

@[simp] theorem none_write : none.write = Option.none := rfl

@[simp] theorem none_sync : none.sync = Fault.none := rfl

end AppendFaults

/-- The log.  Its segment list is `sealed` followed by `current`, which
truncation may have taken off the list (`listed` is then false). -/
structure Wal where
  config : WalConfig
  sealed : List WalSegment
  current : WalSegment
  listed : Bool
  nextOffset : Int
  closed : Bool
deriving Repr, DecidableEq

/-- Open the segment files in the order of their names. -/
def openSegments : List Int → Disk → Disk × Except StorageError (List WalSegment)
  | [], disk => (disk, .ok [])
  | base :: rest, disk =>
    match openWALSegment disk base with
    | (disk, .error error) => (disk, .error error)
    | (disk, .ok segment) =>
      match openSegments rest disk with
      | (disk, .error error) => (disk, .error error)
      | (disk, .ok segments) => (disk, .ok (segment :: segments))

/-- Load the segments of a directory, or create the first one. -/
def newWAL (disk : Disk) (config : WalConfig) : Disk × Except StorageError Wal :=
  match openSegments disk.segments.keys disk with
  | (disk, .error error) => (disk, .error error)
  | (disk, .ok segments) =>
    match segments.getLast? with
    | none =>
      let (segment, disk) := createWALSegment disk 0
      (disk, .ok ⟨config, [], segment, true, 0, false⟩)
    | some current =>
      (disk, .ok ⟨config, segments.dropLast, current, true,
        current.nextOffset, false⟩)

namespace Wal

variable (wal : Wal)

/-- The segment list. -/
def segments : List WalSegment :=
  wal.sealed ++ if wal.listed then [wal.current] else []

/-- Sync the current segment and put a new one at the next offset. -/
def rollSegment (disk : Disk) (faults : AppendFaults) :
    Wal × Disk × Except StorageError Unit :=
  match wal.current.sync disk faults.roll with
  | (current, disk, .error error) =>
    ({ wal with current := current }, disk, .error error)
  | (current, disk, .ok ()) =>
    let wal := { wal with current := current }
    if faults.createFails then (wal, disk, .error .io)
    else
      let (segment, disk) := createWALSegment disk wal.nextOffset
      ({ wal with
          sealed := wal.segments
          current := segment
          listed := true }, disk, .ok ())

/-- Roll if the current segment has reached its size. -/
def rollIfFull (disk : Disk) (faults : AppendFaults) :
    Wal × Disk × Except StorageError Unit :=
  if wal.config.segmentSize ≤ wal.current.size then
    wal.rollSegment disk faults
  else (wal, disk, .ok ())

/-- Sync the current segment if the policy asks for it after every append. -/
def syncIfRequired (disk : Disk) (fault : Fault) :
    Wal × Disk × Except StorageError Unit :=
  if wal.config.fsyncPolicy = .always then
    let (current, disk, result) := wal.current.sync disk fault
    ({ wal with current := current }, disk, result)
  else (wal, disk, .ok ())

/-- Append one entry and return its offset. -/
def append (disk : Disk) (data : Bytes) (faults : AppendFaults) :
    Wal × Disk × Except StorageError Int :=
  if wal.closed then (wal, disk, .error .logClosed)
  else
    match wal.rollIfFull disk faults with
    | (wal, disk, .error error) => (wal, disk, .error error)
    | (wal, disk, .ok ()) =>
      let offset := wal.nextOffset
      match wal.current.append disk offset data faults.write with
      | (current, disk, .error error) =>
        ({ wal with current := current }, disk, .error error)
      | (current, disk, .ok ()) =>
        let wal :=
          { wal with current := current, nextOffset := wal.nextOffset + 1 }
        let (wal, disk, result) := wal.syncIfRequired disk faults.sync
        (wal, disk, result.map fun _ => offset)

/-- Put a segment back at its place in the segment list. -/
def setSegment (index : Nat) (segment : WalSegment) : Wal :=
  if index < wal.sealed.length then
    { wal with sealed := wal.sealed.set index segment }
  else { wal with current := segment }

def findSegment (offset : Int) : Option (Nat × WalSegment) :=
  findTile WalSegment.baseOffset WalSegment.nextOffset wal.segments offset

def read (disk : Disk) (offset : Int) : Wal × Except StorageError Bytes :=
  if wal.closed then (wal, .error .logClosed)
  else
    match wal.findSegment offset with
    | none => (wal, .error .offsetOutOfRange)
    | some (index, segment) =>
      let (segment, result) := segment.read disk offset
      (wal.setSegment index segment, result)

def sync (disk : Disk) (fault : Fault) : Wal × Disk × Except StorageError Unit :=
  if wal.closed then (wal, disk, .error .logClosed)
  else
    let (current, disk, result) := wal.current.sync disk fault
    ({ wal with current := current }, disk, result)

/-- Close a segment and remove its file.  Errors are ignored. -/
def dropSegment (segment : WalSegment) (disk : Disk) : WalSegment × Disk :=
  let (segment, disk, _) := segment.close disk
  (segment, { disk with segments := disk.segments.erase segment.baseOffset })

/-- Drop the listed segments that start before an offset. -/
def truncateSegments (beforeOffset : Int) :
    List WalSegment → Disk → List WalSegment × Disk
  | [], disk => ([], disk)
  | segment :: rest, disk =>
    if beforeOffset ≤ segment.baseOffset then
      let (kept, disk) := truncateSegments beforeOffset rest disk
      (segment :: kept, disk)
    else truncateSegments beforeOffset rest (dropSegment segment disk).2

/-- Drop every segment that starts before an offset, the current one too. -/
def truncate (disk : Disk) (beforeOffset : Int) :
    Wal × Disk × Except StorageError Unit :=
  if wal.closed then (wal, disk, .error .logClosed)
  else
    let (kept, disk) := truncateSegments beforeOffset wal.sealed disk
    let wal := { wal with sealed := kept }
    if wal.listed ∧ wal.current.baseOffset < beforeOffset then
      let (current, disk) := dropSegment wal.current disk
      ({ wal with current := current, listed := false }, disk, .ok ())
    else (wal, disk, .ok ())

/-- Close the segments in order, ignoring errors. -/
def closeSegments : List WalSegment → Disk → Disk
  | [], disk => disk
  | segment :: rest, disk => closeSegments rest (segment.close disk).2.1

/-- Close every listed segment.  A closed log serves no request, so only what
closing leaves on disk is kept. -/
def close (disk : Disk) : Wal × Disk :=
  if wal.closed then (wal, disk)
  else ({ wal with closed := true }, closeSegments wal.segments disk)

end Wal

open List OrderedMap

section Slice

variable {α : Type*}

/-- The entries at the positions in `[low, high)`. -/
def slice (data : List α) (low high : Int) : List α :=
  (data.take high.toNat).drop low.toNat

variable {high : Int}

theorem slice_self (data : List α) : slice data data.length data.length = [] := by
  simp [slice]

theorem slice_length {data : List α} {low : Int} (hlow : 0 ≤ low)
    (hle : low ≤ high) (hhigh : high ≤ data.length) :
    ((slice data low high).length : Int) = high - low := by
  simp only [slice, length_drop, length_take]
  omega

theorem slice_getElem? (data : List α) {low : Int} {count : Nat}
    (hlow : 0 ≤ low) (hcount : low + count < high) :
    (slice data low high)[count]? = data[(low + count).toNat]? := by
  rw [slice, getElem?_drop, getElem?_take_of_lt (by omega)]
  congr 1
  omega

end Slice

/-- An open segment with nothing left to write. -/
structure WalSegment.Drained (segment : WalSegment) : Prop where
  opened : segment.file.closed = false
  healthy : segment.writer.failed = false
  drained : segment.writer.buffered = []
  clean : segment.index.dirty = false

/-- A segment that takes no more writes: everything is written out, and its
records are there unless it has none. -/
structure WalSegment.Sealed (segment : WalSegment) (disk : Disk)
    (data : List Bytes) : Prop extends segment.Drained where
  holds : segment.baseOffset < segment.nextOffset → segment.Holds disk
    (slice data segment.baseOffset segment.nextOffset)

variable {segment : WalSegment} {data : List Bytes} {disk : Disk}
  {other : WalSegment}

theorem WalSegment.Sealed.frame {before after : Disk}
    (hsealed : segment.Sealed before data)
    (hfile : segment.baseOffset < segment.nextOffset →
      after.segments.find? segment.baseOffset =
        before.segments.find? segment.baseOffset)
    (hindex : segment.baseOffset < segment.nextOffset →
      after.savedIndex segment.baseOffset = before.savedIndex segment.baseOffset) :
    segment.Sealed after data :=
  { hsealed with
    holds := fun hlt => (hsealed.holds hlt).frame (hfile hlt) (hindex hlt) }

theorem WalSegment.Sealed.append (hsealed : segment.Sealed disk data)
    (hnext : segment.nextOffset ≤ data.length) (more : List Bytes) :
    segment.Sealed disk (data ++ more) :=
  { hsealed with
    holds := fun hlt => by
      rw [slice, take_append_of_le_length (by omega)]
      exact hsealed.holds hlt }

/-- The offsets of a segment. -/
def WalSegment.extent (segment : WalSegment) : Int × Int :=
  (segment.baseOffset, segment.nextOffset)

namespace Wal

/-- The segments that have records, and the current one. -/
def filed (wal : Wal) : List WalSegment :=
  wal.sealed.filter (fun segment => segment.baseOffset < segment.nextOffset) ++
    [wal.current]

theorem map_baseOffset_filed (wal : Wal) : wal.filed.map WalSegment.baseOffset =
      ((wal.sealed.map WalSegment.extent).filter
        fun extent => extent.1 < extent.2).map Prod.fst ++
          [wal.current.baseOffset] := by
  simp only [filed, map_append, filter_map, map_map]
  rfl

/-- `data` is everything appended so far; the segments hold its offsets from
`first` on. -/
structure Healthy (wal : Wal) (disk : Disk) (first : Int) (data : List Bytes) :
    Prop where
  opened : wal.closed = false
  listed : wal.listed = true
  next_eq : wal.nextOffset = data.length
  lower : 0 ≤ first
  tiles : Tiles WalSegment.baseOffset WalSegment.nextOffset
    (wal.sealed ++ [wal.current]) first data.length
  sealed : ∀ segment ∈ wal.sealed, segment.Sealed disk data
  current : wal.current.Holds disk (slice data wal.current.baseOffset data.length)
  files : disk.segments.keys = wal.filed.map WalSegment.baseOffset
  unindexed : ∀ base, wal.current.baseOffset < base → disk.savedIndex base = []

/-- The next write to the current segment extends its file. -/
def AtEnd (wal : Wal) (disk : Disk) : Prop :=
  (wal.current.sink disk none).AtEnd
deriving Decidable

/-- Writing out the buffer extends the file, or there is nothing to write. -/
def FlushesAtEnd (wal : Wal) (disk : Disk) : Prop :=
  wal.AtEnd disk ∨ wal.current.writer.buffered = []
deriving Decidable

/-- The first offset whose record is not in its file in full. -/
def storedOffset (wal : Wal) (disk : Disk) : Int :=
  wal.current.storedOffset disk

/-- One step on a healthy log: it ends healthy with the given records, keeps
its configuration, neither moves its handle off the end of the file nor leaves
append mode, and loses nothing that was stored. -/
structure Advances (wal : Wal) (disk : Disk) (next : Wal) (after : Disk)
    (first : Int) (data : List Bytes) : Prop where
  healthy : next.Healthy after first data
  config_eq : next.config = wal.config
  atEnd : wal.AtEnd disk → next.AtEnd after
  appendMode : wal.current.file.appendMode = true →
    next.current.file.appendMode = true
  stored_le : wal.storedOffset disk ≤ next.storedOffset after

variable {wal : Wal}

theorem Healthy.advances {disk : Disk} {first : Int} {data : List Bytes}
    (hhealthy : wal.Healthy disk first data) :
    wal.Advances disk wal disk first data :=
  ⟨hhealthy, rfl, id, id, le_refl _⟩

theorem Advances.trans {middle next : Wal} {disk between after : Disk}
    {first : Int} {data more : List Bytes}
    (hleft : wal.Advances disk middle between first data)
    (hright : middle.Advances between next after first more) :
    wal.Advances disk next after first more where
  healthy := hright.healthy
  config_eq := hright.config_eq.trans hleft.config_eq
  atEnd h := hright.atEnd (hleft.atEnd h)
  appendMode h := hright.appendMode (hleft.appendMode h)
  stored_le := hleft.stored_le.trans hright.stored_le

theorem segments_eq (hlisted : wal.listed = true) :
    wal.segments = wal.sealed ++ [wal.current] := by
  simp [segments, hlisted]

section Healthy

variable {wal : Wal} {disk : Disk} {first : Int} {data : List Bytes}

section

variable (hhealthy : wal.Healthy disk first data)

include hhealthy

theorem Healthy.sealed_tiles :
    Tiles WalSegment.baseOffset WalSegment.nextOffset wal.sealed first
      wal.current.baseOffset := by
  obtain ⟨middle, hsealed, hbase, -⟩ := tiles_append.mp hhealthy.tiles
  exact hbase ▸ hsealed

theorem Healthy.current_next : wal.current.nextOffset = data.length := by
  obtain ⟨middle, -, -, -, hnext⟩ := tiles_append.mp hhealthy.tiles
  exact hnext

theorem Healthy.current_bounds :
    first ≤ wal.current.baseOffset ∧ wal.current.baseOffset ≤ data.length := by
  have hbounds := hhealthy.tiles.bounds wal.current (by simp)
  exact ⟨hbounds.1, hhealthy.current_next ▸ hbounds.2.1⟩

/-- A sealed segment with records lies below the current one. -/
theorem Healthy.sealed_lt {segment : WalSegment} (hmem : segment ∈ wal.sealed)
    (hlt : segment.baseOffset < segment.nextOffset) :
    segment.baseOffset < wal.current.baseOffset :=
  lt_of_lt_of_le hlt (hhealthy.sealed_tiles.bounds segment hmem).2.2

variable {after : Disk}

/-- Growing the current segment, on disk and in records, advances the log. -/
theorem Healthy.grow {next : WalSegment} (more : List Bytes)
    (hgrows : wal.current.GrowsTo disk next after
      (slice data wal.current.baseOffset data.length ++ more)) :
    wal.Advances disk
      { wal with
        current := next
        nextOffset := wal.nextOffset + more.length } after first
      (data ++ more) := by
  have hbounds := hhealthy.current_bounds
  have hlower := hhealthy.lower
  have hslice : slice data wal.current.baseOffset data.length ++ more =
      slice (data ++ more) wal.current.baseOffset (data ++ more).length := by
    simp only [slice, Int.toNat_natCast, take_length]
    rw [drop_append_of_le_length (by omega)]
  have hnext : next.nextOffset = (data ++ more).length := by
    have hlength := slice_length (by omega) hbounds.2 (le_refl (data.length : Int))
    have hnext := hgrows.holds.next_eq
    rw [hgrows.base_eq] at hnext
    simp only [length_append] at hnext ⊢
    omega
  refine
    { config_eq := rfl
      atEnd := hgrows.atEnd
      appendMode := fun h => hgrows.mode_eq.trans h
      stored_le := hgrows.storedOffset_le hhealthy.current
      healthy :=
        { opened := hhealthy.opened
          listed := hhealthy.listed
          next_eq := by simp [hhealthy.next_eq]
          lower := hlower
          tiles := ?_
          sealed := fun segment hmem => ?_
          current := ?_
          files := ?_
          unindexed := fun base hbase => ?_ } }
  · refine tiles_append.mpr ⟨_, hhealthy.sealed_tiles, hgrows.base_eq, ?_, hnext⟩
    change wal.current.baseOffset ≤ next.nextOffset
    simp only [length_append] at hnext
    push_cast at hnext
    omega
  · have hbelow := (hhealthy.sealed_tiles.bounds segment hmem).2.2
    refine ((hhealthy.sealed segment hmem).append
      (hbelow.trans hbounds.2) more).frame ?_ ?_
    · intro hlt
      exact hgrows.changed.segments _ (hhealthy.sealed_lt hmem hlt).ne
    · intro hlt
      exact hgrows.changed.savedIndex _ (hhealthy.sealed_lt hmem hlt).ne
  · change next.Holds after _
    rw [hgrows.base_eq, ← hslice]
    exact hgrows.holds
  · rw [hgrows.changed.names, hhealthy.files]
    simp [filed, hgrows.base_eq]
  · have hbase : wal.current.baseOffset < base := hgrows.base_eq ▸ hbase
    rw [hgrows.changed.savedIndex _ hbase.ne']
    exact hhealthy.unindexed base hbase

theorem Healthy.storedOffset_bounds : wal.current.baseOffset ≤ wal.storedOffset disk ∧
      wal.storedOffset disk ≤ data.length := by
  have hnext := hhealthy.current.next_eq
  rw [hhealthy.current_next] at hnext
  have hstart : wal.current.baseOffset ≤ wal.storedOffset disk := by
    rw [storedOffset, WalSegment.storedOffset]
    omega
  refine ⟨hstart, not_lt.mp fun hlt => ?_⟩
  have hinside := ((hhealthy.current.lt_storedOffset_iff
    (slice data wal.current.baseOffset data.length).length).mp
      (by rw [← hnext]; exact hlt)).1
  exact lt_irrefl _ hinside

theorem Healthy.storedOffset_eq (hempty : wal.current.writer.buffered = []) :
    wal.storedOffset disk = data.length :=
  (hhealthy.current.storedOffset_eq hempty).trans hhealthy.current_next

/-- Syncing the current segment empties its buffer, also when the fsync
fails. -/
theorem Healthy.syncCurrent (hend : wal.FlushesAtEnd disk) (fsyncFails : Bool) :
    ∃ current after, wal.current.sync disk ⟨none, fsyncFails⟩ =
        (current, after, if fsyncFails then .error .io else .ok ()) ∧
      wal.Advances disk { wal with current := current } after first data ∧
      current.writer.buffered = [] ∧
      (fsyncFails = false → current.index.dirty = false) := by
  obtain ⟨current, after, hsync, hgrows, hempty, hclean⟩ :=
    hhealthy.current.sync hend fsyncFails
  have hgrown := hhealthy.grow [] (by simpa using hgrows)
  exact ⟨current, after, hsync, by simpa using hgrown, hempty, hclean⟩

/-- Syncing a healthy log empties its buffer, also when the fsync fails. -/
theorem Healthy.sync (hend : wal.FlushesAtEnd disk) (fsyncFails : Bool) :
    ∃ next after, wal.sync disk ⟨none, fsyncFails⟩ =
        (next, after, if fsyncFails then .error .io else .ok ()) ∧
      wal.Advances disk next after first data ∧
      next.current.writer.buffered = [] := by
  obtain ⟨current, after, hsync, hadvances, hempty, -⟩ :=
    hhealthy.syncCurrent hend fsyncFails
  exact ⟨_, after, by simp [Wal.sync, hhealthy.opened, hsync], hadvances, hempty⟩

theorem Healthy.key_le {key : Int} (hkey : key ∈ disk.segments.keys) :
    key ≤ wal.current.baseOffset := by
  rw [hhealthy.files, filed, map_append, mem_append] at hkey
  rcases hkey with hsealed | hcurrent
  · obtain ⟨segment, hmem, rfl⟩ := mem_map.mp hsealed
    obtain ⟨hmem, hlt⟩ := mem_filter.mp hmem
    exact (hhealthy.sealed_lt hmem (by simpa using hlt)).le
  · simp only [map_cons, map_nil, mem_singleton] at hcurrent
    omega

/-- Nothing is on disk at the next offset of a log with an empty buffer. -/
theorem Healthy.fresh (hempty : wal.current.writer.buffered = []) :
    disk.content data.length = [] ∧ disk.savedIndex data.length = [] := by
  by_cases hbase : wal.current.baseOffset = data.length
  · have hcurrent := hhealthy.current
    rw [hbase, slice_self] at hcurrent
    have hbytes := hcurrent.bytes
    have hsaved := hcurrent.saved.eq_nil
    rw [hempty, append_nil, hbase] at hbytes
    rw [hbase] at hsaved
    exact ⟨hbytes, hsaved⟩
  · have hlt : wal.current.baseOffset < data.length :=
      lt_of_le_of_ne hhealthy.current_bounds.2 hbase
    refine ⟨?_, hhealthy.unindexed _ hlt⟩
    have habsent : (data.length : Int) ∉ disk.segments.keys := fun hkey =>
      absurd (hhealthy.key_le hkey) (by omega)
    rw [mem_keys_iff, Option.not_isSome_iff_eq_none] at habsent
    simp [Disk.content, habsent]

/-- The files after a new one was created at the next offset. -/
theorem Healthy.keys_insert (segment : WalSegment)
    (hsegment : segment.baseOffset = data.length) :
    (disk.segments.insert data.length []).keys =
      (filed { wal with
        sealed := wal.sealed ++ [wal.current]
        current := segment }).map WalSegment.baseOffset := by
  have hnext := hhealthy.current_next
  by_cases hbase : wal.current.baseOffset = data.length
  · have hkey : disk.segments.find? data.length =
        some (disk.content data.length) := by
      have hfind := hhealthy.current.find?_eq
      rwa [hbase] at hfind
    rw [keys_insert_of_mem _ hkey, hhealthy.files]
    simp [filed, hbase, hnext, hsegment]
  · have hlt : wal.current.baseOffset < data.length :=
      lt_of_le_of_ne hhealthy.current_bounds.2 hbase
    have habove : ∀ entry ∈ disk.segments.entries,
        entry.1 < (data.length : Int) := fun entry hentry =>
      lt_of_le_of_lt (hhealthy.key_le (mem_map_of_mem hentry)) hlt
    have hkeys : (disk.segments.insert data.length []).keys =
        disk.segments.keys ++ [(data.length : Int)] := by
      simp [OrderedMap.keys, entries_insert_of_keys_lt _ _ habove]
    rw [hkeys, hhealthy.files]
    simp [filed, hnext, hlt, hsegment]

/-- A written-out current segment is sealed by a new one at its end. -/
theorem Healthy.seal (hempty : wal.current.writer.buffered = [])
    (hclean : wal.current.index.dirty = false) {segment : WalSegment}
    (hholds : segment.Holds after []) (hbase : segment.baseOffset = data.length)
    (hsegments : after.segments = disk.segments.insert data.length [])
    (hsaved : ∀ key, after.savedIndex key = disk.savedIndex key) :
    Healthy { wal with
      sealed := wal.sealed ++ [wal.current]
      current := segment } after first data where
  opened := hhealthy.opened
  listed := hhealthy.listed
  next_eq := hhealthy.next_eq
  lower := hhealthy.lower
  tiles := by
    have hnext := hholds.next_eq
    refine tiles_append.mpr ⟨_, hhealthy.tiles, hbase, ?_, ?_⟩
    · change (data.length : Int) ≤ segment.nextOffset
      omega
    · simp only [Tiles, length_nil] at hnext ⊢
      omega
  sealed other hmem := by
    have hother : other.Sealed disk data := by
      rcases mem_append.mp hmem with hold | hcurrent
      · exact hhealthy.sealed other hold
      · obtain rfl := mem_singleton.mp hcurrent
        exact ⟨⟨hhealthy.current.opened, hhealthy.current.healthy, hempty,
          hclean⟩, fun _ => hhealthy.current_next ▸ hhealthy.current⟩
    refine hother.frame (fun hlt => ?_) fun _ => hsaved _
    have hbelow := (hhealthy.tiles.bounds other hmem).2.2
    rw [hsegments, find?_insert_of_ne _ (by omega)]
  current := by
    rw [hbase, slice_self]
    exact hholds
  files := by
    rw [hsegments]
    exact hhealthy.keys_insert segment hbase
  unindexed base hlt := by
    have hlt : segment.baseOffset < base := hlt
    have hbounds := hhealthy.current_bounds
    rw [hsaved]
    exact hhealthy.unindexed base (by omega)

/-- Rolling a healthy log puts an empty segment at its end. -/
theorem Healthy.rollSegment (hend : wal.FlushesAtEnd disk)
    (hupper : (data.length : Int) < 2 ^ 63) :
    ∃ next after, wal.rollSegment disk AppendFaults.none = (next, after, .ok ()) ∧
      wal.Advances disk next after first data ∧
      next.AtEnd after := by
  obtain ⟨synced, flushed, hsync, hadvances, hempty, hclean⟩ :=
    hhealthy.syncCurrent hend false
  have hsynced := hadvances.healthy
  obtain ⟨hcontent, hindex⟩ := hsynced.fresh hempty
  obtain ⟨segment, after, hcreate, hholds, hbase, -, -, hmode, hsegments, hsaved⟩ :=
      createWALSegment_holds (Int.natCast_nonneg _) hupper hcontent hindex
  have hsealed := hsynced.seal hempty (hclean rfl) hholds hbase hsegments hsaved
  refine ⟨{ wal with sealed := wal.sealed ++ [synced], current := segment },
    after, ?_, ⟨hsealed, rfl, fun _ => Or.inl hmode, fun _ => hmode, ?_⟩,
    Or.inl hmode⟩
  · simp [Wal.rollSegment, AppendFaults.none_roll, Fault.none, hsync,
      hhealthy.next_eq, hcreate, segments, hhealthy.listed]
  · exact hhealthy.storedOffset_bounds.2.trans (hbase ▸ hsealed.storedOffset_bounds.1)

end

/-- Every byte an append writes goes where its file ends: the handle stands
there, or nothing of the current segment is written. -/
def AppendsAtEnd (wal : Wal) (disk : Disk) (entry : Bytes) : Prop :=
  wal.AtEnd disk ∨
    if wal.config.segmentSize ≤ wal.current.size then
      wal.current.writer.buffered = []
    else
      wal.config.fsyncPolicy ≠ .always ∧
        wal.current.writer.buffered.length + recordHeaderSize + entry.length ≤
          bufferSize
deriving Decidable

variable {entry : Bytes} (hhealthy : wal.Healthy disk first data)

include hhealthy

/-- Rolling when full leaves the log able to take the entry. -/
theorem Healthy.rollIfFull (hend : wal.AppendsAtEnd disk entry)
    (hupper : (data.length : Int) < 2 ^ 63) :
    ∃ next after, wal.rollIfFull disk AppendFaults.none = (next, after, .ok ()) ∧
      wal.Advances disk next after first data ∧
      (next.AtEnd after ∨ wal.config.fsyncPolicy ≠ .always ∧
        next.current.writer.buffered.length + recordHeaderSize + entry.length ≤
          bufferSize) ∧
      (wal.config.segmentSize ≤ wal.current.size → next.AtEnd after) := by
  by_cases hfull : wal.config.segmentSize ≤ wal.current.size
  · have hflush : wal.FlushesAtEnd disk :=
      hend.imp_right fun h => by simpa [hfull] using h
    obtain ⟨next, after, hroll, hnext, hatEnd⟩ :=
      hhealthy.rollSegment hflush hupper
    exact ⟨next, after, by simp [Wal.rollIfFull, hfull, hroll], hnext,
      Or.inl hatEnd, fun _ => hatEnd⟩
  · refine ⟨wal, disk, by simp [Wal.rollIfFull, hfull],
      hhealthy.advances, ?_, fun h => absurd h hfull⟩
    exact hend.imp_right fun h => by simpa [hfull] using h

/-- Syncing when the policy asks for it advances the log. -/
theorem Healthy.syncIfRequired
    (hend : wal.AtEnd disk ∨ wal.config.fsyncPolicy ≠ .always) :
    ∃ next after, wal.syncIfRequired disk Fault.none = (next, after, .ok ()) ∧
      wal.Advances disk next after first data := by
  by_cases hpolicy : wal.config.fsyncPolicy = .always
  · obtain ⟨current, after, hsync, hadvances, -⟩ :=
      hhealthy.syncCurrent (Or.inl (hend.resolve_right fun h => h hpolicy)) false
    exact ⟨_, after, by simp [Wal.syncIfRequired, hpolicy, Fault.none, hsync],
      hadvances⟩
  · exact ⟨wal, disk, by simp [Wal.syncIfRequired, hpolicy], hhealthy.advances⟩

/-- Appending to a healthy log returns the next offset and adds the entry at
it.  After a roll the handle stands at the end of its file. -/
theorem Healthy.append (hend : wal.AppendsAtEnd disk entry)
    (hshort : recordHeaderSize + entry.length < 2 ^ 32)
    (hupper : (data.length : Int) + 1 < 2 ^ 63) :
    ∃ next after, wal.append disk entry AppendFaults.none =
        (next, after, .ok (data.length : Int)) ∧
      wal.Advances disk next after first (data ++ [entry]) ∧
      (wal.config.segmentSize ≤ wal.current.size → next.AtEnd after) := by
  obtain ⟨rolled, created, hroll, hrolled, hroom, hfresh⟩ :=
    hhealthy.rollIfFull hend (by omega)
  have hhealthy' := hrolled.healthy
  have hbounds := hhealthy'.current_bounds
  have hlower : 0 ≤ rolled.current.baseOffset :=
    hhealthy'.lower.trans hbounds.1
  have hsized : Sized rolled.current.baseOffset
      (slice data rolled.current.baseOffset data.length ++ [entry]) := by
    have hlength := slice_length hlower hbounds.2 (le_refl (data.length : Int))
    refine ⟨hlower, ?_, ?_⟩
    · simp only [length_append, length_singleton]
      omega
    · intro record hrecord
      rcases mem_append.mp hrecord with hold | hlast
      · exact hhealthy'.current.sized.short record hold
      · obtain rfl := mem_singleton.mp hlast
        exact hshort
  obtain ⟨current, written, happend, hgrows⟩ :=
    hhealthy'.current.append hsized (hroom.imp_right And.right)
  have hoffset : rolled.current.nextOffset = rolled.nextOffset :=
    hhealthy'.current_next.trans hhealthy'.next_eq.symm
  rw [hoffset] at happend
  have hgrown := hhealthy'.grow [entry] hgrows
  obtain ⟨next, after, hsync, hnext⟩ :=
    hgrown.healthy.syncIfRequired (hroom.imp hgrown.atEnd fun h => by
      simpa [hrolled.config_eq] using h.1)
  refine ⟨next, after, ?_, (hrolled.trans hgrown).trans hnext, fun hfull =>
    hnext.atEnd (hgrown.atEnd (hfresh hfull))⟩
  rw [← hhealthy'.next_eq]
  simp only [length_singleton, Nat.cast_one] at hsync
  simp only [Wal.append, hhealthy.opened, hroll, AppendFaults.none_write,
    happend, AppendFaults.none_sync, hsync, Bool.false_eq_true, ↓reduceIte]
  rfl

end Healthy

end Wal

/-- The segment with its handle back at the start of the file. -/
def WalSegment.rewound (segment : WalSegment) : WalSegment :=
  { segment with file := { segment.file with cursor := 0 } }

theorem WalSegment.eq_of_rewound_eq (hsame : other.rewound = segment.rewound) :
    other = { segment with
      file := { segment.file with cursor := other.file.cursor } } := by
  cases segment
  cases other
  simp only [WalSegment.rewound, WalSegment.mk.injEq, OpenFile.mk.injEq] at hsame
  obtain ⟨rfl, rfl, rfl, ⟨-, hmode, hclosed⟩, rfl, rfl⟩ := hsame
  simp [← hmode, ← hclosed]

theorem WalSegment.Holds.of_rewound {records : List Bytes}
    (hholds : segment.Holds disk records)
    (hsame : other.rewound = segment.rewound) : other.Holds disk records := by
  rw [WalSegment.eq_of_rewound_eq hsame]
  exact hholds.withCursor _

theorem WalSegment.Sealed.of_rewound (hsealed : segment.Sealed disk data)
    (hsame : other.rewound = segment.rewound) : other.Sealed disk data := by
  rw [WalSegment.eq_of_rewound_eq hsame]
  exact
    { opened := hsealed.opened
      healthy := hsealed.healthy
      drained := hsealed.drained
      clean := hsealed.clean
      holds := fun hlt => (hsealed.holds hlt).withCursor _ }

theorem WalSegment.read_rewound (segment : WalSegment) (disk : Disk) (offset : Int) :
    (segment.read disk offset).1.rewound = segment.rewound := by
  obtain ⟨cursor, hcursor⟩ := segment.read_segment disk offset
  rw [hcursor]
  rfl

namespace Wal

/-- The log with every handle back at the start of its file: what reading
does not change. -/
def rewound (wal : Wal) : Wal :=
  { wal with
    sealed := wal.sealed.map WalSegment.rewound
    current := wal.current.rewound }

theorem rewound_setSegment {wal : Wal} {index : Nat} {segment other : WalSegment}
    (hindex : wal.segments[index]? = some segment)
    (hsame : other.rewound = segment.rewound) :
    (wal.setSegment index other).rewound = wal.rewound := by
  unfold segments at hindex
  by_cases hlt : index < wal.sealed.length
  · rw [getElem?_append_left hlt] at hindex
    obtain rfl : segment = wal.sealed[index] := by
      rw [getElem?_eq_getElem hlt] at hindex
      exact (Option.some.inj hindex).symm
    have hset : (wal.sealed.map WalSegment.rewound).set index
        wal.sealed[index].rewound = wal.sealed.map WalSegment.rewound := by
      rw [← map_set, set_getElem_self]
    simp [rewound, setSegment, hlt, map_set, hsame, hset]
  · obtain rfl : segment = wal.current := by
      rw [getElem?_append_right (by omega)] at hindex
      have hmem := mem_of_getElem? hindex
      split at hmem
      · exact mem_singleton.mp hmem
      · cases hmem
    simp [rewound, setSegment, hlt, hsame]

theorem read_rewound (wal : Wal) (disk : Disk) (offset : Int) :
    (wal.read disk offset).1.rewound = wal.rewound := by
  unfold read
  split
  · rfl
  · split
    · rfl
    next index segment hfound =>
      exact rewound_setSegment (findTile_sound hfound).1
        (segment.read_rewound disk offset)

section Healthy

variable {wal next : Wal} {disk : Disk} {first : Int} {data : List Bytes}

theorem Healthy.of_rewound (hhealthy : wal.Healthy disk first data)
    (hsame : next.rewound = wal.rewound) : next.Healthy disk first data := by
  have hcurrent : next.current.rewound = wal.current.rewound :=
    congrArg Wal.current hsame
  have hsealed : next.sealed.map WalSegment.rewound =
      wal.sealed.map WalSegment.rewound := congrArg Wal.sealed hsame
  have hcurrentExtent : next.current.extent = wal.current.extent := by
    rw [WalSegment.eq_of_rewound_eq hcurrent]
    rfl
  have hextents : next.sealed.map WalSegment.extent =
      wal.sealed.map WalSegment.extent := by
    have hmap := congrArg (List.map WalSegment.extent) hsealed
    rwa [map_map, map_map] at hmap
  have hbase : next.current.baseOffset = wal.current.baseOffset :=
    congrArg Prod.fst hcurrentExtent
  have hclosed : next.closed = wal.closed := by
    simpa [rewound] using congrArg Wal.closed hsame
  have hlisted : next.listed = wal.listed := by
    simpa [rewound] using congrArg Wal.listed hsame
  have hnext : next.nextOffset = wal.nextOffset := by
    simpa [rewound] using congrArg Wal.nextOffset hsame
  exact
    { opened := hclosed.trans hhealthy.opened
      listed := hlisted.trans hhealthy.listed
      next_eq := hnext.trans hhealthy.next_eq
      lower := hhealthy.lower
      tiles := by
        refine Tiles.of_map_eq ?_ hhealthy.tiles
        have hall : (next.sealed ++ [next.current]).map WalSegment.extent =
            (wal.sealed ++ [wal.current]).map WalSegment.extent := by
          simp [hextents, hcurrentExtent]
        exact hall
      sealed := by
        intro segment hmem
        have hrewound : segment.rewound ∈ wal.sealed.map WalSegment.rewound :=
          hsealed ▸ mem_map_of_mem hmem
        obtain ⟨other, hother, heq⟩ := mem_map.mp hrewound
        exact (hhealthy.sealed other hother).of_rewound heq.symm
      current := by
        rw [hbase]
        exact hhealthy.current.of_rewound hcurrent
      files := by
        rw [hhealthy.files, map_baseOffset_filed, map_baseOffset_filed, hextents,
          hbase]
      unindexed := by
        rw [hbase]
        exact hhealthy.unindexed }

theorem Healthy.read (hhealthy : wal.Healthy disk first data) (offset : Int) :
    (wal.read disk offset).1.Healthy disk first data :=
  hhealthy.of_rewound (wal.read_rewound disk offset)

theorem storedOffset_of_rewound (hsame : next.rewound = wal.rewound) :
    next.storedOffset disk = wal.storedOffset disk := by
  have hcurrent : next.current.rewound = wal.current.rewound :=
    congrArg Wal.current hsame
  rw [storedOffset, WalSegment.eq_of_rewound_eq hcurrent]
  rfl

variable {offset : Int}

section

variable (hhealthy : wal.Healthy disk first data)

include hhealthy

/-- A read in range goes to the segment around the offset. -/
theorem Healthy.read_segment (hfirst : first ≤ offset)
    (hlast : offset < data.length) :
    ∃ segment, (segment ∈ wal.sealed ∨ segment = wal.current) ∧
      segment.baseOffset ≤ offset ∧ offset < segment.nextOffset ∧
      segment.Holds disk (slice data segment.baseOffset segment.nextOffset) ∧
      (wal.read disk offset).2 = (segment.read disk offset).2 := by
  obtain ⟨front, segment, back, hsplit, hbase, hnext⟩ :=
    hhealthy.tiles.exists_around hfirst hlast
  have hmem : segment ∈ wal.sealed ∨ segment = wal.current := by
    have : segment ∈ wal.sealed ++ [wal.current] := by simp [hsplit]
    simpa using this
  refine ⟨segment, hmem, hbase, hnext, ?_, ?_⟩
  · rcases hmem with hsealed | rfl
    · exact (hhealthy.sealed segment hsealed).holds (by omega)
    · rw [hhealthy.current_next]
      exact hhealthy.current
  · have htiles := hhealthy.tiles
    rw [hsplit] at htiles
    have hfind : wal.findSegment offset = some (front.length, segment) := by
      rw [findSegment, segments_eq hhealthy.listed, hsplit]
      exact findTile_eq htiles hbase hnext
    simp [Wal.read, hhealthy.opened, hfind]

variable {entry : Bytes}

theorem Healthy.read_stored (hfirst : first ≤ offset)
    (hentry : data[offset.toNat]? = some entry)
    (hstored : offset < wal.storedOffset disk) :
    (wal.read disk offset).2 = .ok entry := by
  have hlower := hhealthy.lower
  have hlength : offset.toNat < data.length :=
    (List.getElem?_eq_some_iff.mp hentry).1
  obtain ⟨segment, hmem, hbase, hnext, hholds, hread⟩ :=
    hhealthy.read_segment hfirst (by omega)
  have hsegment : offset < segment.storedOffset disk := by
    rcases hmem with hsealed | rfl
    · rw [hholds.storedOffset_eq (hhealthy.sealed segment hsealed).drained]
      exact hnext
    · exact hstored
  have hbounds := hhealthy.tiles.bounds segment (by simpa using hmem)
  obtain ⟨count, hcount⟩ : ∃ count : Nat, offset = segment.baseOffset + count :=
    ⟨(offset - segment.baseOffset).toNat, by omega⟩
  have hget := slice_getElem? data (hlower.trans hbounds.1)
    (hcount ▸ hnext : segment.baseOffset + (count : Int) < segment.nextOffset)
  rw [← hcount, hentry] at hget
  obtain ⟨hinside, hvalue⟩ := List.getElem?_eq_some_iff.mp hget
  rw [hread, hcount, hholds.read_stored hinside (hcount ▸ hsegment), hvalue]

/-- A record that is not in its file in full is not read. -/
theorem Healthy.read_unstored (hfirst : first ≤ offset)
    (hlast : offset < data.length) (hstored : wal.storedOffset disk ≤ offset) :
    ∃ error, (wal.read disk offset).2 = .error error := by
  obtain ⟨segment, hmem, hbase, hnext, hholds, hread⟩ :=
    hhealthy.read_segment hfirst hlast
  obtain rfl : segment = wal.current := by
    refine hmem.resolve_left fun hsealed => ?_
    have hbelow := (hhealthy.sealed_tiles.bounds segment hsealed).2.2
    have hstart := hhealthy.storedOffset_bounds.1
    omega
  obtain ⟨count, hcount⟩ : ∃ count : Nat, offset = wal.current.baseOffset + count :=
    ⟨(offset - wal.current.baseOffset).toNat, by omega⟩
  have hlength := hholds.next_eq
  rw [hread, hcount]
  exact hholds.read_unstored (by omega) (hcount ▸ hstored)

theorem Healthy.read_out_of_range (hrange : offset < first ∨ data.length ≤ offset) :
    (wal.read disk offset).2 = .error .offsetOutOfRange := by
  have hfind : wal.findSegment offset = none := by
    rw [Option.eq_none_iff_forall_ne_some]
    rintro ⟨index, segment⟩ hfound
    obtain ⟨hindex, hbase, hnext⟩ := findTile_sound hfound
    rw [segments_eq hhealthy.listed] at hindex
    have hbounds := hhealthy.tiles.bounds segment (mem_of_getElem? hindex)
    omega
  simp [Wal.read, hhealthy.opened, hfind]

/-- What a read returns is the record at its offset. -/
theorem Healthy.read_sound (hread : (wal.read disk offset).2 = .ok entry) :
    0 ≤ offset ∧ data[offset.toNat]? = some entry := by
  have hlower := hhealthy.lower
  have hinside : ¬ (offset < first ∨ data.length ≤ offset) := by
    intro houtside
    rw [hhealthy.read_out_of_range houtside] at hread
    cases hread
  refine ⟨by omega, ?_⟩
  have hget := getElem?_eq_getElem (show offset.toNat < data.length by omega)
  by_cases hstored : offset < wal.storedOffset disk
  · rw [hhealthy.read_stored (by omega) hget hstored] at hread
    rw [hget, Except.ok.inj hread]
  · obtain ⟨error, herror⟩ :=
      hhealthy.read_unstored (by omega) (by omega) (not_lt.mp hstored)
    rw [herror] at hread
    cases hread

end

end Healthy

end Wal

end Streambus
