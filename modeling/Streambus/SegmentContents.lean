/-
What a segment holds.  An open segment holds a run of records when its file
and its write buffer together are the encoding of that run and its offsets,
size and index agree; the operations of the segment keep this, as long as
bytes are written where the file ends.  Closing stores the run on disk and
opening finds it again.
-/
import Streambus.WalRecords

namespace Streambus

open Disk Index List OrderedMap

namespace Disk

/-- The saved index of a segment; a missing file counts as an empty one. -/
def savedIndex (disk : Disk) (base : Int) : List IndexEntry :=
  (disk.indexes.find? base).getD []

/-- The disk changed at one base offset only, and no file came or went. -/
structure ChangedAt (base : Int) (before after : Disk) : Prop where
  names : after.segments.keys = before.segments.keys
  segments : ∀ key, key ≠ base → after.segments.find? key = before.segments.find? key
  savedIndex : ∀ key, key ≠ base → after.savedIndex key = before.savedIndex key

theorem ChangedAt.refl (base : Int) (disk : Disk) : ChangedAt base disk disk :=
  ⟨rfl, fun _ _ => rfl, fun _ _ => rfl⟩

variable {base : Int} (disk : Disk)

theorem ChangedAt.trans {first second third : Disk}
    (hleft : ChangedAt base first second)
    (hright : ChangedAt base second third) : ChangedAt base first third where
  names := hright.names.trans hleft.names
  segments key hkey := (hright.segments key hkey).trans (hleft.segments key hkey)
  savedIndex key hkey :=
    (hright.savedIndex key hkey).trans (hleft.savedIndex key hkey)

theorem changedAt_setContent {old : Bytes}
    (hfile : disk.segments.find? base = some old) (bytes : Bytes) :
    ChangedAt base disk (disk.setContent base bytes) where
  names := by
    simp [setContent, hfile, keys_insert_of_mem _ hfile]
  segments key hkey := by
    rw [find?_setContent disk hfile, if_neg (Ne.symm hkey)]
  savedIndex key _ := by simp [Disk.savedIndex]

theorem changedAt_setIndex (base : Int) (entries : List IndexEntry) :
    ChangedAt base disk (disk.setIndex base entries) where
  names := rfl
  segments _ _ := rfl
  savedIndex key hkey := by
    simp [Disk.savedIndex, setIndex, find?_insert_of_ne _ (Ne.symm hkey)]

@[simp] theorem savedIndex_setContent (base key : Int) (bytes : Bytes) :
    (disk.setContent base bytes).savedIndex key = disk.savedIndex key := by
  simp [savedIndex]

@[simp] theorem savedIndex_setIndex (base : Int) (entries : List IndexEntry) :
    (disk.setIndex base entries).savedIndex base = entries := by
  simp [savedIndex, setIndex]

/-- The file of a base offset is a run of records and its saved index points
into that run. -/
structure Stores (disk : Disk) (base : Int) (records : List Bytes) : Prop where
  sized : Sized base records
  bytes : disk.segments.find? base = some (encodeFrom base records)
  indexed : Indexed base records (disk.savedIndex base)

theorem Stores.frame {before after : Disk} {records : List Bytes}
    (hstores : before.Stores base records)
    (hfile : after.segments.find? base = before.segments.find? base)
    (hindex : after.savedIndex base = before.savedIndex base) :
    after.Stores base records where
  sized := hstores.sized
  bytes := hfile.trans hstores.bytes
  indexed := hindex ▸ hstores.indexed

end Disk

namespace Index

theorem sync_disk_segments (index : Index) (disk : Disk) (base : Int) :
    (index.sync disk base).2.segments = disk.segments := by
  unfold sync
  split <;> rfl

theorem sync_changedAt (index : Index) (disk : Disk) (base : Int) :
    disk.ChangedAt base (index.sync disk base).2 := by
  unfold sync
  split
  · exact disk.changedAt_setIndex base _
  · exact Disk.ChangedAt.refl base disk

theorem sync_index (index : Index) (disk : Disk) (base : Int) :
    (index.sync disk base).1 = ⟨index.entries, false⟩ := by
  unfold sync
  split
  · rfl
  · cases index
    simp_all

theorem savedIndex_sync {index : Index} {disk : Disk} {base : Int}
    (hclean : index.dirty = false → disk.savedIndex base = index.entries) :
    (index.sync disk base).2.savedIndex base = index.entries := by
  unfold sync
  split
  · simp
  · exact hclean (by simp_all)

variable (disk : Disk)

theorem load_index (base : Int) :
    (load disk base).1 = ⟨disk.savedIndex base, false⟩ := by
  unfold load Disk.savedIndex
  split <;> simp_all

theorem load_changedAt (base : Int) : disk.ChangedAt base (load disk base).2 := by
  unfold load
  split
  · exact Disk.ChangedAt.refl base disk
  · exact disk.changedAt_setIndex base _

theorem load_disk_segments (base : Int) :
    (load disk base).2.segments = disk.segments := by
  unfold load
  split <;> rfl

theorem load_savedIndex (base : Int) :
    (load disk base).2.savedIndex base = disk.savedIndex base := by
  unfold load
  split
  · rfl
  next hmissing => simp [Disk.savedIndex, Disk.setIndex, hmissing]

end Index

namespace WalSegment

/-- An open segment holds a run of records. -/
structure Holds (segment : WalSegment) (disk : Disk) (records : List Bytes) :
    Prop where
  sized : Sized segment.baseOffset records
  opened : segment.file.closed = false
  healthy : segment.writer.failed = false
  next_eq : segment.nextOffset = segment.baseOffset + records.length
  size_eq : segment.size = (encodeFrom segment.baseOffset records).length
  present : (disk.segments.find? segment.baseOffset).isSome
  bytes : disk.content segment.baseOffset ++ segment.writer.buffered =
    encodeFrom segment.baseOffset records
  indexed : Indexed segment.baseOffset records segment.index.entries
  saved : Indexed segment.baseOffset records (disk.savedIndex segment.baseOffset)
  clean : segment.index.dirty = false →
    disk.savedIndex segment.baseOffset = segment.index.entries

variable {segment : WalSegment} {records : List Bytes}
  {disk before after : Disk} {count : Nat}

section

variable (hholds : segment.Holds disk records)

include hholds

theorem Holds.find?_eq : disk.segments.find? segment.baseOffset =
      some (disk.content segment.baseOffset) := by
  obtain ⟨content, hcontent⟩ := Option.isSome_iff_exists.mp hholds.present
  simp [Disk.content, hcontent]

theorem Holds.sound : (segment.sink disk none).Sound :=
  ⟨hholds.opened, hholds.healthy, rfl⟩

/-- The contents do not depend on where the handle stands. -/
theorem Holds.withCursor (cursor : Nat) :
    Holds { segment with file := { segment.file with cursor := cursor } } disk
      records :=
  { hholds with }

end

/-- What a segment holds depends on its own two files only. -/
theorem Holds.frame (hholds : segment.Holds before records)
    (hfile : after.segments.find? segment.baseOffset =
      before.segments.find? segment.baseOffset)
    (hindex : after.savedIndex segment.baseOffset =
      before.savedIndex segment.baseOffset) : segment.Holds after records where
  sized := hholds.sized
  opened := hholds.opened
  healthy := hholds.healthy
  next_eq := hholds.next_eq
  size_eq := hholds.size_eq
  present := by
    rw [hfile]
    exact hholds.present
  bytes := by
    rw [Disk.content, hfile]
    exact hholds.bytes
  indexed := hholds.indexed
  saved := by
    rw [hindex]
    exact hholds.saved
  clean := by
    rw [hindex]
    exact hholds.clean

/-- The bytes up to the end of a record. -/
def recordEnd (base : Int) (records : List Bytes) (count : Nat) : Nat :=
  (encodeFrom base (records.take (count + 1))).length

/-- Reading changes the segment at most in its cursor. -/
theorem read_segment (segment : WalSegment) (disk : Disk) (offset : Int) :
    ∃ cursor, (segment.read disk offset).1 =
      { segment with file := { segment.file with cursor := cursor } } := by
  unfold read
  split
  · exact ⟨segment.file.cursor, rfl⟩
  · split
    · exact ⟨segment.file.cursor, rfl⟩
    · exact ⟨_, rfl⟩

/-- A read in range is a scan of the file from a record boundary at or before
the wanted record. -/
theorem Holds.read_result (hholds : segment.Holds disk records)
    (hcount : count < records.length) :
    ∃ start ≤ count, (segment.read disk (segment.baseOffset + count)).2 =
        (readLoop (segment.baseOffset + count)
          ((disk.content segment.baseOffset).length + 1)
          ⟨disk.content segment.baseOffset,
            (encodeFrom segment.baseOffset (records.take start)).length,
            []⟩).2 := by
  obtain ⟨start, hstart, hlookup⟩ := hholds.indexed.lookup count
  refine ⟨start, hstart, ?_⟩
  have hrange : ¬ (segment.baseOffset + (count : Int) < segment.baseOffset ∨
      segment.nextOffset ≤ segment.baseOffset + count) := by
    rw [hholds.next_eq]
    omega
  simp only [read, if_neg hrange, hholds.opened, Bool.false_eq_true,
    ↓reduceIte, hlookup]

/-- What a reader placed at a record boundary sees: the records from there up
to the wanted one and everything after it, cut where the file ends. -/
theorem Holds.stream_eq (hholds : segment.Holds disk records) {start : Nat}
    (hstart : start ≤ count) (hcount : count < records.length) :
    ∃ (middle : List Bytes) (rest : Bytes), start + middle.length = count ∧
      Sized (segment.baseOffset + start) (middle ++ [records[count]]) ∧
      recordEnd segment.baseOffset records count =
        (encodeFrom segment.baseOffset (records.take start)).length +
          (encodeFrom (segment.baseOffset + start)
            (middle ++ [records[count]])).length ∧
      BufReader.stream ⟨disk.content segment.baseOffset,
          (encodeFrom segment.baseOffset (records.take start)).length, []⟩ =
        (encodeFrom (segment.baseOffset + start)
          (middle ++ [records[count]]) ++ rest).take
          ((disk.content segment.baseOffset).length -
            (encodeFrom segment.baseOffset (records.take start)).length) := by
  let middle := (records.take count).drop start
  have hmiddle : start + middle.length = count := by
    simp [middle]
    omega
  have hfront : records.take start ++ middle = records.take count := by
    have htake : records.take start = (records.take count).take start := by
      rw [take_take, Nat.min_eq_left hstart]
    rw [htake]
    exact take_append_drop start _
  have hsplit : records.take (count + 1) =
      records.take start ++ (middle ++ [records[count]]) := by
    rw [← append_assoc, hfront, take_append_getElem]
  have hlength : (records.take start).length = start := by
    rw [length_take]
    omega
  have hencode : encodeFrom segment.baseOffset (records.take (count + 1)) =
      encodeFrom segment.baseOffset (records.take start) ++
        encodeFrom (segment.baseOffset + start) (middle ++ [records[count]]) := by
    rw [hsplit, encodeFrom_append, hlength]
  refine ⟨middle, encodeFrom (segment.baseOffset +
    (records.take (count + 1)).length) (records.drop (count + 1)), hmiddle,
    ?_, by rw [recordEnd, hencode, length_append], ?_⟩
  · have htake := hholds.sized
    rw [← take_append_drop (count + 1) records, hsplit] at htake
    simpa [hlength] using htake.left.right
  · have hcontent : disk.content segment.baseOffset =
        (encodeFrom segment.baseOffset records).take
          (disk.content segment.baseOffset).length := by
      rw [← hholds.bytes, take_left' rfl]
    have hstream : ∀ (content : Bytes) (position : Nat),
        BufReader.stream ⟨content, position, []⟩ = content.drop position := by
      intro content position
      simp [BufReader.stream]
    have hwhole := encodeFrom_append segment.baseOffset
      (records.take (count + 1)) (records.drop (count + 1))
    rw [take_append_drop, hencode, append_assoc] at hwhole
    rw [hstream]
    conv_lhs => rw [hcontent, drop_take, hwhole, drop_left' rfl]

/-- The first offset whose record is not in the file in full. -/
def storedOffset (segment : WalSegment) (disk : Disk) : Int :=
  segment.baseOffset + completeRecords (disk.content segment.baseOffset).length
    (disk.content segment.baseOffset)

section

variable (hholds : segment.Holds disk records)

include hholds

theorem Holds.lt_storedOffset_iff (count : Nat) :
    segment.baseOffset + count < segment.storedOffset disk ↔
      count < records.length ∧ recordEnd segment.baseOffset records count ≤
        (disk.content segment.baseOffset).length := by
  have hcontent : (encodeFrom segment.baseOffset records).take
      (disk.content segment.baseOffset).length = disk.content segment.baseOffset := by
    rw [← hholds.bytes, take_left' rfl]
  have hcount := lt_completeRecords_iff hholds.sized
    (disk.content segment.baseOffset).length (le_of_eq (by rw [hcontent])) count
  rw [hcontent] at hcount
  rw [storedOffset, recordEnd]
  omega

theorem Holds.read_stored (hcount : count < records.length)
    (hstored : segment.baseOffset + count < segment.storedOffset disk) :
    (segment.read disk (segment.baseOffset + count)).2 = .ok records[count] := by
  have hflushed := ((hholds.lt_storedOffset_iff count).mp hstored).2
  obtain ⟨start, hstart, hread⟩ := hholds.read_result hcount
  obtain ⟨middle, rest, hmiddle, hsized, hend, hstream⟩ :=
    hholds.stream_eq hstart hcount
  have hlength := length_le_encodeFrom (segment.baseOffset + start)
    (middle ++ [records[count]])
  have hwanted : (encodeFrom (segment.baseOffset + start)
      (middle ++ [records[count]])).take ((disk.content segment.baseOffset).length -
          (encodeFrom segment.baseOffset (records.take start)).length) =
      encodeFrom (segment.baseOffset + start) (middle ++ [records[count]]) :=
    take_of_length_le (by omega)
  rw [take_append, hwanted] at hstream
  have htarget : segment.baseOffset + (count : Int) =
      segment.baseOffset + start + middle.length := by
    omega
  have hfuel : middle.length < (disk.content segment.baseOffset).length + 1 := by
    simp only [length_append, length_singleton] at hlength
    omega
  obtain ⟨next, hloop⟩ := readLoop_reaches hstream hsized hfuel
  rw [hread, htarget, hloop]

/-- A record that is not in the file in full is not read. -/
theorem Holds.read_unstored (hcount : count < records.length)
    (hstored : segment.storedOffset disk ≤ segment.baseOffset + count) :
    ∃ error, (segment.read disk (segment.baseOffset + count)).2 = .error error := by
  have hflushed : (disk.content segment.baseOffset).length <
      recordEnd segment.baseOffset records count := by
    by_contra hle
    have := (hholds.lt_storedOffset_iff count).mpr ⟨hcount, not_lt.mp hle⟩
    omega
  obtain ⟨start, hstart, hread⟩ := hholds.read_result hcount
  obtain ⟨middle, rest, hmiddle, hsized, hend, hstream⟩ :=
    hholds.stream_eq hstart hcount
  have hlength := length_le_encodeFrom (segment.baseOffset + start)
    (middle ++ [records[count]])
  simp only [length_append, length_singleton] at hlength
  rw [take_append_of_le_length (by omega)] at hstream
  have htarget : segment.baseOffset + (count : Int) =
      segment.baseOffset + start + middle.length := by
    omega
  obtain ⟨next, error, hloop⟩ := readLoop_cut hstream hsized (by omega)
    ((disk.content segment.baseOffset).length + 1)
  exact ⟨error, by rw [hread, htarget, hloop]⟩

theorem Holds.storedOffset_eq (hempty : segment.writer.buffered = []) :
    segment.storedOffset disk = segment.nextOffset := by
  have hbytes := hholds.bytes
  rw [hempty, append_nil] at hbytes
  have hiff := hholds.lt_storedOffset_iff
  have hnext := hholds.next_eq
  have hbase : segment.baseOffset ≤ segment.storedOffset disk := by
    rw [storedOffset]
    omega
  apply le_antisymm
  · by_contra hlt
    have := (hiff records.length).mp (by omega)
    omega
  · by_contra hlt
    have hcount : (segment.storedOffset disk - segment.baseOffset).toNat <
        records.length := by
      omega
    have hend : recordEnd segment.baseOffset records
        (segment.storedOffset disk - segment.baseOffset).toNat ≤
          (disk.content segment.baseOffset).length := by
      rw [hbytes, recordEnd]
      conv_rhs => rw [← take_append_drop
        ((segment.storedOffset disk - segment.baseOffset).toNat + 1) records,
        encodeFrom_append, length_append]
      omega
    have := (hiff _).mpr ⟨hcount, hend⟩
    omega

end

/-- `next` on `after` is `segment` on `before` grown to `records`: same base
and mode, no other file touched. -/
structure GrowsTo (segment : WalSegment) (before : Disk) (next : WalSegment)
    (after : Disk) (records : List Bytes) : Prop where
  holds : next.Holds after records
  base_eq : next.baseOffset = segment.baseOffset
  mode_eq : next.file.appendMode = segment.file.appendMode
  content_le : before.content segment.baseOffset <+: after.content segment.baseOffset
  changed : Disk.ChangedAt segment.baseOffset before after
  atEnd : (segment.sink before none).AtEnd → (next.sink after none).AtEnd

variable {next : WalSegment} {more : List Bytes}

/-- What is stored stays stored while a segment grows. -/
theorem GrowsTo.storedOffset_le
    (hgrows : segment.GrowsTo before next after (records ++ more))
    (hholds : segment.Holds before records) :
    segment.storedOffset before ≤ next.storedOffset after := by
  by_contra hlt
  have hbase : next.baseOffset ≤ next.storedOffset after := by
    rw [storedOffset]
    omega
  have hsame := hgrows.base_eq
  obtain ⟨count, hcount⟩ : ∃ count : Nat,
      next.storedOffset after = next.baseOffset + count :=
    ⟨(next.storedOffset after - next.baseOffset).toNat, by omega⟩
  obtain ⟨hinside, hend⟩ :=
    (hholds.lt_storedOffset_iff count).mp (by omega)
  have hstored := (hgrows.holds.lt_storedOffset_iff count).mpr
  rw [recordEnd, hsame, take_append_of_le_length (by omega), length_append] at hstored
  have := hstored ⟨by omega, hend.trans hgrows.content_le.length_le⟩
  omega

section

variable (hholds : segment.Holds disk records)

include hholds

theorem Holds.content_setContent (bytes : Bytes) :
    (disk.setContent segment.baseOffset bytes).content segment.baseOffset =
      bytes := by
  rw [Disk.content, find?_setContent disk hholds.find?_eq, if_pos rfl]
  rfl

theorem Holds.present_setContent (bytes : Bytes) :
    ((disk.setContent segment.baseOffset bytes).segments.find?
      segment.baseOffset).isSome := by
  rw [find?_setContent disk hholds.find?_eq, if_pos rfl]
  rfl

/-- Appending a record: the bytes go where the file ends, or wait in the
buffer. -/
theorem Holds.append {data : Bytes}
    (hsized : Sized segment.baseOffset (records ++ [data]))
    (hend : (segment.sink disk none).AtEnd ∨ segment.writer.buffered.length +
      recordHeaderSize + data.length ≤ bufferSize) :
    ∃ next after, segment.append disk segment.nextOffset data none =
        (next, after, .ok ()) ∧
      segment.GrowsTo disk next after (records ++ [data]) := by
  obtain ⟨headed, filled, hheader, hdata, hextends⟩ :=
    BufferedFile.put_put_extends hholds.sound
      (recordHeader segment.nextOffset data) data
      (hend.imp_right fun hroom => by rwa [recordHeader_length])
  have hpending : filled.content ++ filled.writer.buffered =
      encodeFrom segment.baseOffset (records ++ [data]) := by
    rw [encodeFrom_concat, ← hholds.bytes, ← hholds.next_eq]
    exact hextends.pending_eq
  have hgrowth : (recordHeaderSize + data.length) % 2 ^ 32 =
      recordHeaderSize + data.length :=
    Nat.mod_eq_of_lt (hsized.short data (by simp))
  refine ⟨{ segment.withSink filled with
      size := segment.size + (recordHeaderSize + data.length)
      nextOffset := segment.nextOffset + 1
      index := segment.index.add segment.nextOffset segment.size },
    disk.setContent segment.baseOffset filled.content, ?_, ?_⟩
  · simp only [WalSegment.append, hheader, hdata, ↓reduceIte, hgrowth]
  · refine
      { base_eq := rfl
        mode_eq := hextends.mode_eq
        content_le := ?_
        changed := disk.changedAt_setContent hholds.find?_eq _
        atEnd := fun h => ?_
        holds :=
          { sized := hsized
            opened := hextends.sound.opened
            healthy := hextends.sound.healthy
            next_eq := ?_
            size_eq := ?_
            present := hholds.present_setContent _
            bytes := ?_
            indexed := ?_
            saved := ?_
            clean := fun hclean => ?_ } }
    · rw [hholds.next_eq]
      simp [withSink, add_assoc]
    · rw [hholds.size_eq]
      simp [withSink, encodeFrom_concat]
    · simp only [withSink, hholds.content_setContent]
      exact hpending
    · rw [hholds.next_eq, hholds.size_eq]
      exact hholds.indexed.concat data
    · rw [savedIndex_setContent]
      exact hholds.saved.append [data]
    · simp [Index.add] at hclean
    · rw [hholds.content_setContent]
      exact hextends.content_le
    · simpa [BufferedFile.AtEnd, sink, withSink, hholds.content_setContent]
        using hextends.atEnd h

/-- Writing the buffer out grows the file and keeps the records. -/
theorem Holds.flush
    (hend : (segment.sink disk none).AtEnd ∨ segment.writer.buffered = []) :
    ∃ flushed, (segment.sink disk none).flush = (flushed, true) ∧
      segment.GrowsTo disk (segment.withSink flushed)
        (disk.setContent segment.baseOffset flushed.content) records ∧
      flushed.writer.buffered = [] := by
  obtain ⟨flushed, hflush, hextends, hcontent, hempty⟩ :=
    BufferedFile.flush_extends hholds.sound hend
  have hsaved : (disk.setContent segment.baseOffset
      flushed.content).savedIndex segment.baseOffset =
        disk.savedIndex segment.baseOffset := savedIndex_setContent _ _ _ _
  refine ⟨flushed, hflush, ?_, hempty⟩
  refine
    { base_eq := rfl
      mode_eq := hextends.mode_eq
      content_le := ?_
      changed := disk.changedAt_setContent hholds.find?_eq _
      atEnd := fun h => ?_
      holds :=
        { sized := hholds.sized
          opened := hextends.sound.opened
          healthy := hextends.sound.healthy
          next_eq := hholds.next_eq
          size_eq := hholds.size_eq
          present := hholds.present_setContent _
          bytes := ?_
          indexed := hholds.indexed
          saved := ?_
          clean := fun hclean => hsaved.trans (hholds.clean hclean) } }
  · simp only [withSink, hholds.content_setContent, hempty, append_nil, hcontent]
    exact hholds.bytes
  · simpa [withSink] using hholds.saved
  · rw [hholds.content_setContent]
    exact hextends.content_le
  · simpa [BufferedFile.AtEnd, sink, withSink, hholds.content_setContent]
      using hextends.atEnd h

theorem Holds.saveIndex : segment.GrowsTo disk
      { segment with index := (segment.index.sync disk segment.baseOffset).1 }
      (segment.index.sync disk segment.baseOffset).2 records := by
  have hsaved : (segment.index.sync disk segment.baseOffset).2.savedIndex
      segment.baseOffset = segment.index.entries :=
    savedIndex_sync hholds.clean
  have hcontent : (segment.index.sync disk segment.baseOffset).2.content
      segment.baseOffset = disk.content segment.baseOffset := by
    rw [Disk.content, Disk.content, sync_disk_segments]
  rw [sync_index]
  exact
    { base_eq := rfl
      mode_eq := rfl
      content_le := by rw [hcontent]
      changed := sync_changedAt _ _ _
      atEnd := fun h => by simpa [BufferedFile.AtEnd, sink, hcontent] using h
      holds :=
        { sized := hholds.sized
          opened := hholds.opened
          healthy := hholds.healthy
          next_eq := hholds.next_eq
          size_eq := hholds.size_eq
          present := by
            rw [sync_disk_segments]
            exact hholds.present
          bytes := by
            rw [hcontent]
            exact hholds.bytes
          indexed := hholds.indexed
          saved := by
            rw [hsaved]
            exact hholds.indexed
          clean := fun _ => hsaved } }

end

theorem GrowsTo.trans {middle : WalSegment} {between : Disk}
    (hleft : segment.GrowsTo before middle between records)
    (hright : middle.GrowsTo between next after more) :
    segment.GrowsTo before next after more where
  holds := hright.holds
  base_eq := hright.base_eq.trans hleft.base_eq
  mode_eq := hright.mode_eq.trans hleft.mode_eq
  content_le := hleft.content_le.trans (hleft.base_eq ▸ hright.content_le)
  changed := hleft.changed.trans (hleft.base_eq ▸ hright.changed)
  atEnd h := hright.atEnd (hleft.atEnd h)

variable (hholds : segment.Holds disk records)

include hholds

/-- Syncing empties the buffer into the file and saves the index, unless the
fsync between the two fails. -/
theorem Holds.sync
    (hend : (segment.sink disk none).AtEnd ∨ segment.writer.buffered = [])
    (fsyncFails : Bool) :
    ∃ next after, segment.sync disk ⟨none, fsyncFails⟩ =
        (next, after, if fsyncFails then .error .io else .ok ()) ∧
      segment.GrowsTo disk next after records ∧
      next.writer.buffered = [] ∧
      (fsyncFails = false → next.index.dirty = false) := by
  obtain ⟨flushed, hflush, hflushed, hempty⟩ := hholds.flush hend
  cases fsyncFails with
  | true =>
    exact ⟨segment.withSink flushed, _, by simp [WalSegment.sync, hflush],
      hflushed, hempty, by simp⟩
  | false =>
    refine ⟨_, _, ?_, hflushed.trans hflushed.holds.saveIndex, hempty, ?_⟩
    · simp only [WalSegment.sync, hflush, hholds.opened, Bool.not_false,
        Bool.and_self, ↓reduceIte, Bool.false_eq_true]
      rfl
    · simp [sync_index]

theorem Holds.stores (hempty : segment.writer.buffered = []) :
    disk.Stores segment.baseOffset records where
  sized := hholds.sized
  bytes := by
    have hbytes := hholds.bytes
    rw [hempty, append_nil] at hbytes
    rw [hholds.find?_eq, hbytes]
  indexed := hholds.saved

theorem Holds.close
    (hend : (segment.sink disk none).AtEnd ∨ segment.writer.buffered = []) :
    ∃ next after, segment.close disk = (next, after, .ok ()) ∧
      after.Stores segment.baseOffset records ∧
      Disk.ChangedAt segment.baseOffset disk after := by
  obtain ⟨flushed, hflush, hflushed, hempty⟩ := hholds.flush hend
  have hgrows := hflushed.trans hflushed.holds.saveIndex
  have hclose : segment.close disk =
      ({ segment.withSink flushed with
          file := { flushed.file with closed := true }
          index := (segment.index.sync (disk.setContent segment.baseOffset
            flushed.content) segment.baseOffset).1 },
        (segment.index.sync (disk.setContent segment.baseOffset
          flushed.content) segment.baseOffset).2, .ok ()) := by
    simp [WalSegment.close, hflush, hholds.opened]
  exact ⟨_, _, hclose, hgrows.holds.stores hempty, hgrows.changed⟩

end WalSegment

variable {disk : Disk} {base : Int}

/-- Opening a stored segment finds its records, with the handle at the end of
the file and the index saved. -/
theorem Disk.Stores.openWALSegment {records : List Bytes}
    (hstores : disk.Stores base records) :
    ∃ segment after, openWALSegment disk base = (after, .ok segment) ∧
      segment.Holds after records ∧ segment.baseOffset = base ∧
      segment.writer.buffered = [] ∧ segment.index.dirty = false ∧
      (segment.sink after none).AtEnd ∧ Disk.ChangedAt base disk after := by
  have hcontent : disk.content base = encodeFrom base records := by
    simp [Disk.content, hstores.bytes]
  let opened : WalSegment := ⟨base, base, 0,
    ⟨(encodeFrom base records).length, false, false⟩, ⟨[], false⟩,
    ⟨disk.savedIndex base, false⟩⟩
  have hscan := WalSegment.scanLoop_encodeFrom hstores.sized
    (Nat.lt_succ_of_le (length_le_encodeFrom base records)) 0
    (show opened.nextOffset = base from rfl)
  let index := WalSegment.rebuilt opened.index base 0 records
  let loaded := (Index.load disk base).2
  have hindexed : Indexed base records index.entries :=
    Indexed.rebuilt hstores.indexed
  have hclean : index.dirty = false → loaded.savedIndex base = index.entries := by
    intro hdirty
    rw [load_savedIndex]
    by_cases hrebuilt : disk.savedIndex base = [] ∧ records ≠ []
    · simp [index, opened, WalSegment.rebuilt, hrebuilt, Index.add] at hdirty
    · simp [index, opened, WalSegment.rebuilt, hrebuilt]
  have hsaved := savedIndex_sync hclean
  have hfile : (index.sync loaded base).2.segments.find? base =
      some (encodeFrom base records) := by
    rw [sync_disk_segments, load_disk_segments, hstores.bytes]
  refine ⟨{ opened with
      nextOffset := base + records.length
      size := 0 + (encodeFrom base records).length
      index := ⟨index.entries, false⟩ }, (index.sync loaded base).2,
    ?_, ?_, rfl, rfl, rfl, ?_, ?_⟩
  · simp only [Streambus.openWALSegment, hcontent, load_index]
    rw [hscan]
    simp only [sync_index]
    rfl
  · exact
      { sized := hstores.sized
        opened := rfl
        healthy := rfl
        next_eq := rfl
        size_eq := Nat.zero_add _
        present := by
          change ((index.sync loaded base).2.segments.find? base).isSome
          simp [hfile]
        bytes := by simp [opened, Disk.content, hfile]
        indexed := hindexed
        saved := hsaved.symm ▸ hindexed
        clean := fun _ => hsaved }
  · exact Or.inr (by simp [WalSegment.sink, opened, Disk.content, hfile])
  · exact (load_changedAt disk base).trans (sync_changedAt _ _ _)

theorem Disk.create_eq (hcontent : disk.content base = []) : disk.create base =
      { disk with segments := disk.segments.insert base [] } := by
  unfold Disk.create
  split
  next content hfile =>
    have hempty : content = [] := by simpa [Disk.content, hfile] using hcontent
    have hsame : disk.segments.insert base [] = disk.segments := by
      apply ext_find?
      intro key
      rw [find?_insert]
      split
      · rename_i hkey
        rw [← hkey, hfile, hempty]
      · rfl
    rw [hsame]
  · rfl

/-- A segment created where the disk has no records is empty; it adds its file
and touches nothing else. -/
theorem createWALSegment_holds (hlower : 0 ≤ base) (hupper : base < 2 ^ 63)
    (hcontent : disk.content base = []) (hindex : disk.savedIndex base = []) :
    ∃ segment after, createWALSegment disk base = (segment, after) ∧
      segment.Holds after [] ∧ segment.baseOffset = base ∧
      segment.writer.buffered = [] ∧ segment.index.dirty = false ∧
      segment.file.appendMode = true ∧
      after.segments = disk.segments.insert base [] ∧
      ∀ key, after.savedIndex key = disk.savedIndex key := by
  let created : Disk := { disk with segments := disk.segments.insert base [] }
  have hsaved : ∀ key, (Index.load created base).2.savedIndex key =
      disk.savedIndex key := by
    intro key
    by_cases hkey : key = base
    · rw [hkey, load_savedIndex]
      rfl
    · exact (load_changedAt created base).savedIndex key hkey
  have hfile : (Index.load created base).2.segments =
      disk.segments.insert base [] := load_disk_segments created base
  refine ⟨⟨base, base, 0, ⟨0, true, false⟩, ⟨[], false⟩, ⟨[], false⟩⟩,
    (Index.load created base).2, ?_, ?_, rfl, rfl, rfl, rfl, hfile, hsaved⟩
  · unfold createWALSegment
    rw [create_eq hcontent]
    change ((⟨base, base, 0, _, _, (Index.load created base).1⟩ : WalSegment),
      (Index.load created base).2) = _
    rw [load_index]
    have hempty : created.savedIndex base = [] := hindex
    rw [hempty]
  · exact
      { sized := ⟨hlower, by simpa using hupper, by simp⟩
        opened := rfl
        healthy := rfl
        next_eq := by simp
        size_eq := rfl
        present := by simp [hfile]
        bytes := by simp [Disk.content, hfile, encodeFrom]
        indexed := Indexed.nil base []
        saved := by
          rw [hsaved, hindex]
          exact Indexed.nil base []
        clean := fun _ => by
          rw [hsaved, hindex] }

end Streambus
