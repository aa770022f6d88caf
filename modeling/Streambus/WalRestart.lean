/-
Restarting and truncating the write-ahead log, and appending several entries
in a row.  A clean close leaves an archive on disk: files whose records tile
the offsets.  Opening an archive gives a healthy log over the same records with
every handle at the end of its file.  Truncation removes every segment that
starts before an offset, whole.
-/
import Streambus.WalHealth

namespace Streambus

open List OrderedMap

namespace Disk

/-- The files tile the offsets from `first` on and hold the records there. -/
structure Archive (disk : Disk) (extents : List (Int × Int)) (first : Int)
    (data : List Bytes) : Prop where
  lower : 0 ≤ first
  nonempty : extents ≠ []
  tiles : Tiles Prod.fst Prod.snd extents first data.length
  files : disk.segments.keys = extents.map Prod.fst
  stores : ∀ extent ∈ extents, disk.Stores extent.1 (slice data extent.1 extent.2)
  unindexed : ∀ base, (∀ extent ∈ extents, extent.1 < base) →
    disk.savedIndex base = []

theorem setContent_content (disk : Disk) (base : Int) :
    disk.setContent base (disk.content base) = disk := by
  unfold setContent
  split
  · rfl
  next bytes hfile =>
    have hsame : disk.segments.insert base (disk.content base) = disk.segments := by
      apply ext_find?
      intro key
      rw [find?_insert]
      split
      · rename_i hkey
        rw [← hkey, content, hfile]
        rfl
      · rfl
    rw [hsame]

end Disk

/-- Closing a segment with nothing to write leaves the disk as it is. -/
theorem WalSegment.Drained.close_disk {segment : WalSegment}
    (hdrained : segment.Drained) (disk : Disk) :
    (segment.close disk).2.1 = disk := by
  have hflush : (segment.sink disk none).flush = (segment.sink disk none, true) := by
    simp [BufferedFile.flush, sink, hdrained.healthy, hdrained.drained]
  have hcontent : (segment.sink disk none).content =
      disk.content segment.baseOffset := rfl
  simp [WalSegment.close, hflush, hdrained.opened, hcontent,
    Disk.setContent_content, Index.sync, hdrained.clean]

namespace Wal

section Restart

variable {wal : Wal} {disk : Disk} {first : Int} {data : List Bytes}

theorem closeSegments_append (front back : List WalSegment) (disk : Disk) :
    closeSegments (front ++ back) disk =
      closeSegments back (closeSegments front disk) := by
  induction front generalizing disk with
  | nil => rfl
  | cons segment rest ih => exact ih _

theorem closeSegments_sealed {segments : List WalSegment}
    (hsealed : ∀ segment ∈ segments, segment.Sealed disk data) :
    closeSegments segments disk = disk := by
  induction segments with
  | nil => rfl
  | cons segment rest ih =>
    rw [closeSegments, (hsealed segment mem_cons_self).close_disk]
    exact ih fun other hother =>
      hsealed other (mem_cons_of_mem segment hother)

theorem Healthy.filed_tiles (hhealthy : wal.Healthy disk first data) :
    Tiles Prod.fst Prod.snd (wal.filed.map WalSegment.extent) first
      data.length := by
  have htiles : Tiles WalSegment.baseOffset WalSegment.nextOffset wal.filed first
      data.length := by
    obtain ⟨middle, hsealed, hcurrent⟩ := tiles_append.mp hhealthy.tiles
    exact tiles_append.mpr ⟨middle, hsealed.filter_nonempty, hcurrent⟩
  refine Tiles.of_map_eq ?_ htiles
  simp [WalSegment.extent]

/-- Closing a healthy log leaves an archive of its records. -/
theorem Healthy.close (hhealthy : wal.Healthy disk first data)
    (hend : wal.FlushesAtEnd disk) :
    (wal.close disk).2.Archive (wal.filed.map WalSegment.extent) first data := by
  obtain ⟨closed, after, hclose, hstores, hchanged⟩ :=
    hhealthy.current.close hend
  have hdisk : (wal.close disk).2 = after := by
    simp [Wal.close, hhealthy.opened, segments_eq hhealthy.listed,
      closeSegments_append, closeSegments_sealed hhealthy.sealed, closeSegments,
      hclose]
  rw [hdisk]
  exact
    { lower := hhealthy.lower
      nonempty := by simp [filed]
      tiles := hhealthy.filed_tiles
      files := by
        rw [hchanged.names, hhealthy.files, map_map]
        rfl
      stores := by
        intro extent hextent
        obtain ⟨segment, hmem, rfl⟩ := mem_map.mp hextent
        rcases mem_append.mp hmem with hsealed | hcurrent
        · obtain ⟨hsealed, hlt⟩ := mem_filter.mp hsealed
          have hlt : segment.baseOffset < segment.nextOffset := by simpa using hlt
          have hne := (hhealthy.sealed_lt hsealed hlt).ne
          have hseal := hhealthy.sealed segment hsealed
          exact ((hseal.holds hlt).stores hseal.drained).frame
            (hchanged.segments _ hne) (hchanged.savedIndex _ hne)
        · obtain rfl := mem_singleton.mp hcurrent
          simpa [WalSegment.extent, hhealthy.current_next] using hstores
      unindexed := by
        intro base hbase
        have hlt : wal.current.baseOffset < base :=
          hbase wal.current.extent (by simp [filed])
        rw [hchanged.savedIndex _ hlt.ne']
        exact hhealthy.unindexed base hlt }

end Restart

end Wal

variable {data : List Bytes} {disk : Disk} {extents : List (Int × Int)}

/-- Opening the files of an archive finds their records. -/
theorem openSegments_stores
    (hbounds : ∀ extent ∈ extents, 0 ≤ extent.1 ∧ extent.1 ≤ extent.2 ∧
      extent.2 ≤ data.length)
    (hordered : (extents.map Prod.fst).Pairwise (· < ·))
    (hstores : ∀ extent ∈ extents,
      disk.Stores extent.1 (slice data extent.1 extent.2)) :
    ∃ segments after, openSegments (extents.map Prod.fst) disk =
        (after, .ok segments) ∧
      segments.map WalSegment.extent = extents ∧
      (∀ segment ∈ segments, segment.Holds after
          (slice data segment.baseOffset segment.nextOffset) ∧
        segment.writer.buffered = [] ∧ segment.index.dirty = false ∧
        (segment.sink after none).AtEnd) ∧
      after.segments.keys = disk.segments.keys ∧
      ∀ key ∉ extents.map Prod.fst,
        after.segments.find? key = disk.segments.find? key ∧
        after.savedIndex key = disk.savedIndex key := by
  induction extents generalizing disk with
  | nil => exact ⟨[], disk, rfl, rfl, by simp, rfl, by simp⟩
  | cons extent rest ih =>
    obtain ⟨segment, opened, hopen, hholds, hbase, hempty, hclean, hatEnd,
      hchanged⟩ := (hstores extent mem_cons_self).openWALSegment
    rw [map_cons, pairwise_cons] at hordered
    have hrest : ∀ other ∈ rest, other.1 ≠ extent.1 := fun other hother =>
      (hordered.1 other.1 (mem_map_of_mem hother)).ne'
    obtain ⟨segments, after, hall, hextents, hsegments, hkeys, hframe⟩ :=
      ih (fun other hother => hbounds other (mem_cons_of_mem _ hother))
        hordered.2 fun other hother =>
          (hstores other (mem_cons_of_mem _ hother)).frame
            (hchanged.segments _ (hrest other hother))
            (hchanged.savedIndex _ (hrest other hother))
    have hnotin : extent.1 ∉ rest.map Prod.fst := fun hmem =>
      lt_irrefl _ (hordered.1 _ hmem)
    obtain ⟨hlow, hle, hhigh⟩ := hbounds extent mem_cons_self
    have hextent : segment.extent = extent := by
      have hnext := hholds.next_eq
      rw [slice_length hlow hle hhigh, hbase] at hnext
      exact Prod.ext hbase (by simpa [WalSegment.extent] using hnext)
    refine ⟨segment :: segments, after, ?_, ?_, ?_, ?_, ?_⟩
    · simp only [map_cons, openSegments, hopen, hall]
    · rw [map_cons, hextent, hextents]
    · intro other hother
      rcases mem_cons.mp hother with rfl | htail
      · obtain ⟨hfile, hsaved⟩ := hframe other.baseOffset (hbase ▸ hnotin)
        have hslice : slice data extent.1 extent.2 =
            slice data other.baseOffset other.nextOffset := by
          rw [← hextent]
          rfl
        refine ⟨hslice ▸ hholds.frame hfile hsaved, hempty, hclean, ?_⟩
        simpa [BufferedFile.AtEnd, WalSegment.sink, Disk.content, hfile] using hatEnd
      · exact hsegments other htail
    · rw [hkeys, hchanged.names]
    · intro key hkey
      rw [map_cons, mem_cons, not_or] at hkey
      obtain ⟨hfile, hsaved⟩ := hframe key hkey.2
      exact ⟨hfile.trans (hchanged.segments key hkey.1),
        hsaved.trans (hchanged.savedIndex key hkey.1)⟩

/-- A log whose segments were all just opened is healthy. -/
theorem Wal.healthy_of_opened {wal : Wal} {first : Int}
    (hopened : wal.closed = false) (hlisted : wal.listed = true)
    (hnext : wal.nextOffset = wal.current.nextOffset) (hlower : 0 ≤ first)
    (htiles : Tiles WalSegment.baseOffset WalSegment.nextOffset
      (wal.sealed ++ [wal.current]) first data.length)
    (hfiles : disk.segments.keys =
      (wal.sealed ++ [wal.current]).map WalSegment.baseOffset)
    (hsegments : ∀ segment ∈ wal.sealed ++ [wal.current], segment.Holds disk
        (slice data segment.baseOffset segment.nextOffset) ∧
      segment.writer.buffered = [] ∧ segment.index.dirty = false)
    (hunindexed : ∀ base, wal.current.baseOffset < base →
      disk.savedIndex base = []) : wal.Healthy disk first data := by
  obtain ⟨middle, -, -, -, hlast⟩ := tiles_append.mp htiles
  have hnonempty : ∀ segment ∈ wal.sealed, segment.baseOffset < segment.nextOffset :=
    htiles.lt_of_increasing (hfiles ▸ disk.segments.keys_pairwise)
  exact
    { opened := hopened
      listed := hlisted
      next_eq := hnext.trans hlast
      lower := hlower
      tiles := htiles
      sealed := by
        intro segment hmem
        obtain ⟨hholds, hempty, hclean⟩ :=
          hsegments segment (mem_append_left _ hmem)
        exact ⟨⟨hholds.opened, hholds.healthy, hempty, hclean⟩, fun _ => hholds⟩
      current := by
        rw [← hlast]
        exact (hsegments wal.current (by simp)).1
      files := by
        rw [hfiles, Wal.filed, filter_eq_self.mpr]
        simpa using hnonempty
      unindexed := hunindexed }

/-- Opening an archive gives a healthy log of its records. -/
theorem Disk.Archive.newWAL {first : Int}
    (harchive : disk.Archive extents first data) (config : WalConfig) :
    ∃ wal after, newWAL disk config = (after, .ok wal) ∧
      wal.Healthy after first data ∧ wal.config = config ∧
      wal.current.writer.buffered = [] ∧ wal.AtEnd after := by
  have hbounds : ∀ extent ∈ extents, 0 ≤ extent.1 ∧ extent.1 ≤ extent.2 ∧
      extent.2 ≤ data.length := by
    intro extent hextent
    obtain ⟨hlow, hle, hhigh⟩ := harchive.tiles.bounds extent hextent
    exact ⟨harchive.lower.trans hlow, hle, hhigh⟩
  obtain ⟨segments, after, hopen, hextents, hsegments, hkeys, hframe⟩ :=
    openSegments_stores hbounds
      (harchive.files ▸ disk.segments.keys_pairwise) harchive.stores
  have hne : segments ≠ [] := by
    rintro rfl
    exact harchive.nonempty hextents.symm
  obtain ⟨sealed, current, rfl⟩ : ∃ front last, segments = front ++ [last] :=
    ⟨_, _, (dropLast_append_getLast hne).symm⟩
  have hfiles : after.segments.keys =
      (sealed ++ [current]).map WalSegment.baseOffset := by
    rw [hkeys, harchive.files, ← hextents, map_map]
    rfl
  have htiles : Tiles WalSegment.baseOffset WalSegment.nextOffset
      (sealed ++ [current]) first data.length :=
    Tiles.of_map_eq (hextents.trans (map_id _).symm) harchive.tiles
  have hcurrent := hsegments current (by simp)
  refine ⟨⟨config, sealed, current, true, current.nextOffset, false⟩, after,
    ?_, ?_, rfl, hcurrent.2.1, hcurrent.2.2.2⟩
  · simp [Streambus.newWAL, harchive.files, hopen]
  · refine Wal.healthy_of_opened rfl rfl rfl harchive.lower htiles hfiles
      (fun segment hmem =>
        ⟨(hsegments segment hmem).1, (hsegments segment hmem).2.1,
          (hsegments segment hmem).2.2.1⟩) ?_
    intro base hbase
    have hbelow : ∀ extent ∈ extents, extent.1 < base := by
      rw [← hextents]
      intro extent hextent
      obtain ⟨segment, hmem, rfl⟩ := mem_map.mp hextent
      obtain ⟨middle, hsealed, hstart, -⟩ := tiles_append.mp htiles
      have hbase : current.baseOffset < base := hbase
      change segment.baseOffset < base
      rcases mem_append.mp hmem with hleft | hright
      · have := hsealed.bounds segment hleft
        omega
      · obtain rfl := mem_singleton.mp hright
        exact hbase
    have hnotin : base ∉ extents.map Prod.fst := by
      intro hmem
      obtain ⟨extent, hextent, heq⟩ := mem_map.mp hmem
      have := hbelow extent hextent
      omega
    rw [(hframe base hnotin).2]
    exact harchive.unindexed base hbelow

/-- A log on an empty directory starts with one empty segment. -/
theorem newWAL_empty (config : WalConfig) :
    ∃ wal after, newWAL Disk.empty config = (after, .ok wal) ∧
      wal.Healthy after 0 [] ∧ wal.config = config ∧
      wal.current.writer.buffered = [] ∧
      wal.current.file.appendMode = true := by
  obtain ⟨segment, after, hcreate, hholds, hbase, hempty, hclean, hmode,
    hsegments, hsaved⟩ := createWALSegment_holds (le_refl 0) (by decide)
      (show Disk.empty.content 0 = [] from rfl) rfl
  refine ⟨⟨config, [], segment, true, 0, false⟩, after, ?_, ?_, rfl, hempty, hmode⟩
  · have hkeys : Disk.empty.segments.keys = [] := rfl
    simp [newWAL, hkeys, openSegments, hcreate]
  · have hnext : segment.nextOffset = 0 := by
      have := hholds.next_eq
      simp [hbase] at this
      exact this
    refine Wal.healthy_of_opened rfl rfl hnext.symm (le_refl 0) ?_ ?_ ?_ ?_
    · exact ⟨hbase, hnext.ge, hnext⟩
    · simp [hsegments, hbase]
      rfl
    · intro other hmem
      obtain rfl : other = segment := by simpa using hmem
      rw [hbase, hnext]
      exact ⟨hholds, hempty, hclean⟩
    · intro base _
      rw [hsaved]
      rfl

namespace Wal

/-- A clean restart: close the log and open the directory again. -/
def restart (wal : Wal) (disk : Disk) : Disk × Except StorageError Wal :=
  newWAL (wal.close disk).2 wal.config

/-- A healthy log comes back from a restart with the same records. -/
theorem Healthy.restart {wal : Wal} {disk : Disk} {first : Int}
    {data : List Bytes} (hhealthy : wal.Healthy disk first data)
    (hend : wal.FlushesAtEnd disk) :
    ∃ next after, wal.restart disk = (after, .ok next) ∧
      next.Healthy after first data ∧ next.config = wal.config ∧
      next.current.writer.buffered = [] ∧ next.AtEnd after :=
  (hhealthy.close hend).newWAL wal.config

end Wal

theorem WalSegment.close_baseOffset (segment : WalSegment) (disk : Disk) :
    (segment.close disk).1.baseOffset = segment.baseOffset := by
  unfold close
  dsimp only
  split <;> rfl

theorem WalSegment.Drained.dropSegment_disk {segment : WalSegment}
    (hdrained : segment.Drained) (disk : Disk) :
    (Wal.dropSegment segment disk).2 =
      { disk with segments := disk.segments.erase segment.baseOffset } := by
  have hdisk := hdrained.close_disk disk
  simp [Wal.dropSegment, hdisk, segment.close_baseOffset]

namespace Wal

/-- Dropping segments with nothing left to write removes their files. -/
theorem truncateSegments_drained (beforeOffset : Int) {segments : List WalSegment}
    (hdrained : ∀ segment ∈ segments, segment.Drained) (disk : Disk) :
    ∃ after, truncateSegments beforeOffset segments disk =
        (segments.filter fun segment => beforeOffset ≤ segment.baseOffset, after) ∧
      after.indexes = disk.indexes ∧
      ∀ key, after.segments.find? key =
        if ∃ segment ∈ segments, segment.baseOffset = key ∧ key < beforeOffset
        then none else disk.segments.find? key := by
  induction segments generalizing disk with
  | nil => exact ⟨disk, rfl, rfl, by simp⟩
  | cons segment rest ih =>
    have hrest : ∀ other ∈ rest, other.Drained := fun other hother =>
      hdrained other (mem_cons_of_mem segment hother)
    by_cases hkeep : beforeOffset ≤ segment.baseOffset
    · obtain ⟨after, htruncate, hindexes, hfind⟩ := ih hrest disk
      refine ⟨after, by simp [truncateSegments, hkeep, htruncate], hindexes,
        fun key => ?_⟩
      rw [hfind]
      congr 1
      simp
      omega
    · have hdrop :=
        (hdrained segment mem_cons_self).dropSegment_disk disk
      obtain ⟨after, htruncate, hindexes, hfind⟩ :=
        ih hrest (dropSegment segment disk).2
      refine ⟨after, by simp [truncateSegments, hkeep, htruncate],
        hindexes.trans (by rw [hdrop]), fun key => ?_⟩
      rw [hfind, hdrop]
      simp only [find?_erase, exists_mem_cons_iff]
      split
      next hlater => rw [if_pos (Or.inr hlater)]
      next hlater =>
        by_cases hkey : segment.baseOffset = key
        · rw [if_pos hkey, if_pos (Or.inl ⟨hkey, by omega⟩)]
        · rw [if_neg hkey, if_neg (not_or.mpr ⟨fun h => hkey h.1, hlater⟩)]

variable {wal : Wal} {disk : Disk} {first : Int} {data : List Bytes}

/-- The log without the sealed segments that start before an offset. -/
def keepFrom (wal : Wal) (beforeOffset : Int) : Wal :=
  { wal with
    sealed := wal.sealed.filter fun segment =>
      beforeOffset ≤ segment.baseOffset }

variable {beforeOffset : Int}

/-- The files of a log that is truncated at or below its current segment. -/
theorem Healthy.keys_truncate (hhealthy : wal.Healthy disk first data)
    (hbefore : beforeOffset ≤ wal.current.baseOffset) {after : Disk}
    (hfind : ∀ key, after.segments.find? key =
      if ∃ segment ∈ wal.sealed, segment.baseOffset = key ∧ key < beforeOffset
      then none else disk.segments.find? key) :
    after.segments.keys =
      (wal.keepFrom beforeOffset).filed.map WalSegment.baseOffset := by
  have hkept : ∀ key, after.segments.find? key =
      if beforeOffset ≤ key then disk.segments.find? key else none := by
    intro key
    rw [hfind]
    by_cases hkey : beforeOffset ≤ key
    · rw [if_pos hkey, if_neg (by rintro ⟨_, _, _, hlt⟩; omega)]
    · rw [if_neg hkey]
      split
      · rfl
      next hnone =>
        rw [← Option.not_isSome_iff_eq_none, ← mem_keys_iff,
          hhealthy.files, filed, map_append, mem_append]
        rintro (hsealed | hcurrent)
        · obtain ⟨segment, hmem, rfl⟩ := mem_map.mp hsealed
          exact hnone ⟨segment, (mem_filter.mp hmem).1, rfl, by omega⟩
        · simp only [map_cons, map_nil, mem_singleton] at hcurrent
          omega
  rw [keys_eq_filter (beforeOffset ≤ ·) hkept, hhealthy.files]
  simp only [keepFrom, filed, map_append, filter_append, filter_map,
    filter_filter, map_cons, map_nil]
  congr 1
  · congr 1
    apply filter_congr
    intro segment _
    exact Bool.and_comm _ _
  · simp [hbefore]

/-- Truncating at or below the current segment keeps the log healthy over the
segments that start at or after the bound. -/
theorem Healthy.truncate (hhealthy : wal.Healthy disk first data)
    (hbefore : beforeOffset ≤ wal.current.baseOffset) :
    ∃ next after start, wal.truncate disk beforeOffset = (next, after, .ok ()) ∧
      wal.Advances disk next after start data ∧
      (∀ segment ∈ wal.segments, beforeOffset ≤ segment.baseOffset →
        start ≤ segment.baseOffset) ∧
      (beforeOffset ≤ first → start = first) := by
  obtain ⟨after, htruncate, hindexes, hfind⟩ :=
    truncateSegments_drained beforeOffset
      (fun segment hmem => (hhealthy.sealed segment hmem).toDrained) disk
  have hfile : ∀ key, beforeOffset ≤ key →
      after.segments.find? key = disk.segments.find? key := by
    intro key hkey
    rw [hfind, if_neg (by rintro ⟨_, _, _, hlt⟩; omega)]
  have hsaved : ∀ key, after.savedIndex key = disk.savedIndex key := by
    simp [Disk.savedIndex, hindexes]
  have hcontent : after.content wal.current.baseOffset =
      disk.content wal.current.baseOffset := by
    rw [Disk.content, Disk.content, hfile _ hbefore]
  obtain ⟨start, hstart, hsame, htiles⟩ :=
    hhealthy.tiles.filter_from beforeOffset
  have hcurrent : [wal.current].filter
      (fun segment => beforeOffset ≤ segment.baseOffset) = [wal.current] := by
    simp [hbefore]
  rw [filter_append, hcurrent] at htiles
  refine ⟨wal.keepFrom beforeOffset, after, start, ?_, ?_, ?_, hsame⟩
  · simp only [Wal.truncate, hhealthy.opened, htruncate, Bool.false_eq_true,
      ↓reduceIte]
    rw [if_neg (by rintro ⟨_, hlt⟩; omega), keepFrom, hhealthy.opened]
  · refine
      { healthy :=
          { opened := hhealthy.opened
            listed := hhealthy.listed
            next_eq := hhealthy.next_eq
            lower := hhealthy.lower.trans hstart
            tiles := htiles
            sealed := fun segment hmem => ?_
            current := hhealthy.current.frame (hfile _ hbefore) (hsaved _)
            files := hhealthy.keys_truncate hbefore hfind
            unindexed := fun base hbase =>
              (hsaved base).trans (hhealthy.unindexed base hbase) }
        config_eq := rfl
        atEnd := fun h => ?_
        appendMode := id
        stored_le := ?_ }
    · obtain ⟨hmem, hkept⟩ := mem_filter.mp hmem
      exact (hhealthy.sealed segment hmem).frame
        (fun _ => hfile _ (by simpa using hkept)) fun _ => hsaved _
    · simpa [AtEnd, BufferedFile.AtEnd, WalSegment.sink, keepFrom, hcontent] using h
    · simp [storedOffset, WalSegment.storedOffset, keepFrom, hcontent]
  · intro segment hmem hkept
    rw [segments_eq hhealthy.listed] at hmem
    refine (htiles.bounds segment ?_).1
    rcases mem_append.mp hmem with hsealed | hcurrent
    · exact mem_append_left _ (mem_filter.mpr ⟨hsealed, by simpa using hkept⟩)
    · exact mem_append_right _ hcurrent

end Wal

/-- The entries all fit the buffer, up to a roll that finds it empty. -/
def FitsBuffer (config : WalConfig) : Nat → Nat → List Bytes → Prop
  | _, _, [] => True
  | size, buffered, entry :: rest =>
    if config.segmentSize ≤ size then buffered = 0
    else
      config.fsyncPolicy ≠ .always ∧
        buffered + recordHeaderSize + entry.length ≤ bufferSize ∧
          FitsBuffer config (size + (recordHeaderSize + entry.length))
            (buffered + (recordHeaderSize + entry.length)) rest

instance decidableFitsBuffer (config : WalConfig) : (size buffered : Nat) →
    (entries : List Bytes) → Decidable (FitsBuffer config size buffered entries)
  | _, _, [] => isTrue trivial
  | size, buffered, entry :: rest =>
    have := decidableFitsBuffer config (size + (recordHeaderSize + entry.length))
      (buffered + (recordHeaderSize + entry.length)) rest
    inferInstanceAs (Decidable (if config.segmentSize ≤ size then buffered = 0
      else config.fsyncPolicy ≠ .always ∧
        buffered + recordHeaderSize + entry.length ≤ bufferSize ∧ _))

/-- Only rolling may go wrong, and not for want of room on the device. -/
@[mk_iff] structure AppendFaults.OnlyRoll (faults : AppendFaults) : Prop where
  quota : faults.roll.quota = Option.none
  write : faults.write = Option.none
  sync : faults.sync = Fault.none

instance (faults : AppendFaults) : Decidable faults.OnlyRoll :=
  decidable_of_iff' _ faults.onlyRoll_iff

namespace WalSegment

/-- An entry that fits the buffer leaves the disk as it is. -/
theorem append_of_room {segment : WalSegment} (disk : Disk) (offset : Int)
    {data : Bytes} (hhealthy : segment.writer.failed = false)
    (hroom : segment.writer.buffered.length + recordHeaderSize + data.length ≤
      bufferSize) :
    segment.append disk offset data none =
      ({ segment with
          writer := ⟨segment.writer.buffered ++ recordHeader offset data ++ data,
            false⟩
          size := segment.size + (recordHeaderSize + data.length) % 2 ^ 32
          nextOffset := offset + 1
          index := segment.index.add offset segment.size }, disk, .ok ()) := by
  let opened := segment.sink disk none
  let headed := { opened with
    writer := ⟨segment.writer.buffered ++ recordHeader offset data, false⟩ }
  have hheader : opened.put (recordHeader offset data) = (headed, true) := by
    apply BufferedFile.put_of_room hhealthy
    change recordHeaderSize ≤ bufferSize - segment.writer.buffered.length
    omega
  have hdata : headed.put data = ({ headed with
      writer := ⟨headed.writer.buffered ++ data, false⟩ }, true) := by
    apply BufferedFile.put_of_room rfl
    simp only [headed, length_append, recordHeader_length]
    omega
  simp only [append, opened, hheader, hdata, ↓reduceIte]
  simp [withSink, headed, opened, sink, Disk.setContent_content]

end WalSegment

namespace Wal

/-- Every byte that appending the entries writes goes where its file ends. -/
def AppendsAllAtEnd (wal : Wal) (disk : Disk) (entries : List Bytes) : Prop :=
  wal.AtEnd disk ∨ FitsBuffer wal.config wal.current.size
    wal.current.writer.buffered.length entries
deriving Decidable

variable {wal : Wal} {disk : Disk} {first : Int} {data : List Bytes}
  {entry : Bytes} {rest : List Bytes}

theorem AppendsAllAtEnd.head (hend : wal.AppendsAllAtEnd disk (entry :: rest)) :
    wal.AppendsAtEnd disk entry := by
  refine hend.imp_right fun hfits => ?_
  by_cases hfull : wal.config.segmentSize ≤ wal.current.size
  · simpa [FitsBuffer, hfull] using hfits
  · simp only [FitsBuffer, hfull, ↓reduceIte] at hfits ⊢
    exact ⟨hfits.1, hfits.2.1⟩

/-- Appending the first of the entries leaves the rest to be appended at the
end too. -/
theorem Healthy.append_cons (hhealthy : wal.Healthy disk first data)
    (hend : wal.AppendsAllAtEnd disk (entry :: rest))
    (hshort : recordHeaderSize + entry.length < 2 ^ 32)
    (hupper : (data.length : Int) + 1 < 2 ^ 63) :
    ∃ next after, wal.append disk entry AppendFaults.none =
        (next, after, .ok (data.length : Int)) ∧
      wal.Advances disk next after first (data ++ [entry]) ∧
      next.AppendsAllAtEnd after rest := by
  obtain ⟨next, after, happend, hadvances, hrolled⟩ :=
    hhealthy.append hend.head hshort hupper
  refine ⟨next, after, happend, hadvances, ?_⟩
  rcases hend with hatEnd | hfits
  · exact Or.inl (hadvances.atEnd hatEnd)
  · by_cases hfull : wal.config.segmentSize ≤ wal.current.size
    · exact Or.inl (hrolled hfull)
    · simp only [FitsBuffer, hfull, ↓reduceIte] at hfits
      refine Or.inr ?_
      have hexact := WalSegment.append_of_room disk wal.nextOffset
        hhealthy.current.healthy hfits.2.1
      simp only [Wal.append, hhealthy.opened, Wal.rollIfFull, hfull, hexact,
        Bool.false_eq_true, ↓reduceIte, AppendFaults.none_write] at happend
      simp only [Wal.syncIfRequired, hfits.1, ↓reduceIte] at happend
      obtain ⟨rfl, -⟩ := Prod.mk.inj happend
      have hsize : (recordHeaderSize + entry.length) % 4294967296 =
          recordHeaderSize + entry.length := Nat.mod_eq_of_lt hshort
      simpa [hsize, Nat.add_assoc] using hfits.2.2

/-- An append of which only the roll may fail, at the fsync of the old segment
or the creation of the new one, either goes as if nothing could fail or leaves
the records as they were. -/
theorem Healthy.append_onlyRoll (hhealthy : wal.Healthy disk first data)
    (hend : wal.AppendsAtEnd disk entry) {faults : AppendFaults}
    (hfaults : faults.OnlyRoll) :
    wal.append disk entry faults = wal.append disk entry AppendFaults.none ∨
      ∃ next after, wal.append disk entry faults = (next, after, .error .io) ∧
        wal.Advances disk next after first data ∧
        next.current.writer.buffered = [] := by
  obtain ⟨⟨quota, fsyncFails⟩, createFails, write, sync⟩ := faults
  obtain ⟨hquota, hwrite, hsync⟩ := hfaults
  subst hquota hwrite hsync
  by_cases hfull : wal.config.segmentSize ≤ wal.current.size
  · have hflush : wal.FlushesAtEnd disk :=
      hend.imp_right fun h => by simpa [hfull] using h
    obtain ⟨current, after, hsync, hadvances, hempty, -⟩ :=
      hhealthy.syncCurrent hflush fsyncFails
    cases fsyncFails with
    | true =>
      refine Or.inr ⟨_, after, ?_, hadvances, hempty⟩
      simp [Wal.append, hhealthy.opened, Wal.rollIfFull, hfull,
        Wal.rollSegment, hsync]
    | false =>
      cases createFails with
      | true =>
        refine Or.inr ⟨_, after, ?_, hadvances, hempty⟩
        simp [Wal.append, hhealthy.opened, Wal.rollIfFull, hfull,
          Wal.rollSegment, hsync]
      | false => exact Or.inl rfl
  · left
    simp [Wal.append, hhealthy.opened, Wal.rollIfFull, hfull]

end Wal

end Streambus
