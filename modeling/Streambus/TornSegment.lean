/-
The write-ahead log over clean restarts and after a crash.  What was
acknowledged before the last sync is read back, if every write goes where its
file ends: a segment opened from disk writes at its handle's cursor, and
reading moves it.  A file cut between two records recovers every complete one
and takes new ones after them; one cut inside a record does not open.
-/
import Streambus.GuardedRun
import Streambus.WalRestart

namespace Streambus

open List

/-- A log in use: its state, the acknowledged entries with the offsets they
were given, and how many of them preceded the last successful sync. -/
structure WalRun where
  wal : Wal
  disk : Disk
  acked : List (Int × Bytes)
  synced : Nat

inductive WalOp where
  | append (entry : Bytes)
  | sync
  | read (offset : Int)
  | restart
deriving Repr, DecidableEq

namespace WalRun

variable (config : WalConfig)

/-- A new log on an empty directory. -/
def start : WalRun :=
  let (segment, disk) := createWALSegment Disk.empty 0
  ⟨⟨config, [], segment, true, 0, false⟩, disk, [], 0⟩

theorem newWAL_start :
    newWAL Disk.empty config = ((start config).disk, .ok (start config).wal) :=
  rfl

/-- One operation.  A restart that cannot open the directory leaves the closed
log. -/
def step (run : WalRun) : WalOp → WalRun
  | .append entry =>
    match run.wal.append run.disk entry AppendFaults.none with
    | (wal, disk, .ok offset) =>
      { run with
        wal := wal
        disk := disk
        acked := run.acked ++ [(offset, entry)] }
    | (wal, disk, .error _) => { run with wal := wal, disk := disk }
  | .sync =>
    match run.wal.sync run.disk Fault.none with
    | (wal, disk, .ok ()) => ⟨wal, disk, run.acked, run.acked.length⟩
    | (wal, disk, .error _) => { run with wal := wal, disk := disk }
  | .read offset => { run with wal := (run.wal.read run.disk offset).1 }
  | .restart =>
    match run.wal.restart run.disk with
    | (disk, .ok wal) => { run with wal := wal, disk := disk }
    | (disk, .error _) =>
      { run with wal := (run.wal.close run.disk).1, disk := disk }

/-- Every byte the operation writes goes where its file ends, and an appended
entry fits the record header. -/
def Allowed (run : WalRun) : WalOp → Prop
  | .append entry =>
    run.wal.AppendsAtEnd run.disk entry ∧
      recordHeaderSize + entry.length < 2 ^ 32 ∧ run.wal.nextOffset + 1 < 2 ^ 63
  | .sync => run.wal.FlushesAtEnd run.disk
  | .read _ => True
  | .restart => run.wal.FlushesAtEnd run.disk

instance (run : WalRun) (op : WalOp) : Decidable (run.Allowed op) := by
  cases op <;> unfold Allowed <;> infer_instance

/-- The log is the array of its acknowledged entries, and those before the
last sync are read back. -/
structure IsArray (run : WalRun) : Prop where
  next_eq : run.wal.nextOffset = run.acked.length
  acked_at : ∀ offset, 0 ≤ offset → offset < run.wal.nextOffset →
    ∃! entry, (offset, entry) ∈ run.acked
  read_eq : ∀ offset entry, (offset, entry) ∈ run.acked → offset < run.synced →
    (run.wal.read run.disk offset).2 = .ok entry

end WalRun

variable (data : List Bytes)

/-- Entries with their positions as offsets. -/
def numbered : List (Int × Bytes) :=
  data.zipIdx.map fun item => ((item.2 : Int), item.1)

theorem numbered_concat (entry : Bytes) :
    numbered (data ++ [entry]) = numbered data ++ [((data.length : Int), entry)] := by
  simp [numbered, zipIdx_append]

theorem numbered_length : (numbered data).length = data.length := by
  simp [numbered]

theorem mem_numbered_iff {data : List Bytes} {offset : Int} {entry : Bytes} :
    (offset, entry) ∈ numbered data ↔
      0 ≤ offset ∧ data[offset.toNat]? = some entry := by
  simp only [numbered, mem_map, Prod.mk.injEq, Prod.exists,
    mk_mem_zipIdx_iff_getElem?]
  constructor
  · rintro ⟨found, index, hindex, rfl, rfl⟩
    exact ⟨Int.natCast_nonneg index, by simpa using hindex⟩
  · rintro ⟨hlower, hget⟩
    exact ⟨entry, offset.toNat, hget, by omega, rfl⟩

namespace WalRun

/-- The log is healthy over the acknowledged entries, and what was synced is
stored. -/
structure Sound (run : WalRun) (data : List Bytes) : Prop where
  healthy : run.wal.Healthy run.disk 0 data
  acked_eq : run.acked = numbered data
  synced_le : (run.synced : Int) ≤ run.wal.storedOffset run.disk

theorem start_sound (config : WalConfig) : (start config).Sound [] := by
  obtain ⟨wal, disk, hnew, hhealthy, -, hempty, -⟩ := newWAL_empty config
  rw [newWAL_start, Prod.mk.injEq, Except.ok.injEq] at hnew
  obtain ⟨rfl, rfl⟩ := hnew
  refine ⟨hhealthy, rfl, ?_⟩
  exact le_refl 0

variable {run : WalRun}

theorem step_sound {data : List Bytes} (hsound : run.Sound data) {op : WalOp}
    (hallowed : run.Allowed op) :
    ∃ more, (run.step op).Sound (data ++ more) := by
  have hhealthy := hsound.healthy
  cases op with
  | append entry =>
    obtain ⟨hend, hshort, hupper⟩ := hallowed
    rw [hhealthy.next_eq] at hupper
    obtain ⟨next, after, happend, hadvances, -⟩ :=
      hhealthy.append hend hshort hupper
    refine ⟨[entry], ?_⟩
    simp only [step, happend]
    exact ⟨hadvances.healthy, by rw [hsound.acked_eq, numbered_concat],
      hsound.synced_le.trans hadvances.stored_le⟩
  | sync =>
    obtain ⟨next, after, hsync, hadvances, hempty⟩ := hhealthy.sync hallowed false
    refine ⟨[], ?_⟩
    simp only [step, Fault.none, hsync, Bool.false_eq_true, ↓reduceIte, append_nil]
    refine ⟨hadvances.healthy, hsound.acked_eq, ?_⟩
    rw [hadvances.healthy.storedOffset_eq hempty, hsound.acked_eq, numbered_length]
  | read offset =>
    refine ⟨[], ?_⟩
    simp only [step, append_nil]
    refine ⟨hhealthy.read offset, hsound.acked_eq, ?_⟩
    rw [Wal.storedOffset_of_rewound (run.wal.read_rewound run.disk offset)]
    exact hsound.synced_le
  | restart =>
    obtain ⟨next, after, hrestart, hnext, -, hempty, -⟩ :=
      hhealthy.restart hallowed
    refine ⟨[], ?_⟩
    simp only [step, hrestart, append_nil]
    refine ⟨hnext, hsound.acked_eq, ?_⟩
    rw [hnext.storedOffset_eq hempty]
    exact hsound.synced_le.trans hhealthy.storedOffset_bounds.2

theorem Sound.isArray {data : List Bytes} (hsound : run.Sound data) :
    run.IsArray where
  next_eq := by rw [hsound.healthy.next_eq, hsound.acked_eq, numbered_length]
  acked_at offset hlower hupper := by
    rw [hsound.healthy.next_eq] at hupper
    have hindex : offset.toNat < data.length := by omega
    refine ⟨data[offset.toNat], ?_, ?_⟩
    · rw [hsound.acked_eq]
      exact mem_numbered_iff.mpr ⟨hlower, getElem?_eq_getElem hindex⟩
    · intro entry hentry
      rw [hsound.acked_eq, mem_numbered_iff, getElem?_eq_getElem hindex] at hentry
      exact (Option.some.inj hentry.2).symm
  read_eq offset entry hentry hsynced := by
    rw [hsound.acked_eq, mem_numbered_iff] at hentry
    exact hsound.healthy.read_stored hentry.1 hentry.2
      (hsynced.trans_le hsound.synced_le)

/-- In every run whose operations write where their files end, the log is the
array of its acknowledged entries. -/
theorem isArray_of_allAllowed (config : WalConfig) (ops : List WalOp)
    (hallowed : AllAllowed step Allowed (start config) ops) :
    (runSteps step (start config) ops).IsArray := by
  obtain ⟨data, hsound⟩ := hallowed.invariant (fun run => ∃ data, run.Sound data)
    (fun run op ⟨data, hsound⟩ hop => by
      obtain ⟨more, hmore⟩ := step_sound hsound hop
      exact ⟨_, hmore⟩) ⟨[], start_sound config⟩
  exact hsound.isArray

/-- Appends, a restart and reads around it, with nothing written off the end
of a file. -/
def restartedOps : List WalOp :=
  [.append [1], .append [2, 3], .sync, .restart, .append [4], .sync, .read 1]

theorem restarted_isArray :
    AllAllowed step Allowed (start ⟨40, .never⟩) restartedOps ∧
      (runSteps step (start ⟨40, .never⟩) restartedOps).IsArray :=
  ⟨by decide +kernel, isArray_of_allAllowed _ _ (by decide +kernel)⟩

/-- A long segment, a restart and a read of its first record, which leaves the
handle in the middle of the file for the next write. -/
def overwritingOps : List WalOp :=
  [.append [1], .append (List.replicate 5000 0), .restart, .read 0,
    .append [8], .sync]

/-- The last entry was acknowledged at offset 2 and synced, and is not read
back. -/
theorem overwriting_not_isArray :
    (runSteps step (start ⟨1048576, .never⟩) overwritingOps).wal.nextOffset = 3 ∧
    (runSteps step (start ⟨1048576, .never⟩) overwritingOps).synced = 3 ∧
    (2, [8]) ∈ (runSteps step (start ⟨1048576, .never⟩) overwritingOps).acked ∧
    ((runSteps step (start ⟨1048576, .never⟩) overwritingOps).wal.read
      (runSteps step (start ⟨1048576, .never⟩) overwritingOps).disk
        2).2.toOption = none := by
  decide +kernel

end WalRun

/-- A directory with one segment file, cut to its first `cut` bytes, and the
index that was saved for it, if any. -/
def crashedDisk (base : Int) (records : List Bytes) (cut : Nat)
    (saved : Option (List IndexEntry)) : Disk where
  segments := (∅ : OrderedMap Int Bytes).insert base
    ((encodeFrom base records).take cut)
  indexes := match saved with
    | none => ∅
    | some entries => (∅ : OrderedMap Int (List IndexEntry)).insert base entries

/-- The records that the first `cut` bytes hold in full. -/
def wholeRecords (base : Int) (records : List Bytes) (cut : Nat) : List Bytes :=
  records.take (completeRecords cut ((encodeFrom base records).take cut))

/-- The cut falls between two records, or past the end. -/
def CutsBetween (base : Int) (records : List Bytes) (cut : Nat) : Prop :=
  (encodeFrom base records).length ≤ cut ∨
    ∃ count ≤ records.length, cut = (encodeFrom base (records.take count)).length

namespace Wal

/-- Append entries one after the other, stopping at an error. -/
def appendAll (wal : Wal) (disk : Disk) :
    List Bytes → Wal × Disk × Except StorageError Unit
  | [] => (wal, disk, .ok ())
  | entry :: rest =>
    match wal.append disk entry AppendFaults.none with
    | (wal, disk, .error error) => (wal, disk, .error error)
    | (wal, disk, .ok _) => appendAll wal disk rest

/-- The log serves exactly these records, the first at `base`. -/
structure Exposes (wal : Wal) (disk : Disk) (base : Int)
    (records : List Bytes) : Prop where
  next_eq : wal.nextOffset = base + records.length
  read_eq : ∀ (count : Nat) (entry : Bytes), records[count]? = some entry →
    (wal.read disk (base + count)).2 = .ok entry
  refuses : ∀ offset, offset < base ∨ base + records.length ≤ offset →
    (wal.read disk offset).2 = .error .offsetOutOfRange

/-- The log serves exactly these records, and goes on to serve whatever is
appended and synced after them. -/
structure Recovers (wal : Wal) (disk : Disk) (base : Int)
    (records : List Bytes) : Prop where
  exposes : wal.Exposes disk base records
  extends_to : ∀ more, Sized base (records ++ more) → ∃ appended written next after,
      wal.appendAll disk more = (appended, written, .ok ()) ∧
      appended.sync written Fault.none = (next, after, .ok ()) ∧
      next.Exposes after base (records ++ more)

variable {wal : Wal} {disk : Disk} {first : Int} {data : List Bytes}
  (hhealthy : wal.Healthy disk first data)

include hhealthy

theorem Healthy.appendAll (hend : wal.AtEnd disk) (entries : List Bytes)
    (hshort : ∀ entry ∈ entries, recordHeaderSize + entry.length < 2 ^ 32)
    (hupper : ((data ++ entries).length : Int) < 2 ^ 63) :
    ∃ next after, wal.appendAll disk entries = (next, after, .ok ()) ∧
      wal.Advances disk next after first (data ++ entries) := by
  induction entries generalizing wal disk data with
  | nil =>
    exact ⟨wal, disk, rfl, by simpa using hhealthy.advances⟩
  | cons entry rest ih =>
    simp only [length_append, length_cons] at hupper
    obtain ⟨middle, between, happend, hleft, -⟩ := hhealthy.append (Or.inl hend)
      (hshort entry (by simp)) (by omega)
    obtain ⟨next, after, hrest, hright⟩ := ih hleft.healthy (hleft.atEnd hend)
      (fun other hother => hshort other (mem_cons_of_mem entry hother))
      (by simp; omega)
    refine ⟨next, after, by simp only [Wal.appendAll, happend, hrest], ?_⟩
    simpa using hleft.trans hright

/-- A healthy log with nothing in its buffer exposes its records. -/
theorem Healthy.exposes {records : List Bytes}
    (hempty : wal.current.writer.buffered = [])
    (hdata : data = List.replicate first.toNat [] ++ records) :
    wal.Exposes disk first records := by
  have hlower := hhealthy.lower
  have hlength : (data.length : Int) = first + records.length := by
    simp [hdata]
    omega
  refine ⟨hhealthy.next_eq.trans hlength, ?_, ?_⟩
  · intro count entry hentry
    have hcount : count < records.length :=
      (List.getElem?_eq_some_iff.mp hentry).1
    apply hhealthy.read_stored (by omega)
    · rw [hdata, getElem?_append_right (by simp)]
      simpa [Int.toNat_add hlower (Int.natCast_nonneg count)] using hentry
    · rw [hhealthy.storedOffset_eq hempty]
      omega
  · intro offset hoffset
    exact hhealthy.read_out_of_range (by omega)

/-- A healthy log at the end of its file recovers its records. -/
theorem Healthy.recovers {records : List Bytes} (hend : wal.AtEnd disk)
    (hempty : wal.current.writer.buffered = [])
    (hdata : data = List.replicate first.toNat [] ++ records) :
    wal.Recovers disk first records := by
  have hlower := hhealthy.lower
  refine ⟨hhealthy.exposes hempty hdata, fun more hsized => ?_⟩
  obtain ⟨appended, written, happend, hadvances⟩ :=
    hhealthy.appendAll hend more
      (fun entry hentry => hsized.short entry (mem_append_right _ hentry))
      (by
        have hupper := hsized.upper
        simp only [hdata, length_append, length_replicate] at hupper ⊢
        omega)
  obtain ⟨next, after, hsync, hsynced, hdrained⟩ :=
    hadvances.healthy.sync (Or.inl (hadvances.atEnd hend)) false
  exact ⟨appended, written, next, after, happend, hsync,
    hsynced.healthy.exposes hdrained (by simp [hdata])⟩

end Wal

/-- A cut is between records or inside one. -/
theorem cutsBetween_or_torn (base : Int) (records : List Bytes) (cut : Nat) :
    CutsBetween base records cut ∨
      ∃ (whole : List Bytes) (data : Bytes) (rest : List Bytes) (torn : Nat),
        records = whole ++ data :: rest ∧ 0 < torn ∧
        torn < recordHeaderSize + data.length ∧
        (encodeFrom base records).take cut = encodeFrom base whole ++
          (encodeRecord (base + whole.length) data).take torn := by
  induction records generalizing base cut with
  | nil => exact Or.inl (Or.inl (by simp [encodeFrom]))
  | cons data rest ih =>
    by_cases hinside : cut < recordHeaderSize + data.length
    · by_cases hzero : cut = 0
      · exact Or.inl (Or.inr ⟨0, by simp, by simp [hzero, encodeFrom]⟩)
      · refine Or.inr ⟨[], data, rest, cut, rfl, Nat.pos_of_ne_zero hzero,
          hinside, ?_⟩
        have hhead : cut ≤ (encodeRecord base data).length := by simp; omega
        simp [encodeFrom, take_append_of_le_length hhead]
    · have hhead : (encodeRecord base data).length ≤ cut := by simp; omega
      rcases ih (base + 1) (cut - (recordHeaderSize + data.length)) with
        hbetween | ⟨whole, torn, later, count, rfl, hpos, hlt, htake⟩
      · refine Or.inl (hbetween.imp ?_ ?_)
        · intro hlong
          simp only [encodeFrom, length_append, encodeRecord_length]
          omega
        · rintro ⟨count, hcount, heq⟩
          refine ⟨count + 1, by simp; omega, ?_⟩
          simp only [take_succ_cons, encodeFrom, length_append, encodeRecord_length]
          omega
      · refine Or.inr ⟨data :: whole, torn, later, count, rfl, hpos, hlt, ?_⟩
        have hoffset : base + ((data :: whole).length : Int) =
            base + 1 + whole.length := by
          push_cast [length_cons]; ring
        rw [encodeFrom, take_append, take_of_length_le hhead,
          encodeRecord_length, htake, hoffset, encodeFrom, append_assoc]

variable {records : List Bytes} {base : Int} {cut : Nat}

/-- A file cut between records holds exactly its whole records. -/
theorem CutsBetween.take_eq (hcut : CutsBetween base records cut)
    (hsized : Sized base records) :
    (encodeFrom base records).take cut =
      encodeFrom base (wholeRecords base records cut) := by
  obtain ⟨count, hcount, htake⟩ : ∃ count ≤ records.length,
      (encodeFrom base records).take cut = encodeFrom base (records.take count) := by
    rcases hcut with hlong | ⟨count, hcount, rfl⟩
    · exact ⟨records.length, le_refl _, by
        rw [take_of_length_le hlong, take_length]⟩
    · refine ⟨count, hcount, ?_⟩
      conv_lhs => rw [← take_append_drop count records,
        encodeFrom_append, take_append_drop]
      exact take_left' rfl
  have hdone : Sized base (records.take count) := by
    rw [← take_append_drop count records] at hsized
    exact hsized.left
  have hfuel : ((encodeFrom base (records.take count)).take
      (encodeFrom base (records.take count)).length).length ≤ cut := by
    rw [take_length, ← htake, length_take]
    exact Nat.min_le_left _ _
  have hcomplete : completeRecords cut
      (encodeFrom base (records.take count)) = count := by
    have hiff := lt_completeRecords_iff hdone _ hfuel
    rw [take_length] at hiff
    have hlength : (records.take count).length = count := by
      rw [length_take]
      omega
    refine eq_of_forall_lt_iff fun index => ?_
    rw [hiff, hlength, and_iff_left_iff_imp]
    intro hindex
    conv_rhs => rw [← take_append_drop (index + 1) (records.take count),
      encodeFrom_append, length_append]
    omega
  rw [wholeRecords, htake, hcomplete]

theorem wholeRecords_sized (hsized : Sized base records) (cut : Nat) :
    Sized base (wholeRecords base records cut) := by
  rw [← take_append_drop (completeRecords cut
    ((encodeFrom base records).take cut)) records] at hsized
  exact hsized.left

/-- A file cut between records is an archive of its whole records. -/
theorem CutsBetween.archive (hcut : CutsBetween base records cut)
    (hsized : Sized base records) {saved : Option (List IndexEntry)}
    (hsaved : Indexed base (wholeRecords base records cut) (saved.getD [])) :
    (crashedDisk base records cut saved).Archive
      [(base, base + (wholeRecords base records cut).length)] base
      (List.replicate base.toNat [] ++ wholeRecords base records cut) := by
  have hlower := hsized.lower
  have hslice : slice (List.replicate base.toNat [] ++
      wholeRecords base records cut) base
        (base + (wholeRecords base records cut).length) =
      wholeRecords base records cut := by
    rw [slice, take_of_length_le (by simp; omega), drop_left' (by simp)]
  have hindexes : ∀ key, (crashedDisk base records cut saved).savedIndex key =
      if base = key then saved.getD [] else [] := by
    intro key
    cases saved with
    | none => simp [Disk.savedIndex, crashedDisk]
    | some entries =>
      simp only [Disk.savedIndex, crashedDisk, OrderedMap.find?_insert]
      split <;> rfl
  exact
    { lower := hlower
      nonempty := by simp
      tiles := ⟨rfl, by simp, by simp [Tiles]; omega⟩
      files := rfl
      stores := by
        intro extent hextent
        obtain rfl := mem_singleton.mp hextent
        rw [hslice]
        refine ⟨wholeRecords_sized hsized cut, ?_, ?_⟩
        · rw [← hcut.take_eq hsized]
          simp [crashedDisk]
        · rw [hindexes, if_pos rfl]
          exact hsaved
      unindexed := by
        intro key hkey
        have hlt : base < key := hkey _ mem_cons_self
        rw [hindexes, if_neg hlt.ne] }

theorem newWAL_torn {whole : List Bytes} {data : Bytes} {rest : List Bytes}
    {torn : Nat} (hsized : Sized base records)
    (hrecords : records = whole ++ data :: rest) (hpos : 0 < torn)
    (htorn : torn < recordHeaderSize + data.length)
    (htake : (encodeFrom base records).take cut = encodeFrom base whole ++
      (encodeRecord (base + whole.length) data).take torn)
    (saved : Option (List IndexEntry)) (config : WalConfig) :
    ∃ error, (newWAL (crashedDisk base records cut saved) config).2 =
      .error error := by
  have hcontent : (crashedDisk base records cut saved).content base =
      encodeFrom base whole ++
        (encodeRecord (base + whole.length) data).take torn := by
    simp [crashedDisk, Disk.content, htake]
  have hwhole : Sized base (whole ++ [data]) := by
    rw [hrecords, append_cons] at hsized
    exact hsized.left
  have hfuel : whole.length <
      ((crashedDisk base records cut saved).content base).length + 1 := by
    have := length_le_encodeFrom base whole
    rw [hcontent, length_append]
    omega
  obtain ⟨segment, error, hscan⟩ := WalSegment.scanLoop_torn hwhole hpos htorn
    hfuel 0 ⟨base, base, 0,
      ⟨((crashedDisk base records cut saved).content base).length, false, false⟩,
      ⟨[], false⟩, (Index.load (crashedDisk base records cut saved) base).1⟩
  rw [← hcontent] at hscan
  have hkeys : (crashedDisk base records cut saved).segments.keys = [base] := rfl
  refine ⟨error, ?_⟩
  simp only [newWAL, hkeys, openSegments, openWALSegment, hscan]

/-- A crashed segment recovers exactly when the crash cut it between
records. -/
theorem recovers_iff_cutsBetween {base : Int} {records : List Bytes}
    (hsized : Sized base records) (cut : Nat) {saved : Option (List IndexEntry)}
    (hsaved : Indexed base (wholeRecords base records cut) (saved.getD []))
    (config : WalConfig) :
    (∃ disk wal, newWAL (crashedDisk base records cut saved) config =
        (disk, .ok wal) ∧
      wal.Recovers disk base (wholeRecords base records cut)) ↔
      CutsBetween base records cut := by
  constructor
  · rintro ⟨disk, wal, hnew, -⟩
    rcases cutsBetween_or_torn base records cut with
      hbetween | ⟨whole, data, rest, torn, hrecords, hpos, htorn, htake⟩
    · exact hbetween
    · obtain ⟨error, herror⟩ :=
        newWAL_torn hsized hrecords hpos htorn htake saved config
      rw [hnew] at herror
      simp at herror
  · intro hbetween
    obtain ⟨wal, disk, hnew, hhealthy, -, hempty, hend⟩ :=
      (hbetween.archive hsized hsaved).newWAL config
    exact ⟨disk, wal, hnew, hhealthy.recovers hend hempty rfl⟩

/-- Two records of which the crash kept the first. -/
theorem recovers_first_record : Sized 7 [[1, 2], [3]] ∧
      Indexed 7 (wholeRecords 7 [[1, 2], [3]] 18) [] ∧
      ((∃ disk wal, newWAL (crashedDisk 7 [[1, 2], [3]] 18 none)
          ⟨1048576, .never⟩ = (disk, .ok wal) ∧
        wal.Recovers disk 7 (wholeRecords 7 [[1, 2], [3]] 18)) ↔
        CutsBetween 7 [[1, 2], [3]] 18) :=
  have hsized : Sized 7 [[1, 2], [3]] := ⟨by decide, by decide, by decide⟩
  ⟨hsized, Indexed.nil _ _,
    recovers_iff_cutsBetween hsized 18 (Indexed.nil _ _) ⟨1048576, .never⟩⟩

/-- The same file with one byte more does not open, though its first record is
complete. -/
theorem newWAL_cut_in_header : wholeRecords 7 [[1, 2], [3]] 19 = [[1, 2]] ∧
      (newWAL (crashedDisk 7 [[1, 2], [3]] 19 none)
        ⟨1048576, .never⟩).2.toOption = none := by
  decide +kernel

end Streambus
