/-
The storage of a Raft node: the log entries after the last snapshot, the
snapshot, and the hard and configuration states, each in its file.  As a log it
holds consecutive entries that start after the snapshot, with the terms they
were saved with, as long as entries are saved after the snapshot and the
directory is opened again only after entries were saved since then.
-/
import Streambus.ByteOrder
import Streambus.GuardedRun
import Streambus.Outcome

namespace Streambus.Consensus

inductive EntryType where
  | normal
  | confChange
  | confChangeV2
deriving Repr, DecidableEq

structure Entry where
  term : UInt64
  index : UInt64
  type : EntryType
  data : Bytes
deriving Repr, DecidableEq

structure HardState where
  term : UInt64
  vote : UInt64
  commit : UInt64
deriving Repr, DecidableEq

def HardState.empty : HardState := ⟨0, 0, 0⟩

/-- The members of a cluster that vote. -/
structure ConfState where
  voters : List UInt64
deriving Repr, DecidableEq

structure Snapshot where
  data : Bytes
  index : UInt64
  term : UInt64
  confState : ConfState
deriving Repr, DecidableEq

def Snapshot.empty : Snapshot := ⟨[], 0, 0, ⟨[]⟩⟩

/-- What the entries file holds. -/
structure EntriesFile where
  firstIndex : UInt64
  entries : List Entry
deriving Repr, DecidableEq

/-- The files of a storage directory. -/
structure StorageDir where
  hardstate : Option HardState
  snapshot : Option Snapshot
  entries : Option EntriesFile
deriving Repr, DecidableEq

def StorageDir.empty : StorageDir := ⟨none, none, none⟩

structure DiskStorage where
  dir : StorageDir
  entries : List Entry
  hardState : HardState
  confState : ConfState
  snapshot : Snapshot
  firstIndex : UInt64
deriving Repr, DecidableEq

inductive StorageError where
  | compacted (index : UInt64)
  | outOfRange (index : UInt64)
  | outOfOrder (index last : UInt64)
  | snapshotOlder
deriving Repr, DecidableEq

/-- The slice of a list up to an index. -/
def sliceTo (entries : List Entry) (stop : UInt64) : Outcome (List Entry) :=
  if stop.toNat ≤ entries.length then .returned (entries.take stop.toNat)
  else .panicked

/-- The slice of a list from an index on. -/
def sliceFrom (entries : List Entry) (start : UInt64) : Outcome (List Entry) :=
  if start.toNat ≤ entries.length then .returned (entries.drop start.toNat)
  else .panicked

namespace DiskStorage

variable (s : DiskStorage)

def persistHardState : DiskStorage :=
  { s with dir.hardstate := some s.hardState }

def persistSnapshot : DiskStorage :=
  { s with dir.snapshot := some s.snapshot }

def persistEntries : DiskStorage :=
  { s with dir.entries := some ⟨s.firstIndex, s.entries⟩ }

def loadHardState : DiskStorage :=
  match s.dir.hardstate with
  | none => s
  | some state => { s with hardState := state }

def loadSnapshot : DiskStorage :=
  match s.dir.snapshot with
  | none => s
  | some snap =>
    { s with
      snapshot := snap
      confState := snap.confState
      firstIndex := if snap.index > 0 then snap.index + 1
        else s.firstIndex }

def loadEntries : DiskStorage :=
  match s.dir.entries with
  | none => s
  | some file =>
    { s with firstIndex := file.firstIndex, entries := file.entries }

def load : DiskStorage :=
  s.loadHardState.loadSnapshot.loadEntries

def newDiskStorage (dir : StorageDir) : DiskStorage :=
  load ⟨dir, [], .empty, ⟨[]⟩, .empty, 1⟩

def initialState : HardState × ConfState :=
  (s.hardState, s.confState)

/-- The index of the last entry, or the one before the first. -/
def lastIndex : UInt64 :=
  match s.entries.getLast? with
  | none => s.firstIndex - 1
  | some entry => entry.index

def term (i : UInt64) : Outcome (Except StorageError UInt64) :=
  -- Entry 0 is a dummy entry with term 0.
  if i = 0 then .returned (.ok 0)
  else if i = s.snapshot.index then .returned (.ok s.snapshot.term)
  else if i < s.firstIndex then .returned (.error (.compacted i))
  else if i > s.lastIndex then .returned (.error (.outOfRange i))
  else if s.entries = [] then .returned (.ok 0)
  else
    match s.entries[(i - s.firstIndex).toNat]? with
    | none => .panicked
    | some entry => .returned (.ok entry.term)

def saveState (state : HardState) : DiskStorage :=
  { s with hardState := state }.persistHardState

/-- Put entries in the place of all from the first of them on. -/
def saveEntries (entries : List Entry) :
    Outcome (DiskStorage × Option StorageError) :=
  match entries.head? with
  | none => .returned (s, none)
  | some first =>
    if first.index > s.lastIndex + 1 then
      .returned (s, some (.outOfOrder first.index s.lastIndex))
    else do
      let kept ←
        if first.index ≤ s.lastIndex then
          sliceTo s.entries (first.index - s.firstIndex)
        else .returned s.entries
      .returned ({ s with entries := kept ++ entries }.persistEntries, none)

/-- Keep a newer snapshot, and of the entries those after it.  The entries
file is left as it is. -/
def saveSnapshot (snap : Snapshot) : DiskStorage × Option StorageError :=
  if snap.index ≤ s.snapshot.index then (s, some .snapshotOlder)
  else
    let s := { s with snapshot := snap, confState := snap.confState }
    let s :=
      if snap.index ≥ s.firstIndex then
        let compactIndex := snap.index - s.firstIndex + 1
        { s with
          entries := if compactIndex < UInt64.ofNat s.entries.length then
              s.entries.drop compactIndex.toNat
            else []
          firstIndex := snap.index + 1 }
      else s
    (s.persistSnapshot, none)

def compact (compactIndex : UInt64) : Outcome (DiskStorage × Option StorageError) :=
  if compactIndex < s.firstIndex then
    .returned (s, some (.outOfRange compactIndex))
  else if compactIndex > s.lastIndex then
    .returned (s, some (.outOfRange compactIndex))
  else do
    let kept ← sliceFrom s.entries (compactIndex - s.firstIndex)
    .returned ({ s with entries := kept, firstIndex := compactIndex
                 }.persistEntries, none)

/-- Save a snapshot of a state machine at the applied index, and drop the
entries that followers need no more. -/
def snapshotAndCompact (appliedIndex catchUpEntries : UInt64) (data : Bytes) :
    Outcome (DiskStorage × Option StorageError) :=
  let snap : Snapshot := ⟨data, appliedIndex, 0, s.initialState.2⟩
  match s.saveSnapshot snap with
  | (s, some error) => .returned (s, some error)
  | (s, none) =>
    s.compact (if appliedIndex > catchUpEntries then
      appliedIndex - catchUpEntries else appliedIndex)

end DiskStorage

open List Nat UInt64

/-- The entries have consecutive indexes from the given one on. -/
def Consecutive : Nat → List Entry → Prop
  | _, [] => True
  | index, entry :: rest =>
    entry.index.toNat = index ∧ Consecutive (index + 1) rest

instance decidableConsecutive : (index : Nat) → (entries : List Entry) →
    Decidable (Consecutive index entries)
  | _, [] => isTrue trivial
  | index, _ :: rest =>
    @instDecidableAnd _ _ inferInstance (decidableConsecutive (index + 1) rest)

theorem consecutive_append {index : Nat} {front back : List Entry} :
    Consecutive index (front ++ back) ↔ Consecutive index front ∧
      Consecutive (index + front.length) back := by
  induction front generalizing index with
  | nil => simp [Consecutive]
  | cons entry rest ih =>
    simp only [cons_append, Consecutive, ih, length_cons, and_assoc]
    rw [show index + 1 + rest.length = index + (rest.length + 1) by omega]

namespace Consecutive

variable {index : Nat} {entries : List Entry}

section

variable (hentries : Consecutive index entries)

include hentries

theorem take (count : Nat) : Consecutive index (entries.take count) := by
  rw [← take_append_drop count entries, consecutive_append] at hentries
  exact hentries.1

theorem drop (count : Nat) : Consecutive (index + count) (entries.drop count) := by
  by_cases hcount : count ≤ entries.length
  · rw [← take_append_drop count entries, consecutive_append,
      length_take_of_le hcount] at hentries
    exact hentries.2
  · rw [List.drop_of_length_le (Nat.le_of_not_le hcount)]
    exact trivial

variable {entry : Entry}

theorem index_eq {k : Nat} (hentry : entries[k]? = some entry) :
    entry.index.toNat = index + k := by
  induction entries generalizing index k with
  | nil => cases hentry
  | cons head rest ih =>
    cases k with
    | zero =>
      cases hentry
      exact hentries.1
    | succ k =>
      rw [ih hentries.2 (by simpa using hentry)]
      omega

theorem le_of_mem (hentry : entry ∈ entries) :
    index ≤ entry.index.toNat ∧ entry.index.toNat < index + entries.length := by
  obtain ⟨k, hk⟩ := mem_iff_getElem?.mp hentry
  have hlength := (List.getElem?_eq_some_iff.mp hk).1
  rw [hentries.index_eq hk]
  omega

theorem last_eq {last : Entry} (hlast : entries.getLast? = some last) :
    last.index.toNat + 1 = index + entries.length := by
  rw [getLast?_eq_getElem?] at hlast
  have hlength := (List.getElem?_eq_some_iff.mp hlast).1
  rw [hentries.index_eq hlast]
  omega

theorem eq_of_index {left right : Entry} (hleft : left ∈ entries)
    (hright : right ∈ entries) (hsame : left.index = right.index) :
    left = right := by
  obtain ⟨j, hj⟩ := mem_iff_getElem?.mp hleft
  obtain ⟨k, hk⟩ := mem_iff_getElem?.mp hright
  have hposition : j = k := by
    have := hentries.index_eq hj
    have := hentries.index_eq hk
    rw [hsame] at *
    omega
  rw [hposition, hk] at hj
  exact (Option.some.inj hj).symm

theorem pairwise : entries.Pairwise fun left right => left.index < right.index := by
  induction entries generalizing index with
  | nil => exact List.Pairwise.nil
  | cons entry rest ih =>
    refine List.Pairwise.cons ?_ (ih hentries.2)
    intro other hother
    have := hentries.1
    have := (le_of_mem hentries.2 hother).1
    rw [lt_iff_toNat_lt]
    omega

/-- The indexes of entries do not wrap around. -/
theorem bound (hne : entries ≠ []) : index + entries.length ≤ UInt64.size := by
  obtain ⟨last, hlast⟩ : ∃ last, entries.getLast? = some last :=
    Option.ne_none_iff_exists'.mp (by simpa using hne)
  have := hentries.last_eq hlast
  have := last.index.toNat_lt_size
  omega

end

end Consecutive

/-- Entries as Raft hands them over: consecutive, from index 1 on. -/
structure EntryRun where
  entries : List Entry
  first : Nat
  positive : 0 < first
  consecutive : Consecutive first entries

namespace EntryRun

variable (run : EntryRun) {entry : Entry}

theorem first_eq (hhead : run.entries.head? = some entry) :
    entry.index.toNat = run.first := by
  have hentry : run.entries[0]? = some entry := by
    rw [← head?_eq_getElem?, hhead]
  simpa using run.consecutive.index_eq hentry

theorem head_ne_zero (hhead : run.entries.head? = some entry) : entry.index ≠ 0 := by
  intro hzero
  have hfirst := run.first_eq hhead
  rw [hzero] at hfirst
  exact run.positive.ne hfirst

end EntryRun

/-- The term that each index was last saved with, by its entry. -/
def recordTerms (saved : UInt64 → UInt64) (entries : List Entry) :
    UInt64 → UInt64 := fun index =>
  match entries.find? fun entry => entry.index = index with
  | some entry => entry.term
  | none => saved index

variable {saved : UInt64 → UInt64}

theorem recordTerms_of_notMem {entries : List Entry} {index : UInt64}
    (hnone : ∀ entry ∈ entries, entry.index ≠ index) :
    recordTerms saved entries index = saved index := by
  have hfind : entries.find? (fun entry => entry.index = index) = none := by
    simpa using hnone
  rw [recordTerms, hfind]

theorem recordTerms_of_mem {first : Nat} {entries : List Entry}
    (hentries : Consecutive first entries) {entry : Entry}
    (hentry : entry ∈ entries) :
    recordTerms saved entries entry.index = entry.term := by
  cases hfind : entries.find? (fun other => other.index = entry.index) with
  | none => simpa using find?_eq_none.mp hfind entry hentry
  | some found =>
    have hsame : found.index = entry.index := by
      simpa using find?_some hfind
    rw [recordTerms, hfind,
      hentries.eq_of_index (mem_of_find?_eq_some hfind) hentry hsame]

namespace DiskStorage

/-- The storage is a log of consecutive entries with the saved terms. -/
structure Faithful (s : DiskStorage) (saved : UInt64 → UInt64) : Prop where
  index_eq : ∀ k entry, s.entries[k]? = some entry →
    entry.index = s.firstIndex + UInt64.ofNat k
  term_eq : ∀ i, s.firstIndex - 1 ≤ i → i ≤ s.lastIndex →
    s.term i = .returned (.ok (saved i))
  snapshot_le : s.snapshot.index ≤ s.lastIndex

variable (s : DiskStorage)

/-- The entries file, if there is one, was written since the last snapshot. -/
def EntriesWritten : Prop :=
  ∀ file, s.dir.entries = some file → file.firstIndex = s.firstIndex
deriving Decidable

/-- The log starts after the snapshot, and the files hold what was written to
them. -/
structure Aligned (s : DiskStorage) (saved : UInt64 → UInt64) : Prop where
  first : s.firstIndex = s.snapshot.index + 1
  consecutive : Consecutive s.firstIndex.toNat s.entries
  exhausted : s.firstIndex = 0 → s.entries = []
  confState : s.confState = s.snapshot.confState
  hardstate : s.dir.hardstate.getD .empty = s.hardState
  snapshot : s.dir.snapshot.getD .empty = s.snapshot
  missing : s.dir.entries = none → s.entries = []
  written : ∀ file, s.dir.entries = some file → 0 < file.firstIndex.toNat ∧
      file.firstIndex.toNat ≤ s.snapshot.index.toNat + 1 ∧
      (file.firstIndex = s.firstIndex → file.entries = s.entries)
  saved_zero : saved 0 = 0
  saved_snapshot : saved s.snapshot.index = s.snapshot.term
  saved_entries : ∀ entry ∈ s.entries, saved entry.index = entry.term

theorem newDiskStorage_eq (dir : StorageDir) : newDiskStorage dir =
      { dir := dir
        entries := (dir.entries.map EntriesFile.entries).getD []
        hardState := dir.hardstate.getD .empty
        confState := (dir.snapshot.getD .empty).confState
        snapshot := dir.snapshot.getD .empty
        firstIndex := (dir.entries.map EntriesFile.firstIndex).getD
          ((dir.snapshot.getD .empty).index + 1) } := by
  obtain ⟨hardstate, snapshot, entries⟩ := dir
  have hfirst : ∀ snap : Snapshot,
      (if snap.index > 0 then snap.index + 1 else 1) = snap.index + 1 := by
    intro snap
    split
    · rfl
    next hzero =>
      have : snap.index = 0 := by
        rw [gt_iff_lt, lt_iff_toNat_lt] at hzero
        exact UInt64.toNat_inj.mp (by simpa using hzero)
      rw [this]
      rfl
  cases hardstate <;> cases snapshot <;> cases entries <;>
    simp [newDiskStorage, load, loadHardState, loadSnapshot, loadEntries,
      hfirst, Snapshot.empty]

/-- The storage after a newer snapshot. -/
def withSnapshot (snap : Snapshot) : DiskStorage where
  dir := { s.dir with snapshot := some snap }
  entries := s.entries.drop (snap.index.toNat + 1 - s.firstIndex.toNat)
  hardState := s.hardState
  confState := snap.confState
  snapshot := snap
  firstIndex := snap.index + 1

namespace Aligned

variable {s : DiskStorage} {saved : UInt64 → UInt64}

section

variable (haligned : s.Aligned saved)

include haligned

theorem first_sub : s.firstIndex - 1 = s.snapshot.index := by
  rw [haligned.first, UInt64.add_sub_cancel]

theorem first_toNat (hne : s.firstIndex ≠ 0) :
    s.firstIndex.toNat = s.snapshot.index.toNat + 1 := by
  have hpos : s.firstIndex.toNat ≠ 0 := fun hzero =>
    hne (UInt64.toNat_inj.mp hzero)
  have hfirst := congrArg UInt64.toNat haligned.first
  rw [UInt64.toNat_add] at hfirst
  have := s.snapshot.index.toNat_lt
  change _ = (_ + 1) % 2 ^ 64 at hfirst
  omega

/-- The last index, unless the snapshot is at the greatest index there is. -/
theorem lastIndex_toNat (hne : s.firstIndex ≠ 0) :
    s.lastIndex.toNat + 1 = s.firstIndex.toNat + s.entries.length := by
  unfold lastIndex
  cases hlast : s.entries.getLast? with
  | none =>
    rw [getLast?_eq_none_iff] at hlast
    rw [haligned.first_sub, haligned.first_toNat hne, hlast]
    rfl
  | some last => exact haligned.consecutive.last_eq hlast

theorem lastIndex_of_exhausted (hzero : s.firstIndex = 0) :
    s.lastIndex = s.snapshot.index := by
  unfold lastIndex
  rw [haligned.exhausted hzero]
  exact haligned.first_sub

theorem snapshot_le : s.snapshot.index ≤ s.lastIndex := by
  by_cases hzero : s.firstIndex = 0
  · exact (haligned.lastIndex_of_exhausted hzero).ge
  · rw [le_iff_toNat_le]
    have := haligned.lastIndex_toNat hzero
    have := haligned.first_toNat hzero
    omega

theorem index_eq {k : Nat} {entry : Entry} (hentry : s.entries[k]? = some entry) :
    entry.index = s.firstIndex + UInt64.ofNat k := by
  have hindex := haligned.consecutive.index_eq hentry
  have := entry.index.toNat_lt
  apply UInt64.toNat_inj.mp
  rw [UInt64.toNat_add, UInt64.toNat_ofNat']
  omega

theorem term_eq {i : UInt64} (hlow : s.firstIndex - 1 ≤ i) (hhigh : i ≤ s.lastIndex) :
    s.term i = .returned (.ok (saved i)) := by
  rw [haligned.first_sub] at hlow
  unfold term
  by_cases hzero : i = 0
  · rw [if_pos hzero, hzero, haligned.saved_zero]
  rw [if_neg hzero]
  by_cases hsnapshot : i = s.snapshot.index
  · rw [if_pos hsnapshot, hsnapshot, haligned.saved_snapshot]
  rw [if_neg hsnapshot]
  -- The index is that of an entry.
  rw [le_iff_toNat_le] at hlow hhigh
  have hafter : s.snapshot.index.toNat ≠ i.toNat := fun heq =>
    hsnapshot (UInt64.toNat_inj.mp heq).symm
  have hne : s.firstIndex ≠ 0 := by
    intro hexhausted
    rw [haligned.lastIndex_of_exhausted hexhausted] at hhigh
    omega
  have hfirst := haligned.first_toNat hne
  have hlast := haligned.lastIndex_toNat hne
  have hle : s.firstIndex ≤ i := by
    rw [le_iff_toNat_le]
    omega
  have hlength : (i - s.firstIndex).toNat < s.entries.length := by
    rw [UInt64.toNat_sub_of_le _ _ hle]
    omega
  have hentries : s.entries ≠ [] := by
    intro hnil
    rw [hnil] at hlength
    exact not_lt_zero _ hlength
  obtain ⟨entry, hentry⟩ : ∃ entry,
      s.entries[(i - s.firstIndex).toNat]? = some entry :=
    ⟨_, getElem?_eq_getElem hlength⟩
  rw [if_neg (not_lt.mpr hle), if_neg (not_lt.mpr (le_iff_toNat_le.mpr hhigh)),
    if_neg hentries, hentry]
  have hindex := haligned.consecutive.index_eq hentry
  rw [UInt64.toNat_sub_of_le _ _ hle] at hindex
  have hsame : entry.index = i := by
    apply UInt64.toNat_inj.mp
    omega
  have hterm := haligned.saved_entries entry (mem_of_getElem? hentry)
  rw [hsame] at hterm
  rw [hterm]

theorem faithful : s.Faithful saved :=
  ⟨fun _ _ hentry => haligned.index_eq hentry,
    fun _ hlow hhigh => haligned.term_eq hlow hhigh, haligned.snapshot_le⟩

/-- The directory brings back what is in memory exactly if its entries were
written since the last snapshot. -/
theorem newDiskStorage_eq_iff : newDiskStorage s.dir = s ↔ s.EntriesWritten := by
  rw [newDiskStorage_eq]
  constructor
  · intro hsame file hfile
    have hfirst := congrArg DiskStorage.firstIndex hsame
    rw [hfile] at hfirst
    exact hfirst
  · intro hwritten
    obtain ⟨dir, entries, hardState, confState, snapshot, firstIndex⟩ := s
    have hentries : (dir.entries.map EntriesFile.entries).getD [] =
        entries := by
      cases hfile : dir.entries with
      | none => exact (haligned.missing hfile).symm
      | some file =>
        exact (haligned.written file hfile).2.2 (hwritten file hfile)
    have hfirst : (dir.entries.map EntriesFile.firstIndex).getD
        (snapshot.index + 1) = firstIndex := by
      cases hfile : dir.entries with
      | none => exact haligned.first.symm
      | some file => exact hwritten file hfile
    have hsnapshot : dir.snapshot.getD .empty = snapshot := haligned.snapshot
    have hhardState : dir.hardstate.getD .empty = hardState :=
      haligned.hardstate
    have hconfState : confState = snapshot.confState := haligned.confState
    simp only [hsnapshot, hentries, hfirst, hhardState, hconfState]

end

section

variable (haligned : s.Aligned saved)

include haligned

theorem saveState (state : HardState) : (s.saveState state).Aligned saved :=
  { haligned with hardstate := rfl }

/-- No gap means that there are further indexes. -/
theorem le_lastIndex_add {index : UInt64} (hpos : index ≠ 0)
    (hgap : index ≤ s.lastIndex + 1) :
    s.firstIndex ≠ 0 ∧ index.toNat ≤ s.firstIndex.toNat + s.entries.length := by
  have hnext : s.lastIndex + 1 ≠ 0 := by
    intro hwraps
    rw [hwraps] at hgap
    exact hpos (UInt64.toNat_inj.mp (Nat.le_zero.mp hgap))
  have hne : s.firstIndex ≠ 0 := by
    intro hzero
    rw [haligned.lastIndex_of_exhausted hzero, ← haligned.first] at hnext
    exact hnext hzero
  refine ⟨hne, ?_⟩
  rw [← haligned.lastIndex_toNat hne]
  rw [le_iff_toNat_le] at hgap
  exact hgap.trans (mod_le _ _)

/-- Entries that start in the log replace its end. -/
theorem saveEntries_eq {entries : List Entry} {first : Entry}
    (hhead : entries.head? = some first) (hpos : first.index ≠ 0)
    (hfirst : s.firstIndex ≤ first.index)
    (hgap : first.index ≤ s.lastIndex + 1) :
    s.saveEntries entries =
      let kept := s.entries.take (first.index.toNat - s.firstIndex.toNat)
      .returned ({ s with entries := kept ++ entries }.persistEntries, none) := by
  obtain ⟨hne, hlength⟩ := haligned.le_lastIndex_add hpos hgap
  have hlast := haligned.lastIndex_toNat hne
  simp only [saveEntries, hhead, not_lt.mpr hgap, ↓reduceIte]
  by_cases hinside : first.index ≤ s.lastIndex
  · rw [if_pos hinside, sliceTo, UInt64.toNat_sub_of_le _ _ hfirst, if_pos (by omega)]
    rfl
  · rw [le_iff_toNat_le] at hinside
    rw [if_neg (by rwa [le_iff_toNat_le]), take_of_length_le (by omega)]
    rfl

/-- Entries that leave no gap make it panic exactly if they start before the
log. -/
theorem saveEntries_panicked_iff (run : EntryRun) :
    s.saveEntries run.entries = .panicked ↔ ∃ first, run.entries.head? = some first ∧
        first.index ≤ s.lastIndex + 1 ∧ first.index < s.firstIndex := by
  cases hhead : run.entries.head? with
  | none => simp [saveEntries, hhead]
  | some first =>
    have hpos := run.head_ne_zero hhead
    by_cases hgap : first.index ≤ s.lastIndex + 1
    · by_cases hfirst : s.firstIndex ≤ first.index
      · rw [haligned.saveEntries_eq hhead hpos hfirst hgap]
        simp [hfirst]
      · rw [not_le] at hfirst
        refine iff_of_true ?_ ⟨first, rfl, hgap, hfirst⟩
        obtain ⟨hne, -⟩ := haligned.le_lastIndex_add hpos hgap
        have hlast := haligned.lastIndex_toNat hne
        rw [lt_iff_toNat_lt] at hfirst
        have hinside : first.index ≤ s.lastIndex := by
          rw [le_iff_toNat_le]
          omega
        -- The difference of the indexes wraps around.
        have hwraps : ¬ (first.index - s.firstIndex).toNat ≤ s.entries.length := by
          have hlastLt := s.lastIndex.toNat_lt
          have hindex : first.index.toNat ≠ 0 := fun hzero =>
            hpos (UInt64.toNat_inj.mp hzero)
          rw [UInt64.toNat_sub]
          omega
        simp only [saveEntries, hhead, not_lt.mpr hgap, ↓reduceIte,
          if_pos hinside, sliceTo, if_neg hwraps]
        rfl
    · refine iff_of_false ?_ ?_
      · rw [not_le] at hgap
        simp [saveEntries, hhead, hgap]
      · rintro ⟨_, hsame, hle, _⟩
        cases hsame
        exact hgap hle

/-- Entries that do not start before the log are saved, or refused because of
a gap. -/
theorem saveEntries (run : EntryRun)
    (hfirst : ∀ first, run.entries.head? = some first →
      first.index ≤ s.lastIndex + 1 → s.firstIndex ≤ first.index) :
    (∃ error, s.saveEntries run.entries = .returned (s, some error)) ∨
      ∃ after, s.saveEntries run.entries = .returned (after, none) ∧
        after.Aligned (recordTerms saved run.entries) := by
  cases hhead : run.entries.head? with
  | none =>
    rw [head?_eq_none_iff] at hhead
    refine .inr ⟨s, by simp [DiskStorage.saveEntries, hhead], ?_⟩
    rw [hhead]
    exact haligned
  | some first =>
    have hpos := run.head_ne_zero hhead
    by_cases hgap : first.index ≤ s.lastIndex + 1
    · have hle := hfirst first hhead hgap
      obtain ⟨hne, hlength⟩ := haligned.le_lastIndex_add hpos hgap
      refine .inr ⟨_, haligned.saveEntries_eq hhead hpos hle hgap, ?_⟩
      rw [le_iff_toNat_le] at hle
      have hrun : Consecutive first.index.toNat run.entries := by
        rw [run.first_eq hhead]
        exact run.consecutive
      have hkept := haligned.consecutive.take (first.index.toNat - s.firstIndex.toNat)
      have hkeptLength : (s.entries.take
          (first.index.toNat - s.firstIndex.toNat)).length =
            first.index.toNat - s.firstIndex.toNat :=
        length_take_of_le (by omega)
      have hbefore : ∀ index : UInt64, index.toNat < first.index.toNat →
          recordTerms saved run.entries index = saved index := by
        intro index hindex
        apply recordTerms_of_notMem
        intro entry hentry heq
        have := (hrun.le_of_mem hentry).1
        rw [heq] at this
        omega
      have hfirstNat := haligned.first_toNat hne
      refine
        { first := haligned.first
          consecutive := ?_
          exhausted := fun hzero => absurd hzero hne
          confState := haligned.confState
          hardstate := haligned.hardstate
          snapshot := haligned.snapshot
          missing := fun hnone => by cases hnone
          written := ?_
          saved_zero := ?_
          saved_snapshot := ?_
          saved_entries := ?_ }
      · apply consecutive_append.mpr
        refine ⟨hkept, ?_⟩
        change Consecutive (s.firstIndex.toNat + _) _
        rw [hkeptLength, Nat.add_sub_cancel' hle]
        exact hrun
      · intro file hfile
        cases hfile
        refine ⟨?_, ?_, fun _ => rfl⟩
        · exact hfirstNat ▸ succ_pos _
        · exact hfirstNat.le
      · rw [hbefore 0, haligned.saved_zero]
        change 0 < _
        omega
      · exact (hbefore _ (by change s.snapshot.index.toNat < _; omega)).trans
          haligned.saved_snapshot
      · intro entry hentry
        rcases mem_append.mp hentry with hold | hnew
        · have := (hkept.le_of_mem hold).2
          rw [hbefore _ (by omega)]
          exact haligned.saved_entries entry (mem_of_mem_take hold)
        · exact recordTerms_of_mem hrun hnew
    · rw [not_le] at hgap
      exact .inl ⟨.outOfOrder first.index s.lastIndex,
        by simp [DiskStorage.saveEntries, hhead, hgap]⟩

end

variable {snap : Snapshot}

/-- A newer snapshot takes the place of the entries up to it. -/
theorem saveSnapshot_eq (haligned : s.Aligned saved)
    (hnewer : s.snapshot.index < snap.index) :
    s.firstIndex.toNat = s.snapshot.index.toNat + 1 ∧
      s.saveSnapshot snap = (s.withSnapshot snap, none) := by
  have hlt := lt_iff_toNat_lt.mp hnewer
  have hsnapLt := snap.index.toNat_lt
  have hne : s.firstIndex ≠ 0 := by
    intro hzero
    have hwraps := haligned.first_sub
    rw [hzero] at hwraps
    have hgreatest : s.snapshot.index.toNat = 2 ^ 64 - 1 := by
      rw [← hwraps]
      rfl
    omega
  have hfirst := haligned.first_toNat hne
  refine ⟨hfirst, ?_⟩
  have hle : s.firstIndex ≤ snap.index := by
    rw [le_iff_toNat_le]
    omega
  have hcompact : (snap.index - s.firstIndex + 1).toNat =
      snap.index.toNat + 1 - s.firstIndex.toNat := by
    rw [UInt64.toNat_add, UInt64.toNat_sub_of_le _ _ hle]
    change (_ + 1) % 2 ^ 64 = _
    omega
  have hlength : s.entries.length < 2 ^ 64 := by
    by_cases hnil : s.entries = []
    · simp [hnil]
    · have hbound := haligned.consecutive.bound hnil
      change _ ≤ 2 ^ 64 at hbound
      omega
  have hentries : (if snap.index - s.firstIndex + 1 <
      UInt64.ofNat s.entries.length then
        s.entries.drop (snap.index - s.firstIndex + 1).toNat else []) =
      s.entries.drop (snap.index.toNat + 1 - s.firstIndex.toNat) := by
    rw [hcompact]
    split
    · rfl
    next hall =>
      rw [lt_iff_toNat_lt, toNat_ofNat_of_lt' hlength] at hall
      rw [drop_of_length_le (by omega)]
  simp only [DiskStorage.saveSnapshot, not_le.mpr hnewer, hle, ↓reduceIte, hentries]
  rfl

/-- A newer snapshot leaves the log aligned. -/
theorem withSnapshot (haligned : s.Aligned saved)
    (hnewer : s.snapshot.index < snap.index) :
    (s.withSnapshot snap).Aligned (Function.update saved snap.index snap.term) := by
  obtain ⟨hfirst, -⟩ := haligned.saveSnapshot_eq hnewer
  have hlt := lt_iff_toNat_lt.mp hnewer
  have hsnapLt := snap.index.toNat_lt
  have hnext : (snap.index + 1).toNat = (snap.index.toNat + 1) % 2 ^ 64 :=
    UInt64.toNat_add _ _
  have hafter : ∀ entry ∈ s.entries.drop (snap.index.toNat + 1 - s.firstIndex.toNat),
      snap.index.toNat < entry.index.toNat := by
    intro entry hentry
    have := ((haligned.consecutive.drop _).le_of_mem hentry).1
    omega
  have hupdate : ∀ index : UInt64, index ≠ snap.index →
      Function.update saved snap.index snap.term index = saved index :=
    fun index hne => Function.update_of_ne hne _ _
  refine
    { first := rfl
      consecutive := ?_
      exhausted := ?_
      confState := rfl
      hardstate := haligned.hardstate
      snapshot := rfl
      missing := ?_
      written := ?_
      saved_zero := ?_
      saved_snapshot := Function.update_self _ _ _
      saved_entries := ?_ }
  · have hdrop := haligned.consecutive.drop
      (snap.index.toNat + 1 - s.firstIndex.toNat)
    change Consecutive (snap.index + 1).toNat (s.entries.drop _)
    by_cases hnil : s.entries.drop (snap.index.toNat + 1 - s.firstIndex.toNat) = []
    · rw [hnil]
      exact trivial
    · have hbound := hdrop.bound hnil
      have hpos := length_pos_iff.mpr hnil
      change _ ≤ 2 ^ 64 at hbound
      have hindex : (snap.index + 1).toNat = s.firstIndex.toNat +
          (snap.index.toNat + 1 - s.firstIndex.toNat) := by
        omega
      rw [hindex]
      exact hdrop
  · intro hzero
    have hwraps : (snap.index + 1).toNat = 0 := by
      change snap.index + 1 = 0 at hzero
      rw [hzero]
      rfl
    apply drop_of_length_le
    by_cases hnil : s.entries = []
    · simp [hnil]
    · have hbound := haligned.consecutive.bound hnil
      change _ ≤ 2 ^ 64 at hbound
      omega
  · intro hnone
    change s.entries.drop _ = []
    rw [haligned.missing hnone, drop_nil]
  · intro file hfile
    obtain ⟨hpos, hle, _⟩ := haligned.written file hfile
    refine ⟨hpos, ?_, ?_⟩
    · change _ ≤ snap.index.toNat + 1
      omega
    · intro hsame
      change file.firstIndex = snap.index + 1 at hsame
      have := congrArg UInt64.toNat hsame
      omega
  · rw [hupdate, haligned.saved_zero]
    intro hzero
    rw [← hzero] at hlt
    exact not_lt_zero _ hlt
  · intro entry hentry
    rw [hupdate]
    · exact haligned.saved_entries entry (mem_of_mem_drop hentry)
    · intro heq
      have := hafter entry hentry
      rw [heq] at this
      exact lt_irrefl _ this
theorem saveSnapshot_of_older (holder : ¬ s.snapshot.index < snap.index) :
    s.saveSnapshot snap = (s, some .snapshotOlder) := by
  rw [DiskStorage.saveSnapshot, if_pos (not_lt.mp holder)]

/-- No index up to the snapshot can be compacted: its entries are gone. -/
theorem compact_fails (haligned : s.Aligned saved) {index : UInt64}
    (hpos : 0 < index.toNat) (hle : index ≤ s.snapshot.index)
    (after : DiskStorage) : s.compact index ≠ .returned (after, none) := by
  unfold compact
  by_cases hzero : s.firstIndex = 0
  · -- There is no entry that could be kept.
    have hpanics : sliceFrom s.entries (index - s.firstIndex) = .panicked := by
      rw [haligned.exhausted hzero, hzero, UInt64.sub_zero, sliceFrom,
        length_nil, if_neg (not_le.mpr hpos)]
    rw [hpanics]
    split
    · simp
    · split
      · simp
      · intro hreturned
        cases hreturned
  · have hbefore : index < s.firstIndex := by
      have := haligned.first_toNat hzero
      rw [le_iff_toNat_le] at hle
      rw [lt_iff_toNat_lt]
      omega
    rw [if_pos hbefore]
    simp

/-- A snapshot of the state machine is never taken with success. -/
theorem snapshotAndCompact_fails (haligned : s.Aligned saved)
    (appliedIndex catchUpEntries : UInt64) (data : Bytes)
    (after : DiskStorage) :
    s.snapshotAndCompact appliedIndex catchUpEntries data ≠
      .returned (after, none) := by
  unfold snapshotAndCompact
  dsimp only
  by_cases hnewer : s.snapshot.index < appliedIndex
  · have hsnap : s.snapshot.index <
        (⟨data, appliedIndex, 0, s.initialState.2⟩ : Snapshot).index := hnewer
    rw [(haligned.saveSnapshot_eq hsnap).2]
    have hlt := lt_iff_toNat_lt.mp hnewer
    refine (haligned.withSnapshot hsnap).compact_fails ?_ ?_ after
    · split
      next hmore =>
        have hmore := lt_iff_toNat_lt.mp hmore
        rw [UInt64.toNat_sub_of_le _ _ (UInt64.le_iff_toNat_le.mpr hmore.le)]
        omega
      · omega
    · change _ ≤ appliedIndex
      split
      next hmore => exact UInt64.sub_le (UInt64.le_of_lt hmore)
      · exact le_refl _
  · rw [saveSnapshot_of_older hnewer]
    simp

end Aligned

theorem aligned_new : (newDiskStorage .empty).Aligned fun _ => 0 where
  first := rfl
  consecutive := trivial
  exhausted := fun _ => rfl
  confState := rfl
  hardstate := rfl
  snapshot := rfl
  missing := fun _ => rfl
  written := fun _ hfile => by cases hfile
  saved_zero := rfl
  saved_snapshot := rfl
  saved_entries := fun _ hentry => by cases hentry

end DiskStorage

inductive StorageOp where
  | saveEntries (run : EntryRun)
  | saveSnapshot (snap : Snapshot)
  | createSnapshot (appliedIndex catchUpEntries : UInt64) (data : Bytes)
  | saveState (state : HardState)
  | reopen

/-- A storage, the terms that were saved, and whether an operation has
panicked. -/
structure StorageRun where
  storage : DiskStorage
  saved : UInt64 → UInt64
  faulted : Bool

namespace StorageRun

def start : StorageRun := ⟨.newDiskStorage .empty, fun _ => 0, false⟩

variable (run : StorageRun)

/-- The run after an operation came to an end. -/
def continueWith (saved : UInt64 → UInt64) :
    Outcome (DiskStorage × Option StorageError) → StorageRun
  | .panicked => { run with faulted := true }
  | .returned (storage, none) => { run with storage := storage, saved := saved }
  | .returned (storage, some _) => { run with storage := storage }

def step (op : StorageOp) : StorageRun :=
  if run.faulted then run
  else
    match op with
    | .saveEntries entries =>
      run.continueWith (recordTerms run.saved entries.entries)
        (run.storage.saveEntries entries.entries)
    | .saveSnapshot snap =>
      run.continueWith (Function.update run.saved snap.index snap.term)
        (.returned (run.storage.saveSnapshot snap))
    | .createSnapshot appliedIndex catchUpEntries data =>
      run.continueWith run.saved
        (run.storage.snapshotAndCompact appliedIndex catchUpEntries data)
    | .saveState state =>
      { run with storage := run.storage.saveState state }
    | .reopen => { run with storage := .newDiskStorage run.storage.dir }

/-- Entries start in the log, the directory is opened again only with its
entries written, and no snapshot is taken of the state machine. -/
def Lossless : StorageOp → Prop
  | .saveEntries entries => ∀ first, entries.entries.head? = some first →
      first.index ≤ run.storage.lastIndex + 1 → run.storage.firstIndex ≤ first.index
  | .createSnapshot _ _ _ => False
  | .reopen => run.storage.EntriesWritten
  | _ => True

theorem Lossless.step {run : StorageRun} {op : StorageOp}
    (hlossless : run.Lossless op)
    (hrun : run.faulted = false ∧ run.storage.Aligned run.saved) :
    (run.step op).faulted = false ∧
      (run.step op).storage.Aligned (run.step op).saved := by
  obtain ⟨hfaulted, haligned⟩ := hrun
  unfold StorageRun.step
  rw [if_neg (by simp [hfaulted])]
  cases op with
  | saveEntries entries =>
    rcases haligned.saveEntries entries hlossless with
      ⟨error, herror⟩ | ⟨after, hafter, haligned'⟩
    · dsimp only
      rw [herror]
      exact ⟨hfaulted, haligned⟩
    · dsimp only
      rw [hafter]
      exact ⟨hfaulted, haligned'⟩
  | saveSnapshot snap =>
    dsimp only
    by_cases hnewer : run.storage.snapshot.index < snap.index
    · rw [(haligned.saveSnapshot_eq hnewer).2]
      exact ⟨hfaulted, haligned.withSnapshot hnewer⟩
    · rw [DiskStorage.Aligned.saveSnapshot_of_older hnewer]
      exact ⟨hfaulted, haligned⟩
  | createSnapshot appliedIndex catchUpEntries data => exact hlossless.elim
  | saveState state => exact ⟨hfaulted, haligned.saveState state⟩
  | reopen =>
    rw [haligned.newDiskStorage_eq_iff.mpr hlossless]
    exact ⟨hfaulted, haligned⟩

/-- Over every lossless run the storage is a faithful log.  The directory brings
back what is in memory exactly if its entries were written since the last
snapshot; entries that leave no gap make the storage panic exactly if they
start before the log; and a snapshot of the state machine is never taken with
success. -/
theorem faithful_of_lossless {ops : List StorageOp}
    (hlossless : AllAllowed step Lossless start ops) :
    let run := runSteps step start ops
    run.faulted = false ∧ run.storage.Faithful run.saved ∧
      (DiskStorage.newDiskStorage run.storage.dir = run.storage ↔
        run.storage.EntriesWritten) ∧
      (∀ entries : EntryRun, run.storage.saveEntries entries.entries = .panicked ↔
          ∃ first, entries.entries.head? = some first ∧
            first.index ≤ run.storage.lastIndex + 1 ∧
            first.index < run.storage.firstIndex) ∧
      ∀ appliedIndex catchUpEntries data after,
        run.storage.snapshotAndCompact appliedIndex catchUpEntries data ≠
          .returned (after, none) := by
  obtain ⟨hfaulted, haligned⟩ := hlossless.invariant
    (fun run => run.faulted = false ∧ run.storage.Aligned run.saved)
    (fun run op hrun hop => hop.step hrun) ⟨rfl, DiskStorage.aligned_new⟩
  exact ⟨hfaulted, haligned.faithful, haligned.newDiskStorage_eq_iff,
    haligned.saveEntries_panicked_iff, haligned.snapshotAndCompact_fails⟩

/-- Entries of term 1 with the given index and the ones after it. -/
def entriesFrom (first : UInt64) (data : List Bytes) : List Entry :=
  data.mapIdx fun k bytes => ⟨1, first + UInt64.ofNat k, .normal, bytes⟩

/-- Three entries. -/
def threeEntries : StorageOp :=
  .saveEntries ⟨entriesFrom 1 [[97], [98], [99]], 1, one_pos, by decide⟩

/-- A snapshot that another node sent. -/
def received (index : UInt64) : Snapshot := ⟨[], index, 1, ⟨[1]⟩⟩

theorem faithful_of_lossless_sample : AllAllowed step Lossless start
        [threeEntries, .saveSnapshot (received 2),
          .saveEntries ⟨entriesFrom 3 [[100]], 3, by decide, by decide⟩,
          .reopen] ∧
      (runSteps step start [threeEntries, .saveSnapshot (received 2),
          .saveEntries ⟨entriesFrom 3 [[100]], 3, by decide, by decide⟩,
          .reopen]).storage.term 3 = .returned (.ok 1) := by
  have hlossless : AllAllowed step Lossless start
      [threeEntries, .saveSnapshot (received 2),
        .saveEntries ⟨entriesFrom 3 [[100]], 3, by decide, by decide⟩,
        .reopen] := by
    refine ⟨?_, trivial, ?_, ?_, trivial⟩
    · rintro first hfirst -
      cases hfirst
      decide +kernel
    · rintro first hfirst -
      cases hfirst
      decide +kernel
    · change DiskStorage.EntriesWritten _
      decide +kernel
  refine ⟨hlossless, ?_⟩
  exact (faithful_of_lossless hlossless).2.1.term_eq 3 (by decide +kernel)
    (by decide +kernel)

/-- Entries that start before the log make it panic.  A snapshot of the state
machine fails and loses the term of its last entry.  A directory opened after
a snapshot brings back the entries from before it. -/
theorem not_faithful : (runSteps step start [threeEntries, .saveSnapshot (received 2),
      .saveEntries ⟨entriesFrom 2 [[98]], 2, by decide, by decide⟩]).faulted = true ∧
    (∃ s, (runSteps step start [threeEntries]).storage.snapshotAndCompact 3 1
        [] = .returned (s, some (.outOfRange 2)) ∧
      s.term 3 = .returned (.ok 0) ∧
      (runSteps step start [threeEntries]).saved 3 = 1) ∧
    ((runSteps step start
        [threeEntries, .saveSnapshot (received 10)]).storage.firstIndex = 11 ∧
      (runSteps step start [threeEntries, .saveSnapshot (received 10),
        .reopen]).storage.firstIndex = 1 ∧
      (runSteps step start [threeEntries, .saveSnapshot (received 10),
        .reopen]).storage.lastIndex = 3) := by
  refine ⟨by decide +kernel, ⟨(runSteps step start [threeEntries,
    .createSnapshot 3 1 []]).storage, ?_⟩, ?_⟩
  · decide +kernel
  · decide +kernel

end StorageRun

end Streambus.Consensus
