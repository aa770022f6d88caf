/-
Memtables and their compaction.  A memtable maps offsets to stored records; a
compaction groups the immutable tables by size or by time and merges each
group that is large enough.  Go sorts equal sizes and iterates maps in an
unspecified order, so both orders are inputs here.  No order changes which
offsets the tables hold.
-/
import Streambus.RecordFormat

namespace Streambus

open List

/-- A table of stored records by offset. -/
abbrev MemTable := OrderedMap Int Bytes

namespace MemTable

/-- The size of a table: eight bytes of key for each entry, and its value. -/
def size (table : MemTable) : Int :=
  (table.entries.map fun entry => (8 + entry.2.length : Int)).sum

/-- The table answers for an offset. -/
def Has (table : MemTable) (offset : Int) : Prop :=
  (table.find? offset).isSome
deriving Decidable

end MemTable

/-- Put items in the given order of positions; anything that is not an order
of them leaves them as they are. -/
def arrange {α : Type*} (order : List Nat) (items : List α) : List α :=
  if order.Perm (List.range items.length) then
    order.filterMap fun index => items[index]?
  else items

inductive CompactionStrategy where
  | leveled
  | sizeTiered
  | timeWindow
deriving Repr, DecidableEq

structure CompactionConfig where
  strategy : CompactionStrategy
  sizeRatio : Int
deriving Repr, DecidableEq

/-- The choices a compaction leaves open: how the sort places the tables and in
which order the groups come out of their map. -/
structure CompactionChoice where
  sortOrder : List Nat
  groupOrder : List Nat
deriving Repr, DecidableEq

/-- Merge tables into a new one; later tables win. -/
def mergeMemTables (tables : List MemTable) : MemTable :=
  tables.foldl (fun output table => table.entries.foldl
    (fun output entry => output.insert entry.1 entry.2) output) ∅

/-- Merge a group that has at least `enough` tables. -/
def mergeGroup (enough : Nat) (tables : List MemTable) : List MemTable :=
  if tables.length < enough then tables else [mergeMemTables tables]

/-- Sort by size: the chosen order if it is sorted. -/
def sortBySize (order : List Nat) (tables : List MemTable) : List MemTable :=
  if ((arrange order tables).map MemTable.size).Pairwise (· ≤ ·) then
    arrange order tables
  else tables.insertionSort fun left right => left.size ≤ right.size

/-- Add a table to the group of its key; groups are in order of appearance. -/
def addToGroup (key : Int) (table : MemTable) :
    List (Int × List MemTable) → List (Int × List MemTable)
  | [] => [(key, [table])]
  | group :: rest =>
    if group.1 = key then (key, group.2 ++ [table]) :: rest
    else group :: addToGroup key table rest

def groupTables (key : MemTable → Int) (tables : List MemTable) :
    List (List MemTable) :=
  (tables.foldl (fun groups table => addToGroup (key table) table groups)
    []).map Prod.snd

/-- How often the threshold is multiplied before it reaches the size, at most
`rounds` times; the product is taken in 64 bits. -/
def levelLoop (size sizeRatio : Int) : Nat → Int → Int
  | 0, _ => 0
  | rounds + 1, threshold =>
    if threshold < size then
      levelLoop size sizeRatio rounds (Int.bmod (threshold * sizeRatio) (2 ^ 64)) + 1
    else 0

def computeLevel (size baseThreshold sizeRatio : Int) : Int :=
  if size ≤ 0 ∨ baseThreshold ≤ 0 then 0
  else levelLoop size sizeRatio 10 baseThreshold

/-- Group by level.  The smallest table sets the base threshold. -/
def assignLevels (order : List Nat) (sizeRatio : Int) (tables : List MemTable) :
    List (List MemTable) :=
  let sorted := sortBySize order tables
  let smallest := (sorted.head?.map MemTable.size).getD 0
  let baseThreshold := if smallest ≤ 0 then 1024 else smallest
  groupTables (fun table => computeLevel table.size baseThreshold sizeRatio) sorted

/-- Split a sorted list into runs whose sizes are within twice the first. -/
def bucketLoop : List MemTable → Int → List MemTable → List (List MemTable)
  | bucket, _, [] => if bucket = [] then [] else [bucket]
  | bucket, smallest, table :: rest =>
    let size := if table.size ≤ 0 then 1 else table.size
    if bucket = [] then bucketLoop [table] size rest
    else if size ≤ smallest * 2 then
      bucketLoop (bucket ++ [table]) smallest rest
    else bucket :: bucketLoop [table] size rest

def groupBySize (order : List Nat) (tables : List MemTable) : List (List MemTable) :=
  bucketLoop [] 0 (sortBySize order tables)

/-- The timestamp of a stored record; `none` is the zero time. -/
def extractTimestamp (data : Bytes) : Option Int :=
  if newFormatVersion data = recordVersionV2 ∨
      newFormatVersion data = recordVersionV3 then
    if data.length < 5 + 8 then none
    else some (getInt ((data.drop 5).take 8))
  else if data.length < 12 then none
  else if maxSaneKeyLen < beNat (data.take 4) then some (getInt (data.take 8))
  else none

/-- The hour of the first entry of a table. -/
def getWindowKey (table : MemTable) : Int :=
  match table.entries with
  | [] => 0
  | entry :: _ =>
    match extractTimestamp entry.2 with
    | none => 0
    | some nanos => Int.tdiv nanos (3600 * 1000 * 1000 * 1000)

/-- One compaction of the immutable tables. -/
def compactTables (config : CompactionConfig) (choice : CompactionChoice)
    (tables : List MemTable) : List MemTable :=
  match config.strategy with
  | .leveled =>
    let sizeRatio := if config.sizeRatio ≤ 0 then 10 else config.sizeRatio
    (arrange choice.groupOrder
      (assignLevels choice.sortOrder sizeRatio tables)).flatMap (mergeGroup 2)
  | .sizeTiered =>
    (groupBySize choice.sortOrder tables).flatMap (mergeGroup 4)
  | .timeWindow =>
    (arrange choice.groupOrder
      (groupTables getWindowKey tables)).flatMap (mergeGroup 2)

/-- Compact if there are at least two tables. -/
def runCompaction (config : CompactionConfig) (choice : CompactionChoice)
    (tables : List MemTable) : List MemTable :=
  if tables.length < 2 then tables else compactTables config choice tables

theorem filterMap_getElem?_range {α : Type*} (items : List α) :
    (List.range items.length).filterMap (fun index => items[index]?) = items := by
  have hmap : (List.range items.length).map (fun index => items[index]?) =
      items.map some := by
    apply ext_getElem
    · simp
    · intro index hleft hright
      simp at hleft
      simp [hleft]
  have hfilter : (List.range items.length).filterMap (fun index => items[index]?) =
      ((List.range items.length).map (fun index => items[index]?)).filterMap id := by
    rw [filterMap_map]
    rfl
  rw [hfilter, hmap]
  simp

theorem arrange_perm {α : Type*} (order : List Nat) (items : List α) :
    (arrange order items).Perm items := by
  unfold arrange
  split
  next horder =>
    have hperm := horder.filterMap fun index => items[index]?
    rwa [filterMap_getElem?_range] at hperm
  · exact List.Perm.refl items

theorem sortBySize_perm (order : List Nat) (tables : List MemTable) :
    (sortBySize order tables).Perm tables := by
  unfold sortBySize
  split
  · exact arrange_perm order tables
  · exact perm_insertionSort _ tables

theorem addToGroup_perm (key : Int) (table : MemTable)
    (groups : List (Int × List MemTable)) :
    ((addToGroup key table groups).flatMap Prod.snd).Perm
      (groups.flatMap Prod.snd ++ [table]) := by
  induction groups with
  | nil => simp [addToGroup]
  | cons group rest ih =>
    by_cases hkey : group.1 = key
    · simp only [addToGroup, hkey, ↓reduceIte, flatMap_cons, append_assoc]
      exact List.Perm.append_left _ perm_append_comm
    · simp only [addToGroup, hkey, ↓reduceIte, flatMap_cons, append_assoc]
      exact List.Perm.append_left _ ih

theorem groupTables_perm (key : MemTable → Int) (tables : List MemTable) :
    (groupTables key tables).flatten.Perm tables := by
  suffices hfold : ∀ groups : List (Int × List MemTable),
      ((tables.foldl (fun groups table => addToGroup (key table) table groups)
        groups).flatMap Prod.snd).Perm (groups.flatMap Prod.snd ++ tables) by
    simpa [groupTables, List.flatMap] using hfold []
  induction tables with
  | nil => simp
  | cons table rest ih =>
    intro groups
    refine (ih _).trans ?_
    have hadd := (addToGroup_perm (key table) table groups).append_right rest
    simpa using hadd

theorem flatten_bucketLoop (bucket : List MemTable) (smallest : Int)
    (tables : List MemTable) :
    (bucketLoop bucket smallest tables).flatten = bucket ++ tables := by
  induction tables generalizing bucket smallest with
  | nil =>
    by_cases hbucket : bucket = []
    · simp [bucketLoop, hbucket]
    · simp [bucketLoop, hbucket]
  | cons table rest ih =>
    by_cases hbucket : bucket = []
    · simp [bucketLoop, hbucket, ih]
    · by_cases hsize : (if table.size ≤ 0 then 1 else table.size) ≤ smallest * 2
      · simp only [bucketLoop, hbucket, hsize, ↓reduceIte, ih]
        simp
      · simp only [bucketLoop, hbucket, hsize, ↓reduceIte, flatten_cons, ih]
        simp

variable {tables : List MemTable} {offset : Int} (config : CompactionConfig)
  {value : Bytes} {table : MemTable}

/-- A merged table holds only what one of its tables held. -/
theorem find?_mergeMemTables
    (hfind : (mergeMemTables tables).find? offset = some value) :
    ∃ table ∈ tables, table.find? offset = some value := by
  suffices hfold : ∀ output : MemTable,
      (tables.foldl (fun output table => table.entries.foldl
        (fun output entry => output.insert entry.1 entry.2) output)
        output).find? offset = some value →
      output.find? offset = some value ∨
        ∃ table ∈ tables, table.find? offset = some value by
    simpa using hfold ∅ hfind
  clear hfind
  induction tables with
  | nil => exact fun output hfind => Or.inl hfind
  | cons table rest ih =>
    intro output hfind
    rcases ih _ hfind with hold | ⟨other, hother, hvalue⟩
    · rw [OrderedMap.find?_foldl_insert table.increasing,
        Option.or_eq_some_iff] at hold
      rcases hold with hnew | ⟨-, hold⟩
      · exact Or.inr ⟨table, mem_cons_self, hnew⟩
      · exact Or.inl hold
    · exact Or.inr ⟨other, mem_cons_of_mem table hother, hvalue⟩

theorem has_mergeMemTables (htable : table ∈ tables) (hhas : table.Has offset) :
    (mergeMemTables tables).Has offset := by
  suffices hfold : ∀ output : MemTable, output.Has offset ∨ table ∈ tables →
      MemTable.Has (tables.foldl (fun output table => table.entries.foldl
        (fun output entry => output.insert entry.1 entry.2) output)
        output) offset by
    exact hfold ∅ (Or.inr htable)
  clear htable
  induction tables with
  | nil =>
    intro output houtput
    simpa using houtput
  | cons head rest ih =>
    intro output houtput
    apply ih
    have hmerged : head.Has offset ∨ output.Has offset →
        MemTable.Has (head.entries.foldl (fun output entry =>
          output.insert entry.1 entry.2) output) offset := by
      intro hhad
      rw [MemTable.Has, OrderedMap.find?_foldl_insert head.increasing,
        Option.isSome_or, Bool.or_eq_true]
      exact hhad
    rcases houtput with hold | hmem
    · exact Or.inl (hmerged (Or.inr hold))
    · rcases mem_cons.mp hmem with rfl | hrest
      · exact Or.inl (hmerged (Or.inl hhas))
      · exact Or.inr hrest

/-- The two lists of tables hold the same records of some of the tables, and
answer for the same offsets. -/
structure SameRecords (before after : List MemTable) : Prop where
  sound : ∀ table ∈ after, ∀ offset value, table.find? offset = some value →
    ∃ source ∈ before, source.find? offset = some value
  complete : ∀ table ∈ before, ∀ offset, table.Has offset →
    ∃ target ∈ after, target.Has offset

theorem SameRecords.of_perm {before after : List MemTable}
    (hperm : after.Perm before) : SameRecords before after where
  sound table htable _ _ hfind := ⟨table, hperm.mem_iff.mp htable, hfind⟩
  complete table htable _ hhas := ⟨table, hperm.mem_iff.mpr htable, hhas⟩

theorem SameRecords.trans {first second third : List MemTable}
    (hleft : SameRecords first second) (hright : SameRecords second third) :
    SameRecords first third where
  sound table htable offset value hfind := by
    obtain ⟨middle, hmiddle, hvalue⟩ := hright.sound table htable _ _ hfind
    exact hleft.sound middle hmiddle _ _ hvalue
  complete table htable offset hhas := by
    obtain ⟨middle, hmiddle, hhas⟩ := hleft.complete table htable _ hhas
    exact hright.complete middle hmiddle _ hhas

theorem sameRecords_flatMap_mergeGroup (enough : Nat)
    (groups : List (List MemTable)) :
    SameRecords groups.flatten (groups.flatMap (mergeGroup enough)) where
  sound table htable offset value hfind := by
    obtain ⟨group, hgroup, hmem⟩ := mem_flatMap.mp htable
    unfold mergeGroup at hmem
    split at hmem
    · exact ⟨table, mem_flatten.mpr ⟨group, hgroup, hmem⟩, hfind⟩
    · obtain rfl := mem_singleton.mp hmem
      obtain ⟨source, hsource, hvalue⟩ := find?_mergeMemTables hfind
      exact ⟨source, mem_flatten.mpr ⟨group, hgroup, hsource⟩, hvalue⟩
  complete table htable offset hhas := by
    obtain ⟨group, hgroup, hmem⟩ := mem_flatten.mp htable
    by_cases hsmall : group.length < enough
    · refine ⟨table, mem_flatMap.mpr ⟨group, hgroup, ?_⟩, hhas⟩
      simpa [mergeGroup, hsmall] using hmem
    · refine ⟨mergeMemTables group, mem_flatMap.mpr ⟨group, hgroup, ?_⟩,
        has_mergeMemTables hmem hhas⟩
      simp [mergeGroup, hsmall]

/-- A compaction merges groups that the tables fall into. -/
theorem runCompaction_groups (choice : CompactionChoice) (tables : List MemTable) :
    ∃ (enough : Nat) (groups : List (List MemTable)), groups.flatten.Perm tables ∧
      runCompaction config choice tables = groups.flatMap (mergeGroup enough) := by
  unfold runCompaction
  split
  next hfew =>
    refine ⟨2, [tables], by simp, ?_⟩
    rw [flatMap_singleton, mergeGroup, if_pos hfew]
  · unfold compactTables
    split
    · refine ⟨2, _, ?_, rfl⟩
      exact (arrange_perm _ _).flatten.trans
        ((groupTables_perm _ _).trans (sortBySize_perm _ _))
    · refine ⟨4, _, ?_, rfl⟩
      rw [groupBySize, flatten_bucketLoop]
      exact sortBySize_perm _ _
    · exact ⟨2, _, (arrange_perm _ _).flatten.trans (groupTables_perm _ _), rfl⟩

/-- A compaction keeps the records of the tables, whatever its strategy and
its choices. -/
theorem runCompaction_sameRecords (choice : CompactionChoice)
    (tables : List MemTable) :
    SameRecords tables (runCompaction config choice tables) := by
  obtain ⟨enough, groups, hperm, hgroups⟩ :=
    runCompaction_groups config choice tables
  rw [hgroups]
  exact (SameRecords.of_perm hperm).trans
    (sameRecords_flatMap_mergeGroup enough groups)

/-- The tables have no offset in common. -/
def MemTable.Apart (left right : MemTable) : Prop :=
  ∀ offset, left.Has offset → ¬right.Has offset

instance : Std.Symm MemTable.Apart :=
  ⟨fun _ _ hapart offset hright hleft => hapart offset hleft hright⟩

theorem exists_has_of_mem_mergeGroup {enough : Nat} {group : List MemTable}
    (hmem : table ∈ mergeGroup enough group) (hhas : table.Has offset) :
    ∃ source ∈ group, source.Has offset := by
  obtain ⟨value, hvalue⟩ := Option.isSome_iff_exists.mp hhas
  obtain ⟨source, hsource, hfind⟩ :=
    (sameRecords_flatMap_mergeGroup enough [group]).sound table
      (by simpa using hmem) offset value hvalue
  exact ⟨source, by simpa using hsource, by simp [MemTable.Has, hfind]⟩

/-- Tables that have nothing in common have nothing in common after a
compaction. -/
theorem runCompaction_apart (choice : CompactionChoice)
    (hapart : tables.Pairwise MemTable.Apart) :
    (runCompaction config choice tables).Pairwise MemTable.Apart := by
  obtain ⟨enough, groups, hperm, hgroups⟩ :=
    runCompaction_groups config choice tables
  have hflat := hperm.symm.pairwise hapart fun h => Std.Symm.symm _ _ h
  obtain ⟨hinside, hacross⟩ := pairwise_flatten.mp hflat
  rw [hgroups, pairwise_flatMap]
  constructor
  · intro group hgroup
    unfold mergeGroup
    split
    · exact hinside group hgroup
    · exact pairwise_singleton _ _
  · refine hacross.imp fun hgroupsApart left hleft right hright offset hl hr => ?_
    obtain ⟨first, hfirst, hfirstHas⟩ := exists_has_of_mem_mergeGroup hleft hl
    obtain ⟨second, hsecond, hsecondHas⟩ :=
      exists_has_of_mem_mergeGroup hright hr
    exact hgroupsApart first hfirst second hsecond offset hfirstHas hsecondHas

theorem find?_unique_of_apart (hapart : tables.Pairwise MemTable.Apart)
    {left right : MemTable} (hleft : left ∈ tables) (hright : right ∈ tables)
    (hleftHas : left.Has offset) (hrightHas : right.Has offset) :
    left.find? offset = right.find? offset := by
  by_contra hne
  have hdiffer : left ≠ right := fun h => hne (by rw [h])
  exact hapart.forall hleft hright hdiffer offset hleftHas hrightHas

/-- Over tables that have nothing in common, a compaction keeps exactly the
records they hold. -/
theorem exists_find?_runCompaction_iff (choice : CompactionChoice)
    (hapart : tables.Pairwise MemTable.Apart) :
    (∃ table ∈ runCompaction config choice tables, table.find? offset = some value) ↔
      ∃ table ∈ tables, table.find? offset = some value := by
  have hsame := runCompaction_sameRecords config choice tables
  constructor
  · rintro ⟨table, hmem, hfind⟩
    exact hsame.sound table hmem offset value hfind
  · rintro ⟨table, hmem, hfind⟩
    obtain ⟨target, htarget, hhas⟩ :=
      hsame.complete table hmem offset (by simp [MemTable.Has, hfind])
    obtain ⟨other, hother⟩ := Option.isSome_iff_exists.mp hhas
    obtain ⟨source, hsource, hfindSource⟩ :=
      hsame.sound target htarget offset other hother
    refine ⟨target, htarget, ?_⟩
    rw [hother, ← hfindSource, ← hfind]
    exact find?_unique_of_apart hapart hsource hmem
      (by simp [MemTable.Has, hfindSource]) (by simp [MemTable.Has, hfind])

end Streambus
