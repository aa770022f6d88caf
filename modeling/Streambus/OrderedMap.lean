/-
Stores with keyed writes, and finite maps with ordered keys as one of them.  A
write is seen by lookups of its key only; what a list of writes leaves behind
depends on which entries it has, not on their order, as long as no key is
written with two values.  A map is the strictly increasing list of its entries,
so that two maps with the same lookups are equal.
-/
import Mathlib.Order.Lex
import Mathlib.Tactic

namespace Streambus

open List

universe u v w

/-- A store with lookups and writes. -/
structure Keyed (σ : Type u) (κ : Type v) (ν : Type w) [DecidableEq κ] where
  find : σ → κ → Option ν
  write : σ → κ × ν → σ
  find_write : ∀ store entry probe, find (write store entry) probe =
    if entry.1 = probe then some entry.2 else find store probe

namespace Keyed

variable {σ : Type u} {κ : Type v} {ν : Type w} [DecidableEq κ]
  (keyed : Keyed σ κ ν) {entries : List (κ × ν)} {key : κ}

/-- The store after a list of writes. -/
def writes (store : σ) (entries : List (κ × ν)) : σ :=
  entries.foldl keyed.write store

theorem find_writes_of_notMem (hkey : ∀ value, (key, value) ∉ entries) (store : σ) :
    keyed.find (keyed.writes store entries) key = keyed.find store key := by
  induction entries generalizing store with
  | nil => rfl
  | cons entry rest ih =>
    have hhead : entry.1 ≠ key := fun heq =>
      hkey entry.2 (heq ▸ mem_cons_self)
    have hrest := ih (fun value hmem =>
      hkey value (mem_cons_of_mem entry hmem)) (keyed.write store entry)
    rw [keyed.find_write, if_neg hhead] at hrest
    exact hrest

variable {value : ν}

theorem find_writes_of_mem (hmem : (key, value) ∈ entries)
    (hone : ∀ other, (key, other) ∈ entries → other = value) (store : σ) :
    keyed.find (keyed.writes store entries) key = some value := by
  induction entries generalizing store with
  | nil => cases hmem
  | cons entry rest ih =>
    have hrestOne : ∀ other, (key, other) ∈ rest → other = value :=
      fun other hother => hone other (mem_cons_of_mem entry hother)
    by_cases hlater : ∃ other, (key, other) ∈ rest
    · obtain ⟨other, hother⟩ := hlater
      exact ih (hrestOne other hother ▸ hother) hrestOne _
    · have hlast := keyed.find_writes_of_notMem (not_exists.mp hlater)
        (keyed.write store entry)
      rcases mem_cons.mp hmem with rfl | hrest
      · rw [keyed.find_write, if_pos rfl] at hlast
        exact hlast
      · exact absurd ⟨value, hrest⟩ hlater

/-- Where no key is written twice, every write is still there at the end. -/
theorem find_writes_of_nodup (hkeys : (entries.map Prod.fst).Nodup)
    (hmem : (key, value) ∈ entries) (store : σ) :
    keyed.find (keyed.writes store entries) key = some value := by
  apply keyed.find_writes_of_mem hmem
  intro other hother
  have hsame := inj_on_of_nodup_map hkeys hother hmem rfl
  exact (Prod.mk.inj hsame).2

/-- Whatever a list of writes leaves behind is good: each of them is, unless
a later one has its key. -/
def LastWrites (good : ν → Prop) : List (κ × ν) → Prop
  | [] => True
  | entry :: rest =>
    ((∃ later ∈ rest, later.1 = entry.1) ∨ good entry.2) ∧ LastWrites good rest

omit [DecidableEq κ] in
theorem lastWrites_map_iff {μ : Type w} (good : μ → Prop) (change : ν → μ)
    (entries : List (κ × ν)) :
    LastWrites good (entries.map fun entry => (entry.1, change entry.2)) ↔
      LastWrites (fun value => good (change value)) entries := by
  induction entries with
  | nil => exact Iff.rfl
  | cons entry rest ih =>
    simp only [map_cons, LastWrites, ih, mem_map, exists_exists_and_eq_and]

-- The second part is about what no write replaces.
theorem forall_find_writes_iff (good : ν → Prop) (store : σ)
    (entries : List (κ × ν)) :
    (∀ key value, keyed.find (keyed.writes store entries) key = some value →
        good value) ↔
      LastWrites good entries ∧ ∀ key value, keyed.find store key = some value →
          (∀ entry ∈ entries, entry.1 ≠ key) → good value := by
  induction entries generalizing store with
  | nil => simp [writes, LastWrites]
  | cons entry rest ih =>
    have hwrites : keyed.writes store (entry :: rest) =
        keyed.writes (keyed.write store entry) rest := rfl
    rw [hwrites, ih, LastWrites, and_right_comm]
    refine (and_congr_right fun _ => ?_).trans and_comm
    refine ⟨fun hgood => ⟨?_, ?_⟩, ?_⟩
    · by_cases hlater : ∃ later ∈ rest, later.1 = entry.1
      · exact Or.inl hlater
      · refine Or.inr (hgood entry.1 entry.2 ?_ ?_)
        · rw [keyed.find_write, if_pos rfl]
        · exact fun later hmem heq => hlater ⟨later, hmem, heq⟩
    · intro key value hfind hnone
      obtain ⟨hhead, hrest⟩ := forall_mem_cons.mp hnone
      refine hgood key value ?_ hrest
      rw [keyed.find_write, if_neg hhead]
      exact hfind
    · rintro ⟨hentry, hgood⟩ key value hfind hnone
      rw [keyed.find_write] at hfind
      split at hfind
      next hkey =>
        obtain rfl := Option.some.inj hfind
        refine hentry.resolve_left ?_
        rintro ⟨later, hmem, heq⟩
        exact hnone later hmem (heq.trans hkey)
      next hkey =>
        exact hgood key value hfind (forall_mem_cons.mpr ⟨hkey, hnone⟩)

end Keyed

variable {κ : Type u} {ν : Type v} [LinearOrder κ]

/-- The value of the first entry carrying a key. -/
def lookupEntry (key : κ) : List (κ × ν) → Option ν
  | [] => none
  | entry :: rest => if entry.1 = key then some entry.2 else lookupEntry key rest

/-- Write one entry into an increasing list, replacing the entry of the same
key. -/
def insertEntry (key : κ) (value : ν) : List (κ × ν) → List (κ × ν)
  | [] => [(key, value)]
  | entry :: rest =>
    if key < entry.1 then (key, value) :: entry :: rest
    else if entry.1 = key then (key, value) :: rest
    else entry :: insertEntry key value rest

/-- Entries in strictly increasing key order. -/
def Increasing (entries : List (κ × ν)) : Prop :=
  entries.Pairwise fun left right => left.1 < right.1
deriving Decidable

variable {key : κ} {value : ν} {entries : List (κ × ν)}

theorem lookupEntry_eq_some_of_mem (hsorted : Increasing entries)
    (hmem : (key, value) ∈ entries) :
    lookupEntry key entries = some value := by
  induction entries with
  | nil => simp at hmem
  | cons head tail ih =>
    simp only [Increasing, pairwise_cons] at hsorted
    rcases mem_cons.mp hmem with heq | htail
    · simp [lookupEntry, ← heq]
    · have hlt := hsorted.1 _ htail
      simp only [lookupEntry, hlt.ne, ↓reduceIte]
      exact ih hsorted.2 htail

theorem mem_of_lookupEntry (hlookup : lookupEntry key entries = some value) :
    (key, value) ∈ entries := by
  induction entries with
  | nil => simp [lookupEntry] at hlookup
  | cons head tail ih =>
    by_cases hkey : head.1 = key
    · simp only [lookupEntry, hkey, ↓reduceIte, Option.some.injEq] at hlookup
      simp [← hkey, ← hlookup]
    · simp only [lookupEntry, hkey, ↓reduceIte] at hlookup
      exact mem_cons_of_mem head (ih hlookup)

theorem lookupEntry_eq_none_of_lt (hlt : ∀ entry ∈ entries, key < entry.1) :
    lookupEntry key entries = none := by
  induction entries with
  | nil => rfl
  | cons head tail ih =>
    have hne : head.1 ≠ key := (hlt head mem_cons_self).ne'
    simp only [lookupEntry, hne, ↓reduceIte]
    exact ih fun entry hentry => hlt entry (mem_cons_of_mem head hentry)

theorem lookupEntry_insertEntry (hsorted : Increasing entries) (key probe : κ)
    (value : ν) :
    lookupEntry probe (insertEntry key value entries) =
      if key = probe then some value else lookupEntry probe entries := by
  induction entries with
  | nil => rfl
  | cons head tail ih =>
    simp only [Increasing, pairwise_cons] at hsorted
    by_cases hlt : key < head.1
    · simp [insertEntry, hlt, lookupEntry]
    · by_cases heq : head.1 = key
      · subst heq
        simp only [insertEntry, lt_irrefl, ↓reduceIte, lookupEntry]
        split <;> rfl
      · simp only [insertEntry, hlt, heq, ↓reduceIte, lookupEntry, ih hsorted.2]
        by_cases hprobe : head.1 = probe
        · have hne : key ≠ probe := fun h => heq (hprobe.trans h.symm)
          simp [hprobe, hne]
        · simp [hprobe]

theorem mem_insertEntry {entry : κ × ν}
    (hmem : entry ∈ insertEntry key value entries) :
    entry = (key, value) ∨ entry ∈ entries := by
  induction entries with
  | nil => simpa [insertEntry] using hmem
  | cons head tail ih =>
    simp only [insertEntry] at hmem
    split at hmem
    · simpa using hmem
    · split at hmem
      · rcases mem_cons.mp hmem with h | h
        · exact Or.inl h
        · exact Or.inr (mem_cons_of_mem head h)
      · rcases mem_cons.mp hmem with h | h
        · exact Or.inr (h ▸ mem_cons_self)
        · rcases ih h with h | h
          · exact Or.inl h
          · exact Or.inr (mem_cons_of_mem head h)

theorem insertEntry_increasing (hsorted : Increasing entries) (key : κ) (value : ν) :
    Increasing (insertEntry key value entries) := by
  induction entries with
  | nil => simp [insertEntry, Increasing]
  | cons head tail ih =>
    have hparts := hsorted
    simp only [Increasing, pairwise_cons] at hparts
    by_cases hlt : key < head.1
    · simp only [insertEntry, hlt, ↓reduceIte, Increasing, pairwise_cons]
      refine ⟨?_, hparts⟩
      intro entry hentry
      rcases mem_cons.mp hentry with rfl | htail
      · exact hlt
      · exact hlt.trans (hparts.1 entry htail)
    · by_cases heq : head.1 = key
      · subst heq
        simp only [insertEntry, lt_irrefl, ↓reduceIte, Increasing, pairwise_cons]
        exact hparts
      · simp only [insertEntry, hlt, heq, ↓reduceIte, Increasing, pairwise_cons]
        refine ⟨?_, ih hparts.2⟩
        intro entry hentry
        rcases mem_insertEntry hentry with rfl | htail
        · exact lt_of_le_of_ne (not_lt.mp hlt) heq
        · exact hparts.1 entry htail

/-- A finite map whose entry list is increasing in its keys. -/
structure OrderedMap (κ : Type u) (ν : Type v) [LinearOrder κ] where
  entries : List (κ × ν)
  increasing : Increasing entries

namespace OrderedMap

variable {left right : OrderedMap κ ν}

@[ext] theorem ext (hentries : left.entries = right.entries) : left = right := by
  cases left
  cases right
  simpa using hentries

instance [DecidableEq ν] : DecidableEq (OrderedMap κ ν) := fun left right =>
  decidable_of_iff (left.entries = right.entries) OrderedMap.ext_iff.symm

def empty : OrderedMap κ ν := ⟨[], List.Pairwise.nil⟩

instance : EmptyCollection (OrderedMap κ ν) := ⟨empty⟩

def find? (map : OrderedMap κ ν) (key : κ) : Option ν :=
  lookupEntry key map.entries

def insert (map : OrderedMap κ ν) (key : κ) (value : ν) : OrderedMap κ ν :=
  ⟨insertEntry key value map.entries, insertEntry_increasing map.increasing key value⟩

def erase (map : OrderedMap κ ν) (key : κ) : OrderedMap κ ν :=
  ⟨map.entries.filter fun entry => entry.1 ≠ key,
    map.increasing.sublist filter_sublist⟩

def keys (map : OrderedMap κ ν) : List κ := map.entries.map Prod.fst

@[simp] theorem entries_empty : (∅ : OrderedMap κ ν).entries = [] := rfl

@[simp] theorem find?_empty (key : κ) : (∅ : OrderedMap κ ν).find? key = none :=
  rfl

variable (map : OrderedMap κ ν) {key : κ} {value : ν}

theorem mem_entries_iff (key : κ) (value : ν) :
    (key, value) ∈ map.entries ↔ map.find? key = some value :=
  ⟨lookupEntry_eq_some_of_mem map.increasing, mem_of_lookupEntry⟩

theorem mem_keys_iff (key : κ) : key ∈ map.keys ↔ (map.find? key).isSome := by
  simp only [keys, mem_map, Option.isSome_iff_exists]
  constructor
  · rintro ⟨⟨k, value⟩, hmem, rfl⟩
    exact ⟨value, (map.mem_entries_iff k value).mp hmem⟩
  · rintro ⟨value, hfind⟩
    exact ⟨(key, value), (map.mem_entries_iff key value).mpr hfind, rfl⟩

theorem find?_insert (key probe : κ) (value : ν) :
    (map.insert key value).find? probe =
      if key = probe then some value else map.find? probe :=
  lookupEntry_insertEntry map.increasing key probe value

@[simp] theorem find?_insert_self (key : κ) (value : ν) :
    (map.insert key value).find? key = some value := by
  simp [find?_insert]

theorem find?_insert_of_ne {probe : κ} (hne : key ≠ probe) (value : ν) :
    (map.insert key value).find? probe = map.find? probe := by
  simp [find?_insert, hne]

theorem insert_ne_empty (key : κ) (value : ν) : map.insert key value ≠ ∅ := by
  intro hempty
  have hfind := map.find?_insert_self key value
  rw [hempty] at hfind
  cases hfind

theorem find?_erase (key probe : κ) : (map.erase key).find? probe =
      if key = probe then none else map.find? probe := by
  apply Option.ext
  intro value
  rw [← mem_entries_iff]
  by_cases hkey : key = probe
  · simp [erase, hkey]
  · have hne : probe ≠ key := Ne.symm hkey
    simp [erase, hkey, hne, mem_entries_iff]

theorem ext_find? (hfind : ∀ key, left.find? key = right.find? key) : left = right := by
  apply OrderedMap.ext
  have hnodup : ∀ map : OrderedMap κ ν, map.entries.Nodup := fun map =>
    map.increasing.imp fun hlt heq => (heq ▸ hlt).ne rfl
  refine List.Perm.eq_of_pairwise
    (fun (a b : κ × ν) _ _ (hab : a.1 < b.1) hba => absurd hba hab.asymm)
    left.increasing right.increasing ?_
  rw [perm_ext_iff_of_nodup (hnodup left) (hnodup right)]
  rintro ⟨key, value⟩
  rw [mem_entries_iff, mem_entries_iff, hfind]

/-- Writing increasing entries into a map one after the other. -/
theorem find?_foldl_insert {entries : List (κ × ν)}
    (hsorted : Increasing entries) (map : OrderedMap κ ν) (key : κ) :
    (entries.foldl (fun map entry => map.insert entry.1 entry.2) map).find?
        key = (lookupEntry key entries).or (map.find? key) := by
  induction entries generalizing map with
  | nil => rfl
  | cons entry rest ih =>
    simp only [Increasing, pairwise_cons] at hsorted
    rw [foldl_cons, ih hsorted.2, find?_insert, lookupEntry]
    by_cases hkey : entry.1 = key
    · have hlater : lookupEntry key rest = none :=
        lookupEntry_eq_none_of_lt (hkey ▸ hsorted.1)
      simp [hkey, hlater]
    · simp [hkey]

theorem insert_insert (key : κ) (old value : ν) :
    (map.insert key old).insert key value = map.insert key value := by
  apply ext_find?
  intro probe
  rw [find?_insert, find?_insert, find?_insert]
  split <;> rfl

theorem insert_of_find?_eq_some {map : OrderedMap κ ν}
    (hfind : map.find? key = some value) : map.insert key value = map := by
  apply ext_find?
  intro probe
  rw [find?_insert]
  split
  next heq => rw [← heq, hfind]
  · rfl

/-- The map that entries make when they are written one after the other. -/
def ofEntries (entries : List (κ × ν)) : OrderedMap κ ν :=
  entries.foldl (fun map entry => map.insert entry.1 entry.2) ∅

/-- A map as a store with keyed writes. -/
def keyed : Keyed (OrderedMap κ ν) κ ν where
  find := find?
  write map entry := map.insert entry.1 entry.2
  find_write map entry probe := map.find?_insert entry.1 probe entry.2

/-- The map after entries were written to it one after the other. -/
def writes (map : OrderedMap κ ν) (entries : List (κ × ν)) : OrderedMap κ ν :=
  keyed.writes map entries

theorem find?_writes_of_notMem {entries : List (κ × ν)}
    (hkey : ∀ value, (key, value) ∉ entries) (map : OrderedMap κ ν) :
    (map.writes entries).find? key = map.find? key :=
  keyed.find_writes_of_notMem hkey map

theorem find?_writes_of_mem {entries : List (κ × ν)} (hmem : (key, value) ∈ entries)
    (hone : ∀ other, (key, other) ∈ entries → other = value)
    (map : OrderedMap κ ν) : (map.writes entries).find? key = some value :=
  keyed.find_writes_of_mem hmem hone map

theorem forall_find?_writes_iff (good : ν → Prop) (map : OrderedMap κ ν)
    (entries : List (κ × ν)) :
    (∀ key value, (map.writes entries).find? key = some value → good value) ↔
      Keyed.LastWrites good entries ∧ ∀ key value, map.find? key = some value →
          (∀ entry ∈ entries, entry.1 ≠ key) → good value :=
  keyed.forall_find_writes_iff good map entries

theorem find?_writes_of_nodup {entries : List (κ × ν)}
    (hkeys : (entries.map Prod.fst).Nodup) (hmem : (key, value) ∈ entries)
    (map : OrderedMap κ ν) :
    (map.writes entries).find? key = some value :=
  keyed.find_writes_of_nodup hkeys hmem map

theorem sum_map_insertEntry_le (weight : κ × ν → Nat) (key : κ) (value : ν)
    (entries : List (κ × ν)) :
    ((insertEntry key value entries).map weight).sum ≤
      (entries.map weight).sum + weight (key, value) := by
  induction entries with
  | nil => simp [insertEntry]
  | cons entry rest ih =>
    unfold insertEntry
    split
    · simp only [map_cons, sum_cons]
      omega
    · split
      · simp only [map_cons, sum_cons]
        omega
      · simp only [map_cons, sum_cons]
        omega

/-- A map weighs no more than the entries it was made of. -/
theorem sum_map_ofEntries_le (weight : κ × ν → Nat) (entries : List (κ × ν)) :
    ((ofEntries entries).entries.map weight).sum ≤ (entries.map weight).sum := by
  have hfold : ∀ map : OrderedMap κ ν,
      ((entries.foldl (fun map entry => map.insert entry.1 entry.2)
        map).entries.map weight).sum ≤
          (map.entries.map weight).sum + (entries.map weight).sum := by
    induction entries with
    | nil => simp
    | cons entry rest ih =>
      intro map
      obtain ⟨key, value⟩ := entry
      have hinsert := sum_map_insertEntry_le weight key value map.entries
      have hrest := ih (map.insert key value)
      simp only [foldl_cons, map_cons, sum_cons]
      change _ ≤ ((insertEntry key value map.entries).map weight).sum +
        _ at hrest
      omega
  have hempty := hfold ∅
  have hzero : (((∅ : OrderedMap κ ν).entries).map weight).sum = 0 := rfl
  rwa [hzero, Nat.zero_add] at hempty

/-- The entries of a map make the map in any order. -/
theorem ofEntries_of_perm {map : OrderedMap κ ν} {entries : List (κ × ν)}
    (hperm : entries.Perm map.entries) : ofEntries entries = map := by
  have hmem : ∀ key value, (key, value) ∈ entries ↔
      map.find? key = some value := fun key value =>
    hperm.mem_iff.trans (map.mem_entries_iff key value)
  apply ext_find?
  intro key
  cases hfind : map.find? key with
  | some value =>
    apply keyed.find_writes_of_mem ((hmem key value).mpr hfind)
    intro other hother
    exact Option.some.inj (((hmem key other).mp hother).symm.trans hfind)
  | none =>
    apply keyed.find_writes_of_notMem
    intro value hvalue
    exact Option.some_ne_none value (((hmem key value).mp hvalue).symm.trans hfind)

theorem eq_empty_iff {map : OrderedMap κ ν} :
    map = ∅ ↔ ∀ key, map.find? key = none := by
  constructor
  · rintro rfl key
    rfl
  · intro hnone
    exact ext_find? fun key => (hnone key).trans (find?_empty key).symm

/-- Apply a function to every value. -/
def mapValues {μ : Type v} (map : OrderedMap κ ν) (change : κ → ν → μ) :
    OrderedMap κ μ :=
  ⟨map.entries.map fun entry => (entry.1, change entry.1 entry.2), by
    rw [Increasing, pairwise_map]
    exact map.increasing⟩

theorem find?_mapValues {μ : Type v} (change : κ → ν → μ) (key : κ) :
    (map.mapValues change).find? key = (map.find? key).map (change key) := by
  change lookupEntry key (map.entries.map _) = (lookupEntry key map.entries).map _
  induction map.entries with
  | nil => rfl
  | cons entry rest ih =>
    by_cases hkey : entry.1 = key
    · subst hkey
      simp [lookupEntry]
    · simpa [lookupEntry, hkey] using ih

/-- Apply a function to the value of a key. -/
def modify (map : OrderedMap κ ν) (key : κ) (change : ν → ν) : OrderedMap κ ν :=
  match map.find? key with
  | some value => map.insert key (change value)
  | none => map

theorem find?_modify (key probe : κ) (change : ν → ν) :
    (map.modify key change).find? probe = (map.find? probe).map fun value =>
        if key = probe then change value else value := by
  unfold modify
  cases hkey : map.find? key with
  | none =>
    by_cases heq : key = probe
    · rw [← heq, hkey]
      rfl
    · simp [heq]
  | some value =>
    rw [find?_insert]
    by_cases heq : key = probe
    · simp [← heq, hkey]
    · simp [heq]

/-- Keep the entries that pass a test. -/
def filter (map : OrderedMap κ ν) (keep : κ → ν → Bool) : OrderedMap κ ν :=
  ⟨map.entries.filter fun entry => keep entry.1 entry.2,
    map.increasing.sublist filter_sublist⟩

theorem find?_filter (keep : κ → ν → Bool) (key : κ) :
    (map.filter keep).find? key = (map.find? key).filter (keep key) := by
  apply Option.ext
  intro value
  rw [← mem_entries_iff, Option.filter_eq_some_iff, ← mem_entries_iff]
  exact mem_filter

/-- The entries of both maps, those of the second where both have one. -/
def merge (map other : OrderedMap κ ν) : OrderedMap κ ν :=
  other.entries.foldl (fun map entry => map.insert entry.1 entry.2) map

theorem find?_merge (map other : OrderedMap κ ν) (key : κ) :
    (map.merge other).find? key = (other.find? key).or (map.find? key) :=
  find?_foldl_insert other.increasing map key

theorem empty_merge : (∅ : OrderedMap κ ν).merge map = map := by
  apply ext_find?
  intro key
  rw [find?_merge, find?_empty, Option.or_none]

theorem erase_of_find?_eq_none {map : OrderedMap κ ν}
    (hnone : map.find? key = none) : map.erase key = map := by
  apply ext_find?
  intro probe
  rw [find?_erase]
  split
  next heq => rw [← heq, hnone]
  · rfl

theorem keys_pairwise : map.keys.Pairwise (· < ·) :=
  pairwise_map.mpr map.increasing

/-- A map that keeps the entries at some keys keeps those keys in order. -/
theorem keys_eq_filter {before after : OrderedMap κ ν} (keep : κ → Prop)
    [DecidablePred keep] (hfind : ∀ key, after.find? key =
      if keep key then before.find? key else none) :
    after.keys = before.keys.filter (fun key => keep key) := by
  have hnodup : ∀ keys : List κ, keys.Pairwise (· < ·) → keys.Nodup :=
    fun keys hpairwise => hpairwise.imp fun hlt heq => (heq ▸ hlt).ne rfl
  have hright := before.keys_pairwise.filter (fun key => decide (keep key))
  refine List.Perm.eq_of_pairwise
    (fun (a b : κ) _ _ (hab : a < b) hba => absurd hba hab.asymm)
    after.keys_pairwise hright ?_
  rw [perm_ext_iff_of_nodup (hnodup _ after.keys_pairwise) (hnodup _ hright)]
  intro key
  rw [mem_filter, mem_keys_iff, mem_keys_iff, hfind]
  by_cases hkeep : keep key <;> simp [hkeep]

theorem keys_insert_of_mem {old : ν} (hkey : map.find? key = some old) (value : ν) :
    (map.insert key value).keys = map.keys := by
  refine List.Perm.eq_of_pairwise
    (fun (a b : κ) _ _ (hab : a < b) hba => absurd hba hab.asymm)
    (keys_pairwise _) (keys_pairwise _) ?_
  rw [perm_ext_iff_of_nodup ((keys_pairwise _).imp ne_of_lt)
    ((keys_pairwise _).imp ne_of_lt)]
  intro probe
  rw [mem_keys_iff, mem_keys_iff, find?_insert]
  by_cases hprobe : key = probe
  · subst hprobe
    simp [hkey]
  · simp [hprobe]

theorem entries_insert_of_keys_lt (value : ν)
    (hlt : ∀ entry ∈ map.entries, entry.1 < key) :
    (map.insert key value).entries = map.entries ++ [(key, value)] := by
  change insertEntry key value map.entries = map.entries ++ [(key, value)]
  generalize map.entries = entries at hlt ⊢
  induction entries with
  | nil => rfl
  | cons head tail ih =>
    have hhead : head.1 < key := hlt head mem_cons_self
    simp only [insertEntry, hhead.asymm, hhead.ne, ↓reduceIte, cons_append]
    rw [ih fun entry hentry => hlt entry (mem_cons_of_mem head hentry)]

theorem entries_nodup : map.entries.Nodup :=
  map.increasing.imp fun hlt heq => (heq ▸ hlt).ne rfl

theorem entries_insert_perm {map : OrderedMap κ ν}
    (hnone : map.find? key = none) (value : ν) :
    (map.insert key value).entries.Perm ((key, value) :: map.entries) := by
  have hnotMem : (key, value) ∉ map.entries := by
    rw [mem_entries_iff, hnone]
    exact nofun
  rw [perm_ext_iff_of_nodup (entries_nodup _)
    (nodup_cons.mpr ⟨hnotMem, entries_nodup _⟩)]
  rintro ⟨probe, held⟩
  rw [mem_entries_iff, find?_insert, mem_cons, mem_entries_iff]
  by_cases hprobe : key = probe
  · subst hprobe
    simp [hnone, eq_comm]
  · simp [hprobe, Ne.symm hprobe]

theorem length_insert (map : OrderedMap κ ν) (key : κ) (value : ν) :
    (map.insert key value).entries.length =
      map.entries.length + if map.find? key = none then 1 else 0 := by
  cases hfind : map.find? key with
  | none => simpa using (entries_insert_perm hfind value).length_eq
  | some old =>
    have hkeys := congrArg List.length (map.keys_insert_of_mem hfind value)
    simpa [keys] using hkeys

/-- Writing entries adds at most as many as there are, and as many exactly if
their keys are new and distinct. -/
theorem length_writes (map : OrderedMap κ ν) (entries : List (κ × ν)) :
    (map.writes entries).entries.length ≤ map.entries.length + entries.length ∧
      ((map.writes entries).entries.length = map.entries.length + entries.length ↔
        (entries.map Prod.fst).Nodup ∧
          ∀ entry ∈ entries, map.find? entry.1 = none) := by
  induction entries generalizing map with
  | nil => simp [writes, Keyed.writes]
  | cons entry rest ih =>
    obtain ⟨hle, hiff⟩ := ih (map.insert entry.1 entry.2)
    have hlength := map.length_insert entry.1 entry.2
    change ((map.insert entry.1 entry.2).writes rest).entries.length ≤ _ ∧
      (((map.insert entry.1 entry.2).writes rest).entries.length = _ ↔ _)
    simp only [length_cons, map_cons, nodup_cons, forall_mem_cons]
    split at hlength
    next hnone =>
      have hfresh : (∀ other ∈ rest,
          (map.insert entry.1 entry.2).find? other.1 = none) ↔
          entry.1 ∉ rest.map Prod.fst ∧ ∀ other ∈ rest, map.find? other.1 = none := by
        simp only [find?_insert]
        grind
      have hsum : map.entries.length + (rest.length + 1) =
          (map.insert entry.1 entry.2).entries.length + rest.length := by omega
      rw [hsum]
      refine ⟨hle, hiff.trans ?_⟩
      tauto
    -- A key that is there is only written over.
    next hsome =>
      exact ⟨by omega, iff_of_false (by omega) fun hnew => hsome hnew.2.1⟩

theorem entries_erase_perm {map : OrderedMap κ ν}
    (hfind : map.find? key = some value) :
    map.entries.Perm ((key, value) :: (map.erase key).entries) := by
  have hnotMem : (key, value) ∉ (map.erase key).entries := by
    rw [mem_entries_iff, find?_erase, if_pos rfl]
    exact nofun
  rw [perm_ext_iff_of_nodup (entries_nodup _)
    (nodup_cons.mpr ⟨hnotMem, entries_nodup _⟩)]
  rintro ⟨probe, held⟩
  rw [mem_entries_iff, mem_cons, mem_entries_iff, find?_erase]
  by_cases hprobe : key = probe
  · subst hprobe
    simp [hfind, eq_comm]
  · simp [hprobe, Ne.symm hprobe]

end OrderedMap

end Streambus
