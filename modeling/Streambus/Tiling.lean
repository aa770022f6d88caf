/-
Binary search over a monotone predicate, by halving the half-open interval
that still holds the answer, and the tiles of a range, each of which starts
where the one before it stops.
-/
import Mathlib.Tactic

namespace Streambus

open List

/-- Halve `[low, high)` towards the first index at which `holds` is true. -/
def searchLoop (holds : Nat → Bool) : Nat → Nat → Nat → Nat
  | 0, low, _ => low
  | fuel + 1, low, high =>
    if low < high then
      let middle := (low + high) / 2
      if holds middle then searchLoop holds fuel low middle
      else searchLoop holds fuel (middle + 1) high
    else low

/-- The first index below `count` at which `holds` is true, or `count`.  The
interval loses at least one index a round, so `count` rounds are enough. -/
def searchIndex (count : Nat) (holds : Nat → Bool) : Nat :=
  searchLoop holds count 0 count

/-- The position of the first list element at which `holds` is true. -/
def searchList {α : Type*} (entries : List α) (holds : α → Bool) : Nat :=
  searchIndex entries.length fun index =>
    match entries[index]? with
    | some entry => holds entry
    | none => true

variable {holds : Nat → Bool}

theorem searchLoop_eq {first : Nat}
    (hbefore : ∀ index < first, holds index = false) (fuel low high : Nat)
    (hafter : ∀ index, first ≤ index → index < high → holds index = true)
    (hlow : low ≤ first) (hhigh : first ≤ high) (hfuel : high - low ≤ fuel) :
    searchLoop holds fuel low high = first := by
  induction fuel generalizing low high with
  | zero =>
    simp only [searchLoop]
    omega
  | succ fuel ih =>
    rw [searchLoop]
    by_cases hlt : low < high
    · simp only [hlt, ↓reduceIte]
      by_cases hmiddle : first ≤ (low + high) / 2
      · rw [hafter _ hmiddle (by omega)]
        exact ih low ((low + high) / 2)
          (fun index hfirst hindex => hafter index hfirst (by omega))
          hlow hmiddle (by omega)
      · rw [hbefore ((low + high) / 2) (by omega)]
        exact ih ((low + high) / 2 + 1) high hafter (by omega) hhigh (by omega)
    · rw [if_neg hlt]
      omega

/-- The search finds the switching point of a predicate that switches once. -/
theorem searchIndex_eq {count : Nat} {first : Nat} (hfirst : first ≤ count)
    (hbefore : ∀ index < first, holds index = false)
    (hafter : ∀ index, first ≤ index → index < count → holds index = true) :
    searchIndex count holds = first :=
  searchLoop_eq hbefore count 0 count hafter (Nat.zero_le first) hfirst (by omega)

/-- A list whose predicate, once true, stays true splits where it switches. -/
theorem exists_split_of_pairwise {α : Type*} {entries : List α}
    {holds : α → Bool} (hmono : entries.Pairwise fun left right =>
      holds left = true → holds right = true) :
    ∃ front back, entries = front ++ back ∧ (∀ entry ∈ front, holds entry = false) ∧
      ∀ entry ∈ back, holds entry = true := by
  induction entries with
  | nil => exact ⟨[], [], rfl, by simp, by simp⟩
  | cons head tail ih =>
    rw [pairwise_cons] at hmono
    by_cases hhead : holds head = true
    · refine ⟨[], head :: tail, rfl, by simp, ?_⟩
      intro entry hentry
      rcases mem_cons.mp hentry with rfl | htail
      · exact hhead
      · exact hmono.1 entry htail hhead
    · obtain ⟨front, back, rfl, hfront, hback⟩ := ih hmono.2
      exact ⟨head :: front, back, rfl, by simpa [hhead] using hfront, hback⟩

/-- Searching a list finds the place where its predicate switches. -/
theorem searchList_append {α : Type*} {holds : α → Bool} {front back : List α}
    (hfront : ∀ entry ∈ front, holds entry = false)
    (hback : ∀ entry ∈ back, holds entry = true) :
    searchList (front ++ back) holds = front.length := by
  apply searchIndex_eq (by simp)
  · intro index hindex
    simpa [getElem?_append_left hindex, hindex] using hfront _ (getElem_mem hindex)
  · intro index hfirst hindex
    have hrest : index - front.length < back.length := by
      simp at hindex
      omega
    rw [getElem?_append_right hfirst, getElem?_eq_getElem hrest]
    exact hback _ (getElem_mem hrest)

universe u v

variable {α : Type u} {β : Type v} {start stop : α → Int}

/-- The tiles cover `[low, high)` one after the other; empty tiles are
allowed. -/
def Tiles (start stop : α → Int) : List α → Int → Int → Prop
  | [], low, high => low = high
  | tile :: rest, low, high =>
    start tile = low ∧ low ≤ stop tile ∧ Tiles start stop rest (stop tile) high

/-- Halve `[left, right)` towards the tile around a number. -/
def findTileLoop (start stop : α → Int) (tiles : List α) (offset : Int) :
    Nat → Nat → Nat → Option (Nat × α)
  | 0, _, _ => none
  | fuel + 1, left, right =>
    if left < right then
      let middle := (left + right - 1) / 2
      match tiles[middle]? with
      | none => none
      | some tile =>
        if offset < start tile then
          findTileLoop start stop tiles offset fuel left middle
        else if stop tile ≤ offset then
          findTileLoop start stop tiles offset fuel (middle + 1) right
        else some (middle, tile)
    else none

/-- The tile around a number and its position. -/
def findTile (start stop : α → Int) (tiles : List α) (offset : Int) :
    Option (Nat × α) :=
  findTileLoop start stop tiles offset tiles.length 0 tiles.length

variable {tiles : List α} {high low : Int} {front back : List α} {offset : Int}
  {tile : α}

theorem Tiles.le (htiles : Tiles start stop tiles low high) : low ≤ high := by
  induction tiles generalizing low with
  | nil => exact le_of_eq htiles
  | cons tile rest ih =>
    obtain ⟨-, hle, hrest⟩ := htiles
    exact hle.trans (ih hrest)

theorem tiles_append : Tiles start stop (front ++ back) low high ↔
      ∃ middle, Tiles start stop front low middle ∧
        Tiles start stop back middle high := by
  induction front generalizing low with
  | nil => simp [Tiles]
  | cons tile rest ih =>
    simp only [cons_append, Tiles, ih]
    constructor
    · rintro ⟨hstart, hle, middle, hrest, hback⟩
      exact ⟨middle, ⟨hstart, hle, hrest⟩, hback⟩
    · rintro ⟨middle, ⟨hstart, hle, hrest⟩, hback⟩
      exact ⟨hstart, hle, middle, hrest, hback⟩

theorem Tiles.bounds (htiles : Tiles start stop tiles low high) :
    ∀ tile ∈ tiles, low ≤ start tile ∧ start tile ≤ stop tile ∧ stop tile ≤ high := by
  induction tiles generalizing low with
  | nil => simp
  | cons head rest ih =>
    obtain ⟨hstart, hle, hrest⟩ := htiles
    intro tile htile
    rcases mem_cons.mp htile with rfl | htail
    · exact ⟨le_of_eq hstart.symm, hstart ▸ hle, hrest.le⟩
    · obtain ⟨hlow, hsize, hhigh⟩ := ih hrest tile htail
      exact ⟨hle.trans hlow, hsize, hhigh⟩

/-- Tiles only depend on their ends. -/
theorem Tiles.of_map_eq {start' stop' : β → Int} {others : List β}
    (hmap : others.map (fun tile => (start' tile, stop' tile)) =
      tiles.map fun tile => (start tile, stop tile))
    (htiles : Tiles start stop tiles low high) :
    Tiles start' stop' others low high := by
  induction tiles generalizing others low with
  | nil =>
    obtain rfl : others = [] := by simpa using hmap
    exact htiles
  | cons tile rest ih =>
    cases others with
    | nil => simp at hmap
    | cons other others =>
      simp only [map_cons, List.cons.injEq, Prod.mk.injEq] at hmap
      obtain ⟨⟨hstart, hstop⟩, hmap⟩ := hmap
      obtain ⟨hlow, hle, hrest⟩ := htiles
      exact ⟨hstart.trans hlow, hstop ▸ hle, ih hmap (hstop ▸ hrest)⟩

/-- Empty tiles can be left out. -/
theorem Tiles.filter_nonempty (htiles : Tiles start stop tiles low high) :
    Tiles start stop (tiles.filter fun tile => start tile < stop tile) low
      high := by
  induction tiles generalizing low with
  | nil => exact htiles
  | cons tile rest ih =>
    obtain ⟨hlow, hle, hrest⟩ := htiles
    by_cases hlt : start tile < stop tile
    · rw [filter_cons_of_pos (by simpa using hlt)]
      exact ⟨hlow, hle, ih hrest⟩
    · rw [filter_cons_of_neg (by simpa using hlt)]
      have hsame : stop tile = low := by omega
      exact ih (hsame ▸ hrest)

/-- The tiles that start at or after a bound cover the end of the range. -/
theorem Tiles.filter_from (htiles : Tiles start stop tiles low high) (bound : Int) :
    ∃ first, low ≤ first ∧ (bound ≤ low → first = low) ∧
      Tiles start stop (tiles.filter fun tile => bound ≤ start tile) first
        high := by
  induction tiles generalizing low with
  | nil => exact ⟨low, le_refl low, fun _ => rfl, htiles⟩
  | cons tile rest ih =>
    obtain ⟨hlow, hle, hrest⟩ := htiles
    obtain ⟨first, hfirst, hsame, hfilter⟩ := ih hrest
    by_cases hbound : bound ≤ start tile
    · rw [filter_cons_of_pos (by simpa using hbound)]
      rw [hsame (by omega)] at hfilter
      exact ⟨low, le_refl low, fun _ => rfl, hlow, hle, hfilter⟩
    · rw [filter_cons_of_neg (by simpa using hbound)]
      exact ⟨first, hle.trans hfirst, fun h => absurd (hlow ▸ h) hbound, hfilter⟩

/-- Tiles with increasing starts are not empty, except perhaps the last. -/
theorem Tiles.lt_of_increasing {last : α}
    (htiles : Tiles start stop (front ++ [last]) low high)
    (hincreasing : ((front ++ [last]).map start).Pairwise (· < ·)) :
    ∀ tile ∈ front, start tile < stop tile := by
  induction front generalizing low with
  | nil => simp
  | cons head rest ih =>
    rw [cons_append, map_cons, pairwise_cons] at hincreasing
    obtain ⟨-, -, hrest⟩ := htiles
    intro tile htile
    rcases mem_cons.mp htile with rfl | htail
    · cases rest with
      | nil => exact lt_of_lt_of_eq (hincreasing.1 _ (by simp)) hrest.1
      | cons second rest =>
        exact lt_of_lt_of_eq (hincreasing.1 _ (by simp)) hrest.1
    · exact ih hrest hincreasing.2 tile htail

/-- A number in the range lies in some tile. -/
theorem Tiles.exists_around (htiles : Tiles start stop tiles low high)
    (hlow : low ≤ offset) (hhigh : offset < high) :
    ∃ front tile back, tiles = front ++ tile :: back ∧
      start tile ≤ offset ∧ offset < stop tile := by
  induction tiles generalizing low with
  | nil =>
    have : low = high := htiles
    omega
  | cons tile rest ih =>
    obtain ⟨hstart, hle, hrest⟩ := htiles
    by_cases hinside : offset < stop tile
    · exact ⟨[], tile, rest, rfl, by omega, hinside⟩
    · obtain ⟨front, found, back, rfl, hfound⟩ := ih hrest (by omega)
      exact ⟨tile :: front, found, back, rfl, hfound⟩

section

variable (htiles : Tiles start stop (front ++ tile :: back) low high)
  (hstart : start tile ≤ offset) (hstop : offset < stop tile)

include htiles hstart hstop

/-- Halving finds the tile around a number. -/
theorem findTileLoop_eq (fuel left right : Nat) (hleft : left ≤ front.length)
    (hright : front.length < right)
    (hlength : right ≤ (front ++ tile :: back).length)
    (hfuel : right - left ≤ fuel) :
    findTileLoop start stop (front ++ tile :: back) offset fuel left right =
      some (front.length, tile) := by
  obtain ⟨middle, hfront, hlow, hle, hback⟩ := tiles_append.mp htiles
  have hbefore : ∀ other ∈ front, stop other ≤ offset := fun other hother =>
    ((hfront.bounds other hother).2.2).trans (hlow ▸ hstart)
  have hafter : ∀ other ∈ back, offset < start other := fun other hother =>
    lt_of_lt_of_le hstop (hback.bounds other hother).1
  induction fuel generalizing left right with
  | zero => omega
  | succ fuel ih =>
    rw [findTileLoop, if_pos (by omega)]
    let index := (left + right - 1) / 2
    change (match (front ++ tile :: back)[index]? with
      | none => none
      | some tile' => if offset < start tile' then
          findTileLoop start stop (front ++ tile :: back) offset fuel left index
        else if stop tile' ≤ offset then
          findTileLoop start stop (front ++ tile :: back) offset fuel
            (index + 1) right
        else some (index, tile')) = _
    rcases Nat.lt_trichotomy index front.length with hlt | heq | hgt
    · have hmem := getElem_mem hlt
      have hother := (hfront.bounds _ hmem).2.1
      have hstopped := hbefore _ hmem
      rw [getElem?_append_left hlt, getElem?_eq_getElem hlt]
      simp only
      rw [if_neg (by omega), if_pos hstopped]
      exact ih (index + 1) right hlt hright hlength (by omega)
    · rw [heq]
      simp only [getElem?_append_right (le_refl _), Nat.sub_self, getElem?_cons_zero]
      rw [if_neg (by omega), if_neg (by omega)]
    · have hmem : (front ++ tile :: back)[index]? =
          back[index - front.length - 1]? := by
        rw [getElem?_append_right (by omega), getElem?_cons, if_neg (by omega)]
      have hless : index - front.length - 1 < back.length := by
        simp only [length_append, length_cons] at hlength
        omega
      rw [hmem, getElem?_eq_getElem hless]
      simp only
      rw [if_pos (hafter _ (getElem_mem hless))]
      exact ih left index hleft hgt (by omega) (by omega)

theorem findTile_eq : findTile start stop (front ++ tile :: back) offset =
      some (front.length, tile) :=
  findTileLoop_eq htiles hstart hstop _ 0 _ (Nat.zero_le _) (by simp)
    (le_refl _) (by simp)

end

/-- What halving finds is around the number. -/
theorem findTileLoop_sound {fuel left right index : Nat}
    (hfound : findTileLoop start stop tiles offset fuel left right =
      some (index, tile)) :
    tiles[index]? = some tile ∧ start tile ≤ offset ∧ offset < stop tile := by
  induction fuel generalizing left right with
  | zero => simp [findTileLoop] at hfound
  | succ fuel ih =>
    rw [findTileLoop] at hfound
    split at hfound
    · simp only at hfound
      split at hfound
      · simp at hfound
      next other hother =>
        split at hfound
        · exact ih hfound
        · split at hfound
          · exact ih hfound
          · obtain ⟨rfl, rfl⟩ : (left + right - 1) / 2 = index ∧ other = tile := by
              simpa using hfound
            exact ⟨hother, by omega, by omega⟩
    · simp at hfound

theorem findTile_sound {index : Nat}
    (hfound : findTile start stop tiles offset = some (index, tile)) :
    tiles[index]? = some tile ∧ start tile ≤ offset ∧ offset < stop tile :=
  findTileLoop_sound hfound

end Streambus
