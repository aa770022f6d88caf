/-
Directory trees.  A path is the list of the names that lead to it from the
root, and a tree says what is at each path: a file, or a directory that may
hold a value of its own.  Texts are joined to paths name by name, and a
directory is made together with the ones above it.
-/
import Streambus.ByteOrder
import Streambus.OrderedMap

namespace Streambus

open List

abbrev Path := List Bytes

inductive Node (ν : Type) where
  | file (content : Bytes)
  | dir (held : Option ν)
deriving DecidableEq

abbrev FileTree (ν : Type) := OrderedMap Path (Node ν)

/-- The names of a text, which stand between slashes. -/
def splitNames : Bytes → List Bytes
  | [] => [[]]
  | byte :: rest =>
    if byte = 47 then [] :: splitNames rest
    else match splitNames rest with
      | [] => [[byte]]
      | name :: names => (byte :: name) :: names

/-- One name further: nothing and a dot lead nowhere, two dots lead up. -/
def followName (path : Path) (name : Bytes) : Path :=
  if name = [] ∨ name = [46] then path
  else if name = [46, 46] then path.dropLast
  else path ++ [name]

def joinPath (path : Path) (text : Bytes) : Path :=
  (splitNames text).foldl followName path

/-- A text that is the name of something in a directory. -/
def SingleName (text : Bytes) : Prop :=
  text ≠ [] ∧ text ≠ [46] ∧ text ≠ [46, 46] ∧ 47 ∉ text

instance (text : Bytes) : Decidable (SingleName text) := instDecidableAnd

variable {text : Bytes}

theorem splitNames_of_notMem (hslash : 47 ∉ text) : splitNames text = [text] := by
  induction text with
  | nil => rfl
  | cons byte rest ih =>
    rw [mem_cons, not_or] at hslash
    rw [splitNames, if_neg (Ne.symm hslash.1), ih hslash.2]

theorem joinPath_of_singleName (hsingle : SingleName text) (path : Path) :
    joinPath path text = path ++ [text] := by
  obtain ⟨hempty, hdot, hdots, hslash⟩ := hsingle
  rw [joinPath, splitNames_of_notMem hslash, foldl_cons, foldl_nil,
    followName, if_neg (not_or.mpr ⟨hempty, hdot⟩), if_neg hdots]

/-- The names that a directory takes. -/
def legalName (name : Bytes) : Bool :=
  name.length ≤ 255 && !name.contains 0

/-- The name of a path directly in a directory. -/
def childName? : Path → Path → Option Bytes
  | [], [name] => some name
  | head :: dir, other :: path =>
    if head = other then childName? dir path else none
  | _, _ => none

theorem childName?_eq_some {dir path : Path} {name : Bytes} :
    childName? dir path = some name ↔ path = dir ++ [name] := by
  induction dir generalizing path with
  | nil =>
    rcases path with _ | ⟨first, _ | ⟨second, rest⟩⟩ <;>
      simp [childName?]
  | cons head dir ih =>
    cases path with
    | nil => simp [childName?]
    | cons other path =>
      rw [childName?]
      split
      next heq =>
        rw [ih, heq]
        simp
      next hne => simp [Ne.symm hne]

namespace FileTree

variable {ν : Type}

/-- The directories in a directory, by name. -/
def subdirs (tree : FileTree ν) (dir : Path) : List Bytes :=
  tree.entries.filterMap fun entry =>
    match entry.2 with
    | .dir _ => childName? dir entry.1
    | .file _ => none

variable {tree : FileTree ν} {dir path : Path} {name : Bytes}

theorem mem_subdirs : name ∈ subdirs tree dir ↔
      ∃ held, tree.find? (dir ++ [name]) = some (.dir held) := by
  rw [subdirs, mem_filterMap]
  constructor
  · rintro ⟨⟨path, node⟩, hentry, hname⟩
    cases node with
    | file content => cases hname
    | dir held =>
      rw [childName?_eq_some] at hname
      subst hname
      exact ⟨held, (tree.mem_entries_iff _ _).mp hentry⟩
  · rintro ⟨held, hfind⟩
    exact ⟨(dir ++ [name], .dir held), (tree.mem_entries_iff _ _).mpr hfind,
      childName?_eq_some.mpr rfl⟩

/-- Make the directories that names lead through from a directory.  What was
made before a name fails stays. -/
def makeDirs (tree : FileTree ν) (dir : Path) : List Bytes → FileTree ν × Bool
  | [] => (tree, true)
  | name :: names =>
    match tree.find? (dir ++ [name]) with
    | some (.dir _) => makeDirs tree (dir ++ [name]) names
    | some (.file _) => (tree, false)
    | none =>
      if legalName name then
        makeDirs (tree.insert (dir ++ [name]) (.dir none)) (dir ++ [name]) names
      else (tree, false)

def mkdirAll (tree : FileTree ν) (path : Path) : FileTree ν × Bool :=
  makeDirs tree [] path

/-- Remove what is at a path and below it. -/
def removeAll (tree : FileTree ν) (path : Path) : FileTree ν :=
  tree.filter fun other _ => !path.isPrefixOf other

theorem find?_removeAll (tree : FileTree ν) (path other : Path) :
    (tree.removeAll path).find? other =
      if path <+: other then none else tree.find? other := by
  rw [removeAll, OrderedMap.find?_filter]
  cases tree.find? other with
  | none => simp
  | some node =>
    by_cases hprefix : path <+: other
    · simp [Option.filter, hprefix, List.isPrefixOf_iff_prefix.mpr hprefix]
    · have hnot : path.isPrefixOf other = false := by
        rw [← Bool.not_eq_true, List.isPrefixOf_iff_prefix]
        exact hprefix
      simp [Option.filter, hprefix, hnot]

/-- A path all of whose directories are there. -/
def HasDirs (tree : FileTree ν) (path : Path) : Prop :=
  ∀ front, front <+: path → front ≠ [] → ∃ held, tree.find? front = some (.dir held)

theorem makeDirs_append (front : Path) {names : List Bytes}
    (hdirs : HasDirs tree (dir ++ front)) :
    makeDirs tree dir (front ++ names) = makeDirs tree (dir ++ front) names := by
  induction front generalizing dir with
  | nil => rw [append_nil, nil_append]
  | cons name front ih =>
    obtain ⟨held, hheld⟩ := hdirs (dir ++ [name])
      ⟨front, by rw [append_assoc]; rfl⟩ (by simp)
    rw [cons_append, makeDirs, hheld]
    have hinner : HasDirs tree (dir ++ [name] ++ front) := by
      rwa [append_assoc, singleton_append]
    have hrest := ih hinner
    rwa [append_assoc, singleton_append] at hrest

theorem mkdirAll_append (hdirs : HasDirs tree path) (names : List Bytes) :
    mkdirAll tree (path ++ names) = makeDirs tree path names :=
  @makeDirs_append ν tree [] path names hdirs

theorem mkdirAll_of_hasDirs (hdirs : HasDirs tree path) :
    mkdirAll tree path = (tree, true) := by
  have hnone := mkdirAll_append hdirs []
  rwa [append_nil] at hnone

/-- The first directory to be made may as well be made before. -/
theorem makeDirs_insert (hnew : tree.find? (dir ++ [name]) = none)
    (hlegal : legalName name = true) (names : List Bytes) :
    makeDirs tree dir (name :: names) =
      makeDirs (tree.insert (dir ++ [name]) (.dir none)) dir (name :: names) := by
  rw [makeDirs, hnew, makeDirs, OrderedMap.find?_insert_self]
  exact if_pos hlegal

end FileTree

end Streambus
