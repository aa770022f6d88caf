/-
Decoded JSON values.  An object is a list of members, in any order; a member is
looked up by its name.  Numbers are kept as they are written.
-/
import Streambus.ByteOrder

namespace Streambus

inductive Json where
  | null
  | bool (flag : Bool)
  | number (literal : Bytes)
  | string (text : Bytes)
  | array (items : List Json)
  | object (members : List (Bytes × Json))

abbrev JsonObject := List (Bytes × Json)

inductive JsonKind where
  | null
  | bool
  | number
  | string
  | array
  | object
deriving DecidableEq

namespace Json

def kind : Json → JsonKind
  | .null => .null
  | .bool _ => .bool
  | .number _ => .number
  | .string _ => .string
  | .array _ => .array
  | .object _ => .object

def text? : Json → Option Bytes
  | .string text => some text
  | _ => none

def items : Json → List Json
  | .array items => items
  | _ => []

def object? : Json → Option JsonObject
  | .object members => some members
  | _ => none

/-- A value decoded into a map, which `null` leaves empty. -/
def map? : Json → Option JsonObject
  | .object members => some members
  | .null => some []
  | _ => none

/-- The value of a member. -/
def member? (name : Bytes) : JsonObject → Option Json
  | [] => none
  | (key, value) :: rest => if key = name then some value else member? name rest

/-- A value of a given kind. -/
def ofKind : JsonKind → Json
  | .null => .null
  | .bool => .bool false
  | .number => .number []
  | .string => .string []
  | .array => .array []
  | .object => .object []

@[simp] theorem kind_ofKind (kind : JsonKind) : (ofKind kind).kind = kind := by
  cases kind <;> rfl

variable {members : JsonObject} {name : Bytes} {value : Json}

theorem mem_of_member? (hmember : member? name members = some value) :
    (name, value) ∈ members := by
  induction members with
  | nil => nomatch hmember
  | cons entry rest ih =>
    unfold member? at hmember
    split_ifs at hmember with hkey
    · obtain rfl := hkey
      obtain rfl := Option.some.inj hmember
      exact List.mem_cons_self
    · exact List.mem_cons_of_mem _ (ih hmember)

theorem member?_isSome : (member? name members).isSome = true ↔
      ∃ value, (name, value) ∈ members := by
  constructor
  · intro hsome
    obtain ⟨value, hvalue⟩ := Option.isSome_iff_exists.mp hsome
    exact ⟨value, mem_of_member? hvalue⟩
  · rintro ⟨value, hvalue⟩
    induction members with
    | nil => nomatch hvalue
    | cons entry rest ih =>
      unfold member?
      split_ifs with hkey
      · rfl
      · rcases List.mem_cons.mp hvalue with heq | hrest
        · exact absurd (congrArg Prod.fst heq).symm hkey
        · exact ih hrest

theorem sizeOf_member_lt (hmember : member? name members = some value) :
    sizeOf value < sizeOf members := by
  have hlt := List.sizeOf_lt_of_mem (mem_of_member? hmember)
  simp only [Prod.mk.sizeOf_spec] at hlt
  omega

theorem sizeOf_object_lt (hobject : value.object? = some members) :
    sizeOf members < sizeOf value := by
  cases value with
  | object inner =>
    obtain rfl := Option.some.inj hobject
    simp only [object.sizeOf_spec]
    omega
  | _ => nomatch hobject

end Json

end Streambus
