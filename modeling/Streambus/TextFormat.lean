/-
UTF-8 text, and numbers and truth values as text.  An encoder that meets a byte
which does not begin a character writes the replacement character for it.
Integers are written in base ten with a leading minus sign; reading one accepts
either sign, and rejects text that has no digits, has a byte that is not a
digit, or does not fit the given number of bits.
-/
import Mathlib.Data.Nat.Digits.Lemmas
import Streambus.ByteOrder

namespace Streambus

open List

variable (first : UInt8) {rest more : Bytes}

/-- How many bytes follow the first byte of a character, and the range of the
first of them. -/
def characterTail : Option (Nat × UInt8 × UInt8) :=
  if first < 0x80 then some (0, 0x80, 0xbf)
  else if first < 0xc2 then none
  else if first ≤ 0xdf then some (1, 0x80, 0xbf)
  else if first = 0xe0 then some (2, 0xa0, 0xbf)
  else if first = 0xed then some (2, 0x80, 0x9f)
  else if first ≤ 0xef then some (2, 0x80, 0xbf)
  else if first = 0xf0 then some (3, 0x90, 0xbf)
  else if first ≤ 0xf3 then some (3, 0x80, 0xbf)
  else if first = 0xf4 then some (3, 0x80, 0x8f)
  else none

/-- The text goes on with a number of continuation bytes, the first of them in
a range. -/
def continues (low high : UInt8) : Nat → Bytes → Bool
  | 0, _ => true
  | _ + 1, [] => false
  | count + 1, byte :: rest =>
    low ≤ byte && byte ≤ high && continues 0x80 0xbf count rest

/-- How many bytes of the rest belong to the character that a byte begins. -/
def characterRest (rest : Bytes) : Option Nat :=
  match characterTail first with
  | some (count, low, high) =>
    if continues low high count rest then some count else none
  | none => none

/-- The text behind a number of bytes is valid. -/
def validFrom : Nat → Bytes → Bool
  | _, [] => true
  | skip + 1, _ :: rest => validFrom skip rest
  | 0, byte :: rest =>
    match characterRest byte rest with
    | some count => validFrom count rest
    | none => false

def validUtf8 (text : Bytes) : Bool := validFrom 0 text

def replacementCharacter : Bytes := [0xef, 0xbf, 0xbd]

/-- Copy a number of bytes, then replace every byte that begins no
character. -/
def replaceFrom : Nat → Bytes → Bytes
  | _, [] => []
  | copied + 1, byte :: rest => byte :: replaceFrom copied rest
  | 0, byte :: rest =>
    match characterRest byte rest with
    | some count => byte :: replaceFrom count rest
    | none => replacementCharacter ++ replaceFrom 0 rest

def replaceInvalid (text : Bytes) : Bytes := replaceFrom 0 text

/-- Bytes that are copied stay continuation bytes. -/
theorem continues_replaceFrom (low high : UInt8) (count : Nat) (text : Bytes) :
    continues low high count (replaceFrom count text) =
      continues low high count text := by
  induction text generalizing low high count with
  | nil => rfl
  | cons byte rest ih =>
    cases count with
    | zero => rfl
    | succ count => simp only [replaceFrom, continues, ih]

variable {count : Nat} {text : Bytes}

theorem characterRest_replaceFrom {first : UInt8}
    (hrest : characterRest first rest = some count) :
    characterRest first (replaceFrom count rest) = some count := by
  unfold characterRest at hrest ⊢
  split at hrest
  next wanted low high htail =>
    split at hrest
    · rename_i hcontinues
      cases hrest
      simp only [continues_replaceFrom, hcontinues, ↓reduceIte]
    · cases hrest
  · cases hrest

theorem validFrom_replaceFrom (skip : Nat) (text : Bytes) :
    validFrom skip (replaceFrom skip text) = true := by
  induction text generalizing skip with
  | nil => cases skip <;> rfl
  | cons byte rest ih =>
    cases skip with
    | succ skip => exact ih skip
    | zero =>
      unfold replaceFrom
      split
      next count hrest =>
        simp only [validFrom, characterRest_replaceFrom hrest, ih]
      · exact ih 0

theorem validUtf8_replaceInvalid (text : Bytes) :
    validUtf8 (replaceInvalid text) = true :=
  validFrom_replaceFrom 0 text

theorem replaceFrom_of_validFrom {skip : Nat}
    (hvalid : validFrom skip text = true) : replaceFrom skip text = text := by
  induction text generalizing skip with
  | nil => cases skip <;> rfl
  | cons byte rest ih =>
    cases skip with
    | succ skip => exact congrArg (byte :: ·) (ih hvalid)
    | zero =>
      unfold validFrom at hvalid
      unfold replaceFrom
      split at hvalid
      next count hrest => simp only [ih hvalid]
      · cases hvalid

/-- Exactly valid text survives an encoder. -/
theorem replaceInvalid_eq_self_iff :
    replaceInvalid text = text ↔ validUtf8 text = true := by
  constructor
  · intro hself
    rw [← hself]
    exact validUtf8_replaceInvalid text
  · exact replaceFrom_of_validFrom

/-- Valid text. -/
structure Utf8Text where
  bytes : Bytes
  valid : validUtf8 bytes = true
deriving DecidableEq

theorem continues_append {low high : UInt8}
    (hcontinues : continues low high count text = true) (more : Bytes) :
    count ≤ text.length ∧ continues low high count (text ++ more) = true := by
  induction text generalizing low high count with
  | nil =>
    cases count with
    | zero => exact ⟨le_rfl, rfl⟩
    | succ count => cases hcontinues
  | cons byte rest ih =>
    cases count with
    | zero => exact ⟨Nat.zero_le _, rfl⟩
    | succ count =>
      simp only [continues, Bool.and_eq_true, cons_append] at hcontinues ⊢
      obtain ⟨hle, hrest⟩ := ih hcontinues.2
      exact ⟨Nat.succ_le_succ hle, hcontinues.1, hrest⟩

theorem characterRest_append {first : UInt8}
    (hrest : characterRest first rest = some count) (more : Bytes) :
    count ≤ rest.length ∧ characterRest first (rest ++ more) = some count := by
  unfold characterRest at hrest ⊢
  split at hrest
  next wanted low high htail =>
    split at hrest
    · rename_i hcontinues
      cases hrest
      obtain ⟨hle, hmore⟩ := continues_append hcontinues more
      exact ⟨hle, if_pos hmore⟩
    · cases hrest
  · cases hrest

theorem validFrom_append {skip : Nat} (hskip : skip ≤ text.length)
    (htext : validFrom skip text = true) (hmore : validUtf8 more = true) :
    validFrom skip (text ++ more) = true := by
  induction text generalizing skip with
  | nil =>
    obtain rfl := Nat.le_zero.mp hskip
    exact hmore
  | cons byte rest ih =>
    cases skip with
    | succ skip => exact ih (Nat.le_of_succ_le_succ hskip) htext
    | zero =>
      unfold validFrom at htext
      split at htext
      next count hrest =>
        obtain ⟨hle, hboth⟩ := characterRest_append hrest more
        simp only [cons_append, validFrom, hboth]
        exact ih hle htext
      · cases htext

theorem validUtf8_append (htext : validUtf8 text = true)
    (hmore : validUtf8 more = true) : validUtf8 (text ++ more) = true :=
  validFrom_append (Nat.zero_le _) htext hmore

theorem validUtf8_of_ascii (hascii : ∀ byte ∈ text, byte < 0x80) :
    validUtf8 text = true := by
  induction text with
  | nil => rfl
  | cons byte rest ih =>
    obtain ⟨hbyte, hrest⟩ := forall_mem_cons.mp hascii
    simp only [validUtf8, validFrom, characterRest, characterTail, hbyte,
      ↓reduceIte, continues]
    exact ih hrest

theorem Utf8Text.bytes_injective : Function.Injective Utf8Text.bytes := by
  rintro ⟨left, _⟩ ⟨right, _⟩ rfl
  rfl

instance utf8LinearOrder : LinearOrder Utf8Text :=
  LinearOrder.lift' Utf8Text.bytes Utf8Text.bytes_injective

/-- Bytes as an encoder writes them. -/
def Utf8Text.encode (text : Bytes) : Utf8Text :=
  ⟨replaceInvalid text, validUtf8_replaceInvalid text⟩

/-- The bytes of a text, for texts of one-byte characters. -/
def textBytes (text : String) : Bytes :=
  text.toList.map fun char => UInt8.ofNat char.toNat

def digitByte (digit : Nat) : UInt8 := UInt8.ofNat (48 + digit)

def formatNat (number : Nat) : Bytes :=
  if number = 0 then [digitByte 0]
  else (Nat.digits 10 number).reverse.map digitByte

def formatInt (number : Int) : Bytes :=
  if number < 0 then 45 :: formatNat number.natAbs
  else formatNat number.natAbs

def parseDigit (byte : UInt8) : Option Nat :=
  if 48 ≤ byte.toNat ∧ byte.toNat ≤ 57 then some (byte.toNat - 48) else none

/-- Read digits behind a number read so far. -/
def parseDigits : Nat → Bytes → Option Nat
  | number, [] => some number
  | number, byte :: rest =>
    match parseDigit byte with
    | none => none
    | some digit => parseDigits (number * 10 + digit) rest

def parseNat (text : Bytes) : Option Nat :=
  if text = [] then none else parseDigits 0 text

/-- Read an integer that fits the given number of bits. -/
def parseInt (bits : Nat) : Bytes → Option Int
  | [] => none
  | sign :: rest =>
    let digits := if sign = 43 ∨ sign = 45 then rest else sign :: rest
    match parseNat digits with
    | none => none
    | some number =>
      if sign = 45 then
        if number ≤ 2 ^ (bits - 1) then some (-number) else none
      else if number < 2 ^ (bits - 1) then some number
      else none

def formatBool (value : Bool) : Bytes :=
  if value then textBytes "true" else textBytes "false"

def parseBool (text : Bytes) : Option Bool :=
  if text ∈ ["1", "t", "T", "TRUE", "true", "True"].map textBytes then some true
  else if text ∈ ["0", "f", "F", "FALSE", "false", "False"].map textBytes then
    some false
  else none

theorem digitByte_toNat {digit : Nat} (hdigit : digit < 10) :
    (digitByte digit).toNat = 48 + digit := by
  rw [digitByte, UInt8.toNat_ofNat', Nat.mod_eq_of_lt (by omega)]

theorem parseDigit_digitByte {digit : Nat} (hdigit : digit < 10) :
    parseDigit (digitByte digit) = some digit := by
  rw [parseDigit, digitByte_toNat hdigit, if_pos (by omega)]
  simp

/-- Digits are read as the number they denote, most significant first. -/
theorem parseDigits_map {digits : List Nat} (hdigits : ∀ d ∈ digits, d < 10)
    (number : Nat) :
    parseDigits number (digits.map digitByte) =
      some (number * 10 ^ digits.length + Nat.ofDigits 10 digits.reverse) := by
  induction digits generalizing number with
  | nil => simp [parseDigits]
  | cons digit rest ih =>
    have hhead : digit < 10 := hdigits digit mem_cons_self
    rw [map_cons, parseDigits, parseDigit_digitByte hhead]
    simp only
    rw [ih fun d hd => hdigits d (mem_cons_of_mem digit hd), reverse_cons,
      Nat.ofDigits_append, Nat.ofDigits_singleton, length_reverse, length_cons]
    congr 1
    ring

variable (number : Nat)

/-- What is written for a number reads as its digits. -/
theorem formatNat_eq_map : ∃ digits, digits ≠ [] ∧ (∀ d ∈ digits, d < 10) ∧
      Nat.ofDigits 10 digits.reverse = number ∧
      formatNat number = digits.map digitByte := by
  by_cases hzero : number = 0
  · subst hzero
    exact ⟨[0], by simp, by simp, by simp, rfl⟩
  · refine ⟨(Nat.digits 10 number).reverse, ?_, ?_, ?_, ?_⟩
    · simpa using Nat.digits_ne_nil_iff_ne_zero.mpr hzero
    · intro digit hdigit
      exact Nat.digits_lt_base (by norm_num) (mem_reverse.mp hdigit)
    · rw [reverse_reverse, Nat.ofDigits_digits]
    · rw [formatNat, if_neg hzero]

theorem parseNat_formatNat : parseNat (formatNat number) = some number := by
  obtain ⟨digits, hne, hdigits, hvalue, hformat⟩ := formatNat_eq_map number
  rw [hformat, parseNat, if_neg (by simpa using hne), parseDigits_map hdigits, hvalue]
  simp

/-- No digit is a sign. -/
theorem formatNat_head :
    ∃ byte rest, formatNat number = byte :: rest ∧ byte ≠ 43 ∧ byte ≠ 45 := by
  obtain ⟨digits, hne, hdigits, -, hformat⟩ := formatNat_eq_map number
  cases digits with
  | nil => exact absurd rfl hne
  | cons digit rest =>
    have hbyte := digitByte_toNat (hdigits digit mem_cons_self)
    refine ⟨digitByte digit, rest.map digitByte, hformat, ?_, ?_⟩
    · intro heq
      rw [heq] at hbyte
      change 43 = 48 + digit at hbyte
      omega
    · intro heq
      rw [heq] at hbyte
      change 45 = 48 + digit at hbyte
      omega

theorem formatNat_digits :
    ∀ byte ∈ formatNat number, 48 ≤ byte.toNat ∧ byte.toNat ≤ 57 := by
  obtain ⟨digits, -, hdigits, -, hformat⟩ := formatNat_eq_map number
  intro byte hbyte
  rw [hformat] at hbyte
  obtain ⟨digit, hdigit, rfl⟩ := mem_map.mp hbyte
  have hlt := hdigits digit hdigit
  rw [digitByte_toNat hlt]
  omega

theorem formatNat_ascii : ∀ byte ∈ formatNat number, byte < 0x80 := by
  intro byte hbyte
  have hdigit := formatNat_digits number byte hbyte
  change byte.toNat < 128
  omega

theorem formatInt_ascii (number : Int) : ∀ byte ∈ formatInt number, byte < 0x80 := by
  unfold formatInt
  split
  · intro byte hbyte
    rcases mem_cons.mp hbyte with rfl | hdigits
    · decide
    · exact formatNat_ascii _ byte hdigits
  · exact formatNat_ascii _

theorem parseInt_formatInt {bits : Nat} {number : Int}
    (hlower : -2 ^ (bits - 1) ≤ number) (hupper : number < 2 ^ (bits - 1)) :
    parseInt bits (formatInt number) = some number := by
  by_cases hneg : number < 0
  · rw [formatInt, if_pos hneg]
    have hfits : number.natAbs ≤ 2 ^ (bits - 1) := by
      zify
      rw [abs_of_neg hneg]
      linarith
    simp only [parseInt, or_true, ↓reduceIte, parseNat_formatNat, hfits]
    congr 1
    omega
  · obtain ⟨byte, rest, hformat, hplus, hminus⟩ := formatNat_head number.natAbs
    have hfits : number.natAbs < 2 ^ (bits - 1) := by
      zify
      rwa [abs_of_nonneg (not_lt.mp hneg)]
    have hnat := parseNat_formatNat number.natAbs
    rw [hformat] at hnat
    rw [formatInt, if_neg hneg, hformat]
    simp only [parseInt, hplus, hminus, or_self, ↓reduceIte, hnat, hfits]
    congr 1
    omega

theorem parseBool_formatBool (value : Bool) :
    parseBool (formatBool value) = some value := by
  cases value <;> decide

end Streambus
