/-
Big-endian fixed-width numbers over byte strings.  A number is written in a
given count of bytes and read back modulo the corresponding power of 256; a
signed number is written in two's complement and read back by balanced
remainder.  The CRC-32C checksum (the Castagnoli polynomial, reflected) is
computed one bit at a time.
-/
import Mathlib.Data.List.Lex
import Mathlib.Tactic

namespace Streambus

/-- A byte string. -/
abbrev Bytes := List UInt8

instance bytesLawfulBEq : LawfulBEq Bytes := inferInstance

/-- Bytes are ordered as numbers, and byte strings lexicographically. -/
instance byteLinearOrder : LinearOrder UInt8 where
  le_refl := UInt8.le_refl
  le_trans _ _ _ := UInt8.le_trans
  lt_iff_le_not_ge _ _ := Std.lt_iff_le_and_not_ge
  le_antisymm _ _ := UInt8.le_antisymm
  le_total := UInt8.le_total
  toDecidableLE := inferInstance

instance uint64LinearOrder : LinearOrder UInt64 where
  le_refl := UInt64.le_refl
  le_trans _ _ _ := UInt64.le_trans
  lt_iff_le_not_ge _ _ := Std.lt_iff_le_and_not_ge
  le_antisymm _ _ := UInt64.le_antisymm
  le_total := UInt64.le_total
  toDecidableLE := inferInstance

/-- The low `width` base-256 digits of a number, most significant first. -/
def beBytes : Nat → Nat → Bytes
  | 0, _ => []
  | width + 1, value =>
    UInt8.ofNat (value / 256 ^ width) :: beBytes width value

variable (bytes : Bytes)

/-- The number a byte string denotes, most significant byte first. -/
def beNat : Nat :=
  bytes.foldl (fun value byte => value * 256 + byte.toNat) 0

@[simp] theorem beBytes_length (width value : Nat) :
    (beBytes width value).length = width := by
  induction width with
  | zero => rfl
  | succ width ih => simp [beBytes, ih]

theorem foldl_beBytes (width value start : Nat) : (beBytes width value).foldl
        (fun value byte => value * 256 + byte.toNat) start =
      start * 256 ^ width + value % 256 ^ width := by
  induction width generalizing start with
  | zero => simp [beBytes, Nat.mod_one]
  | succ width ih =>
    have hdigit : (UInt8.ofNat (value / 256 ^ width)).toNat =
        value / 256 ^ width % 256 := by simp
    rw [beBytes, List.foldl_cons, ih, hdigit, Nat.mod_pow_succ]
    ring

/-- Reading back a written number keeps exactly the written digits. -/
@[simp] theorem beNat_beBytes (width value : Nat) :
    beNat (beBytes width value) = value % 256 ^ width := by
  simp [beNat, foldl_beBytes]

theorem beNat_lt : beNat bytes < 256 ^ bytes.length := by
  suffices hfold : ∀ start bound : Nat, start < bound →
      bytes.foldl (fun value byte => value * 256 + byte.toNat) start <
        bound * 256 ^ bytes.length by
    simpa [beNat] using hfold 0 1 Nat.one_pos
  induction bytes with
  | nil => intro start bound hstart; simpa using hstart
  | cons byte rest ih =>
    intro start bound hstart
    have hbyte := byte.toNat_lt
    have hnext : start * 256 + byte.toNat < bound * 256 := by omega
    have hrest := ih (start * 256 + byte.toNat) (bound * 256) hnext
    simpa [pow_succ, Nat.mul_assoc, Nat.mul_comm 256] using hrest

/-- Two's complement big-endian bytes of a signed number. -/
def putInt (width : Nat) (value : Int) : Bytes :=
  beBytes width (value % 256 ^ width).toNat

/-- The signed number a two's complement byte string denotes. -/
def getInt : Int :=
  Int.bmod (beNat bytes) (256 ^ bytes.length)

@[simp] theorem putInt_length (width : Nat) (value : Int) :
    (putInt width value).length = width := by
  simp [putInt]

theorem getInt_putInt_bmod (width : Nat) (value : Int) :
    getInt (putInt width value) = value.bmod (256 ^ width) := by
  have hpos : (0 : Int) < 256 ^ width := by positivity
  have hnonneg := Int.emod_nonneg value (ne_of_gt hpos)
  have hlt : (value % 256 ^ width).toNat < 256 ^ width := by
    have := Int.emod_lt_of_pos value hpos
    zify
    rwa [Int.toNat_of_nonneg hnonneg]
  rw [getInt, putInt_length, putInt, beNat_beBytes, Nat.mod_eq_of_lt hlt,
    Int.toNat_of_nonneg hnonneg]
  have hcast : ((256 ^ width : Nat) : Int) = 256 ^ width := by push_cast; rfl
  rw [← hcast, Int.emod_bmod]

/-- A signed 64-bit number survives eight bytes. -/
theorem getInt_putInt_eight {value : Int} (hlow : -2 ^ 63 ≤ value)
    (hhigh : value < 2 ^ 63) : getInt (putInt 8 value) = value := by
  rw [getInt_putInt_bmod]
  apply Int.bmod_eq_of_le
  · norm_num at hlow ⊢; omega
  · norm_num at hhigh ⊢; omega

variable (register : UInt32)

/-- Shift one bit out of the register and fold the polynomial in. -/
def crcBit : UInt32 :=
  if register &&& 1 = 1 then (register >>> 1) ^^^ 0x82F63B78
  else register >>> 1

def crcByte (byte : UInt8) : UInt32 :=
  Nat.repeat crcBit 8 (register ^^^ byte.toUInt32)

/-- The checksum of a byte string. -/
def crc32c (data : Bytes) : UInt32 :=
  data.foldl crcByte 0xFFFFFFFF ^^^ 0xFFFFFFFF

/-- The published check value, the checksum of the digits 1 to 9. -/
example : crc32c [49, 50, 51, 52, 53, 54, 55, 56, 57] = 0xE3069283 := by
  decide +kernel

/-- Digits above the written ones do not matter. -/
theorem beBytes_add_mul (width value high : Nat) :
    beBytes width (value + high * 256 ^ width) = beBytes width value := by
  induction width generalizing high with
  | zero => rfl
  | succ width ih =>
    have hdigit : (value + high * 256 ^ (width + 1)) / 256 ^ width =
        value / 256 ^ width + high * 256 := by
      rw [pow_succ, ← Nat.mul_assoc, Nat.mul_right_comm,
        Nat.add_mul_div_right _ _ (by positivity)]
    have hlow : beBytes width (value + high * 256 ^ (width + 1)) =
        beBytes width value := by
      rw [← ih (high * 256)]
      ring_nf
    rw [beBytes, hdigit, hlow]
    congr 1
    apply UInt8.toNat_inj.mp
    simp

theorem beNat_cons (byte : UInt8) (rest : Bytes) :
    beNat (byte :: rest) = beNat rest + byte.toNat * 256 ^ rest.length := by
  suffices hfold : ∀ start : Nat,
      rest.foldl (fun value byte => value * 256 + byte.toNat) start =
        beNat rest + start * 256 ^ rest.length by
    simpa [beNat] using hfold byte.toNat
  induction rest with
  | nil => simp [beNat]
  | cons head tail ih =>
    intro start
    rw [List.foldl_cons, ih]
    have hhead : beNat (head :: tail) =
        beNat tail + head.toNat * 256 ^ tail.length := by
      simpa [beNat] using ih head.toNat
    rw [hhead, List.length_cons]
    ring

/-- A byte string is written back from the number it denotes. -/
theorem beBytes_beNat (bytes : Bytes) :
    beBytes bytes.length (beNat bytes) = bytes := by
  induction bytes with
  | nil => rfl
  | cons byte rest ih =>
    have hdigit : beNat (byte :: rest) / 256 ^ rest.length = byte.toNat := by
      rw [beNat_cons, Nat.add_mul_div_right _ _ (by positivity),
        Nat.div_eq_of_lt (beNat_lt rest), Nat.zero_add]
    rw [List.length_cons, beBytes, hdigit, UInt8.ofNat_toNat, beNat_cons,
      beBytes_add_mul, ih]

/-- A type of machine numbers: those below a power of 256, up to the reading
of the bits. -/
class FixedWidth (α : Type) where
  width : Nat
  width_pos : 0 < width
  toNat : α → Nat
  ofNat : Nat → α
  toNat_lt : ∀ value, toNat value < 256 ^ width
  ofNat_toNat : ∀ value, ofNat (toNat value) = value
  toNat_ofNat : ∀ number, number < 256 ^ width → toNat (ofNat number) = number

section

variable {α : Type} [FixedWidth α] (value : α)

def encodeFixed : Bytes :=
  beBytes (FixedWidth.width α) (FixedWidth.toNat value)

def decodeFixed (α : Type) [FixedWidth α] (bytes : Bytes) : α :=
  FixedWidth.ofNat (beNat bytes)

@[simp] theorem encodeFixed_length :
    (encodeFixed value).length = FixedWidth.width α :=
  beBytes_length _ _

@[simp] theorem decodeFixed_encodeFixed :
    decodeFixed α (encodeFixed value) = value := by
  rw [decodeFixed, encodeFixed, beNat_beBytes,
    Nat.mod_eq_of_lt (FixedWidth.toNat_lt value), FixedWidth.ofNat_toNat]

theorem encodeFixed_decodeFixed {bytes : Bytes}
    (hlength : bytes.length = FixedWidth.width α) :
    encodeFixed (decodeFixed α bytes) = bytes := by
  have hlt : beNat bytes < 256 ^ FixedWidth.width α := hlength ▸ beNat_lt bytes
  rw [encodeFixed, decodeFixed, FixedWidth.toNat_ofNat _ hlt, ← hlength,
    beBytes_beNat]

end

instance fixedWidthUInt8 : FixedWidth UInt8 where
  width := 1
  width_pos := by decide
  toNat := UInt8.toNat
  ofNat := UInt8.ofNat
  toNat_lt value := by simpa using value.toNat_lt
  ofNat_toNat _ := UInt8.ofNat_toNat
  toNat_ofNat _ hlt := UInt8.toNat_ofNat_of_lt (by simpa using hlt)

instance fixedWidthUInt16 : FixedWidth UInt16 where
  width := 2
  width_pos := by decide
  toNat := UInt16.toNat
  ofNat := UInt16.ofNat
  toNat_lt value := by simpa using value.toNat_lt
  ofNat_toNat _ := UInt16.ofNat_toNat
  toNat_ofNat _ hlt := UInt16.toNat_ofNat_of_lt (by simpa using hlt)

instance fixedWidthUInt32 : FixedWidth UInt32 where
  width := 4
  width_pos := by decide
  toNat := UInt32.toNat
  ofNat := UInt32.ofNat
  toNat_lt value := by simpa using value.toNat_lt
  ofNat_toNat _ := UInt32.ofNat_toNat
  toNat_ofNat _ hlt := UInt32.toNat_ofNat_of_lt (by simpa using hlt)

instance fixedWidthUInt64 : FixedWidth UInt64 where
  width := 8
  width_pos := by decide
  toNat := UInt64.toNat
  ofNat := UInt64.ofNat
  toNat_lt value := by simpa using value.toNat_lt
  ofNat_toNat _ := UInt64.ofNat_toNat
  toNat_ofNat _ hlt := UInt64.toNat_ofNat_of_lt (by simpa using hlt)

/-- A signed type has the bits of the unsigned type of its width. -/
instance fixedWidthInt8 : FixedWidth Int8 where
  width := 1
  width_pos := by decide
  toNat value := value.toUInt8.toNat
  ofNat number := (UInt8.ofNat number).toInt8
  toNat_lt value := FixedWidth.toNat_lt value.toUInt8
  ofNat_toNat value := by simp
  toNat_ofNat number hlt := by
    rw [UInt8.toUInt8_toInt8]
    exact FixedWidth.toNat_ofNat (α := UInt8) number hlt

instance fixedWidthInt16 : FixedWidth Int16 where
  width := 2
  width_pos := by decide
  toNat value := value.toUInt16.toNat
  ofNat number := (UInt16.ofNat number).toInt16
  toNat_lt value := FixedWidth.toNat_lt value.toUInt16
  ofNat_toNat value := by simp
  toNat_ofNat number hlt := by
    rw [UInt16.toUInt16_toInt16]
    exact FixedWidth.toNat_ofNat (α := UInt16) number hlt

instance fixedWidthInt32 : FixedWidth Int32 where
  width := 4
  width_pos := by decide
  toNat value := value.toUInt32.toNat
  ofNat number := (UInt32.ofNat number).toInt32
  toNat_lt value := FixedWidth.toNat_lt value.toUInt32
  ofNat_toNat value := by simp
  toNat_ofNat number hlt := by
    rw [UInt32.toUInt32_toInt32]
    exact FixedWidth.toNat_ofNat (α := UInt32) number hlt

instance fixedWidthInt64 : FixedWidth Int64 where
  width := 8
  width_pos := by decide
  toNat value := value.toUInt64.toNat
  ofNat number := (UInt64.ofNat number).toInt64
  toNat_lt value := FixedWidth.toNat_lt value.toUInt64
  ofNat_toNat value := by simp
  toNat_ofNat number hlt := by
    rw [UInt64.toUInt64_toInt64]
    exact FixedWidth.toNat_ofNat (α := UInt64) number hlt

end Streambus
