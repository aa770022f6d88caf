/-
Payloads that serialize themselves.  A payload writes its fields into a buffer
that may only be counting, and reads them from a slice with every length
checked; the first failed check sticks, and later reads do nothing.  A writer
and a reader are paired if the reader gets back what the writer wrote.
-/
import Streambus.WireCursor

namespace Streambus.Protocol

open Int32 List Program

def maxMessageSize : Nat := 1024 * 1024 * 10

def maxArrayLen : Nat := maxMessageSize

/-- An error code on the wire. -/
abbrev ErrorCode := UInt16

def writeInt8 (value : Int8) : Writer := store (encodeFixed value)

def writeBool (value : Bool) : Writer := writeInt8 (if value then 1 else 0)

def writeInt16 (value : Int16) : Writer := store (encodeFixed value)

def writeInt32 (value : Int32) : Writer := store (encodeFixed value)

def writeInt64 (value : Int64) : Writer := store (encodeFixed value)

def writeUint16 (value : UInt16) : Writer := store (encodeFixed value)

/-- A length beyond the bound is written as zero. -/
def writeArrayLen (count : Nat) : Writer :=
  if maxArrayLen < count then writeInt32 0 else writeInt32 (Int32.ofNat count)

def writeErrorCode (code : ErrorCode) : Writer := writeUint16 code

def writeString (text : Bytes) : Writer := do
  writeArrayLen text.length
  store text

/-- No bytes at all are told from an empty byte string by the length -1. -/
def writeBytes : Option Bytes → Writer
  | none => writeInt32 (-1)
  | some data => do
      writeArrayLen data.length
      store data

/-- A count and the elements. -/
def writeArray {α : Type} (element : α → Writer) (values : List α) :
    Writer := do
  writeArrayLen values.length
  Program.forEach element values

/-- Why a payload is malformed. -/
inductive WireError where
  | need (count : Int) (offset : Nat) (available : Int)
  | negativeStringLength (length : Int32)
  | negativeByteSliceLength (length : Int32)
  | negativeElementCount (count : Int32)
  | elementCountExceeds (count : Int32) (remaining : Int)
deriving DecidableEq

structure PayloadReader where
  buf : Slice
  pos : Nat
  err : Option WireError
deriving DecidableEq

abbrev PayloadRead (α : Type) := Program PayloadReader α

def newReader (buf : Slice) : PayloadReader := ⟨buf, 0, none⟩

/-- A check has failed. -/
def failed : PayloadRead Bool := fun reader =>
  .returned (reader.err.isSome, reader)

/-- Record a failure unless there is one already. -/
def fail (error : WireError) : PayloadRead Unit := fun reader =>
  .returned ((), { reader with err := reader.err.or (some error) })

def remaining : PayloadRead Int := fun reader =>
  .returned (reader.buf.data.length - reader.pos, reader)

/-- The next bytes, or nothing if there are not as many. -/
def take (count : Int) : PayloadRead (Option Bytes) := fun reader =>
  if reader.err.isSome then .returned (none, reader)
  else if count < 0 ∨ (reader.buf.data.length : Int) < reader.pos + count then
    .returned (none, { reader with
      err := some (.need count reader.pos
        (reader.buf.data.length - reader.pos)) })
  else
    let stop := reader.pos + count.toNat
    if stop ≤ reader.buf.whole.length then
      .returned (some ((reader.buf.whole.drop reader.pos).take count.toNat),
          { reader with pos := stop })
    else .panicked

/-- The number in the first bytes of a byte string. -/
def fixedOf (α : Type) [FixedWidth α] (bytes : Bytes) : PayloadRead α :=
  if FixedWidth.width α ≤ bytes.length then
    pure (decodeFixed α (bytes.take (FixedWidth.width α)))
  else Program.panic

/-- A number, or zero if there is none left. -/
def readFixed (α : Type) [FixedWidth α] : PayloadRead α := do
  let taken ← take (FixedWidth.width α)
  match taken with
  | none => return FixedWidth.ofNat 0
  | some bytes => fixedOf α bytes

def readInt8 : PayloadRead Int8 := readFixed Int8

def readBool : PayloadRead Bool := do
  let value ← readInt8
  return value != 0

def readInt16 : PayloadRead Int16 := readFixed Int16

def readInt32 : PayloadRead Int32 := readFixed Int32

def readInt64 : PayloadRead Int64 := readFixed Int64

def readUint16 : PayloadRead UInt16 := readFixed UInt16

def readErrorCode : PayloadRead ErrorCode := readUint16

def readString : PayloadRead Bytes := do
  let length ← readInt32
  if ← failed then return []
  else if length < 0 then
    fail (.negativeStringLength length)
    return []
  else
    let taken ← take length.toInt
    return taken.getD []

def readBytes : PayloadRead (Option Bytes) := do
  let length ← readInt32
  if ← failed then return none
  else if length = -1 then return none
  else if length < 0 then
    fail (.negativeByteSliceLength length)
    return none
  else take length.toInt

/-- A count; every element is at least one byte. -/
def readCount : PayloadRead Nat := do
  let count ← readInt32
  if ← failed then return 0
  else if count < 0 then
    fail (.negativeElementCount count)
    return 0
  else
    let left ← remaining
    if left < count.toInt then
      fail (.elementCountExceeds count left)
      return 0
    else return count.toInt.toNat

/-- A count and as many elements.  A payload whose count fails is given up
there; the reads it leaves out would do nothing. -/
def readArray {α : Type} (element : PayloadRead α) : PayloadRead (List α) := do
  let count ← readCount
  if ← failed then return []
  else Program.replicate count element

instance total_failed : Program.Total failed := ⟨fun _ => ⟨_, rfl⟩⟩

instance total_fail (error : WireError) : Program.Total (fail error) :=
  ⟨fun _ => ⟨_, rfl⟩⟩

instance total_remaining : Program.Total remaining := ⟨fun _ => ⟨_, rfl⟩⟩

theorem take_returns (count : Int) (reader : PayloadReader) :
    ∃ taken after, take count reader = .returned (taken, after) ∧
      ∀ bytes ∈ taken, (bytes.length : Int) = count := by
  unfold take
  split
  · exact ⟨none, _, rfl, by simp⟩
  · split
    · exact ⟨none, _, rfl, by simp⟩
    next hinside =>
      have hstop : reader.pos + count.toNat ≤ reader.buf.whole.length := by
        simp only [Slice.whole, length_append]
        omega
      simp only [hstop, ↓reduceIte]
      refine ⟨_, _, rfl, ?_⟩
      simp only [Option.mem_some_iff, forall_eq', length_take, length_drop]
      omega

instance total_take (count : Int) : Program.Total (take count) where
  returns reader := by
    obtain ⟨taken, after, hrun, _⟩ := take_returns count reader
    exact ⟨_, hrun⟩

instance total_readFixed (α : Type) [FixedWidth α] :
    Program.Total (readFixed α) where
  returns reader := by
    obtain ⟨taken, after, hrun, hlength⟩ :=
      take_returns (FixedWidth.width α) reader
    unfold readFixed
    rw [run_bind hrun]
    cases taken with
    | none => exact ⟨_, rfl⟩
    | some bytes =>
      have hwidth : FixedWidth.width α ≤ bytes.length :=
        (Int.ofNat.inj (hlength bytes rfl)).ge
      simp only [fixedOf, hwidth, ↓reduceIte]
      exact ⟨_, rfl⟩

instance total_readInt8 : Program.Total readInt8 := total_readFixed Int8

instance total_readInt16 : Program.Total readInt16 := total_readFixed Int16

instance total_readInt32 : Program.Total readInt32 := total_readFixed Int32

instance total_readInt64 : Program.Total readInt64 := total_readFixed Int64

instance total_readErrorCode : Program.Total readErrorCode :=
  total_readFixed UInt16

instance total_readBool : Program.Total readBool := by
  unfold readBool
  infer_instance

instance total_readString : Program.Total readString := by
  unfold readString
  infer_instance

instance total_readBytes : Program.Total readBytes := by
  unfold readBytes
  infer_instance

instance total_readCount : Program.Total readCount := by
  unfold readCount
  infer_instance

instance total_readArray {α : Type} (element : PayloadRead α)
    [Program.Total element] : Program.Total (readArray element) := by
  unfold readArray
  infer_instance

/-- No check has failed, and these bytes are left. -/
structure PayloadReader.Left (reader : PayloadReader) (rest : Bytes) : Prop where
  sound : reader.err = none
  inside : reader.pos ≤ reader.buf.data.length
  rest_eq : reader.buf.data.drop reader.pos = rest

/-- The reader turns these bytes into the value and leaves what follows. -/
def Reads {α : Type} (read : PayloadRead α) (bytes : Bytes) (value : α) :
    Prop :=
  ∀ (reader : PayloadReader) (rest : Bytes), reader.Left (bytes ++ rest) →
    ∃ after, read reader = .returned (value, after) ∧ after.Left rest

section

variable {α β : Type}

theorem reads_pure (value : α) : Reads (pure value) [] value :=
  fun reader _ hleft => ⟨reader, rfl, hleft⟩

variable {next : α → PayloadRead β} {read : PayloadRead α}

theorem Reads.bind {front back : Bytes} {value : α} {result : β}
    (hread : Reads read front value) (hnext : Reads (next value) back result) :
    Reads (read >>= next) (front ++ back) result := by
  intro reader rest hleft
  rw [append_assoc] at hleft
  obtain ⟨middle, hrun, hmiddle⟩ := hread reader _ hleft
  obtain ⟨after, hthen, hafter⟩ := hnext middle rest hmiddle
  exact ⟨after, by rw [run_bind hrun, hthen], hafter⟩

theorem Reads.after {bytes : Bytes} {value : α} {result : β}
    (hread : Reads read bytes value) (hnext : Reads (next value) [] result) :
    Reads (read >>= next) bytes result := by
  simpa using hread.bind hnext

theorem reads_failed : Reads failed [] false := by
  intro reader rest hleft
  refine ⟨reader, ?_, hleft⟩
  simp only [failed, hleft.sound, Option.isSome_none]

theorem reads_take (bytes : Bytes) :
    Reads (take bytes.length) bytes (some bytes) := by
  intro reader rest hleft
  obtain ⟨hsound, hinside, hrest⟩ := hleft
  have hlength : reader.buf.data.length - reader.pos =
      bytes.length + rest.length := by
    rw [← length_drop, hrest, length_append]
  have hfits : ¬((bytes.length : Int) < 0 ∨
      (reader.buf.data.length : Int) < reader.pos + bytes.length) := by omega
  have hstop : reader.pos + bytes.length ≤ reader.buf.whole.length := by
    simp only [Slice.whole, length_append]
    omega
  have htaken : (reader.buf.whole.drop reader.pos).take bytes.length =
      bytes := by
    rw [Slice.whole, drop_append_of_le_length hinside, hrest, append_assoc, take_left]
  refine ⟨{ reader with pos := reader.pos + bytes.length }, ?_,
    hsound, by simp only; omega, ?_⟩
  · simp only [take, hsound, Option.isSome_none, Bool.false_eq_true,
      ↓reduceIte, hfits, Int.toNat_natCast, hstop, htaken]
  · simp only
    rw [← drop_drop, hrest, drop_left]

theorem reads_fixed [FixedWidth α] (value : α) :
    Reads (readFixed α) (encodeFixed value) value := by
  have htake := reads_take (encodeFixed value)
  rw [encodeFixed_length] at htake
  apply htake.after
  have htaken : (encodeFixed value).take (FixedWidth.width α) = encodeFixed value :=
    take_of_length_le (encodeFixed_length value).le
  simp only [fixedOf, encodeFixed_length, le_refl, ↓reduceIte, htaken,
    decodeFixed_encodeFixed]
  exact reads_pure value

end

/-- The writer writes at least so many bytes, from which the reader reads the
value, within the bound on lengths. -/
def Paired {α : Type} (least : Nat) (writer : Writer) (read : PayloadRead α)
    (value : α) : Prop :=
  ∃ bytes : Bytes, least ≤ bytes.length ∧ Writes writer bytes ∧
    (bytes.length ≤ maxArrayLen → Reads read bytes value)

section

variable {α β : Type}

theorem paired_pure (value : α) : Paired 0 (pure ()) (pure value) value :=
  ⟨[], le_refl 0, writes_pure, fun _ => reads_pure value⟩

variable {read : PayloadRead α} {least : Nat} {value : α} {writer : Writer}

theorem Paired.bind {more : Nat} {first second : Writer}
    {next : α → PayloadRead β} {result : β}
    (hfirst : Paired least first read value)
    (hsecond : Paired more second (next value) result) :
    Paired (least + more) (first >>= fun _ => second) (read >>= next)
      result := by
  obtain ⟨front, hleast, hwrites, hreads⟩ := hfirst
  obtain ⟨back, hmore, hthen, hnext⟩ := hsecond
  refine ⟨front ++ back, ?_, hwrites.bind hthen, ?_⟩
  · rw [length_append]
    omega
  · intro hbound
    rw [length_append] at hbound
    exact (hreads (by omega)).bind (hnext (by omega))

section

variable (hpaired : Paired least writer read value)

include hpaired

theorem Paired.map (build : α → β) :
    Paired least writer (read >>= fun other => pure (build other)) (build value) := by
  obtain ⟨bytes, hleast, hwrites, hreads⟩ := hpaired
  exact ⟨bytes, hleast, hwrites, fun hbound =>
    (hreads hbound).after (reads_pure _)⟩

theorem Paired.weaken {less : Nat} (hless : less ≤ least) :
    Paired less writer read value := by
  obtain ⟨bytes, hleast, hrest⟩ := hpaired
  exact ⟨bytes, hless.trans hleast, hrest⟩

theorem Paired.any : Paired 0 writer read value :=
  hpaired.weaken (Nat.zero_le least)

end

theorem paired_fixed [FixedWidth α] (value : α) :
    Paired (FixedWidth.width α) (store (encodeFixed value)) (readFixed α)
      value :=
  ⟨encodeFixed value, (encodeFixed_length value).ge, writes_store _,
    fun _ => reads_fixed value⟩

theorem paired_int8 (value : Int8) :
    Paired 1 (writeInt8 value) readInt8 value := paired_fixed value

theorem paired_int16 (value : Int16) :
    Paired 2 (writeInt16 value) readInt16 value := paired_fixed value

theorem paired_int32 (value : Int32) :
    Paired 4 (writeInt32 value) readInt32 value := paired_fixed value

theorem paired_int64 (value : Int64) :
    Paired 8 (writeInt64 value) readInt64 value := paired_fixed value

theorem paired_errorCode (code : ErrorCode) :
    Paired 2 (writeErrorCode code) readErrorCode code := paired_fixed code

theorem paired_bool (value : Bool) : Paired 1 (writeBool value) readBool value := by
  have hvalue : ((if value then 1 else 0 : Int8) != 0) = value := by
    cases value <;> decide
  have hpaired := (paired_int8 (if value then 1 else 0)).map fun other => other != 0
  rwa [hvalue] at hpaired

/-- A length within the bound, as the reader sees it. -/
theorem toInt_ofNat_of_le {count : Nat} (hcount : count ≤ maxArrayLen) :
    (Int32.ofNat count).toInt = count := by
  apply toInt_ofNat_of_lt
  unfold maxArrayLen maxMessageSize at hcount
  omega

theorem writes_arrayLen (count : Nat) : ∃ bytes : Bytes, bytes.length = 4 ∧
    Writes (writeArrayLen count) bytes ∧
      (count ≤ maxArrayLen → bytes = encodeFixed (Int32.ofNat count)) := by
  unfold writeArrayLen
  split
  · exact ⟨_, encodeFixed_length (0 : Int32), writes_store _, fun hcount => by omega⟩
  · exact ⟨_, encodeFixed_length (Int32.ofNat count), writes_store _, fun _ => rfl⟩

theorem paired_string (text : Bytes) :
    Paired 4 (writeString text) readString text := by
  obtain ⟨field, hfield, hwrites, hlen⟩ := writes_arrayLen text.length
  refine ⟨field ++ text, ?_, hwrites.bind (writes_store text), ?_⟩
  · rw [length_append]
    omega
  · intro hbound
    have hcount : text.length ≤ maxArrayLen := by
      rw [length_append] at hbound
      omega
    have hnat := toInt_ofNat_of_le hcount
    have hnonneg : ¬Int32.ofNat text.length < 0 := by
      rw [lt_iff_toInt_lt, hnat]
      simp
    rw [hlen hcount]
    apply (reads_fixed (Int32.ofNat text.length)).bind
    apply reads_failed.bind
    simp only [Bool.false_eq_true, ↓reduceIte, hnonneg, hnat]
    exact (reads_take text).after (reads_pure _)

theorem paired_bytes (data : Option Bytes) :
    Paired 4 (writeBytes data) readBytes data := by
  cases data with
  | none =>
    refine ⟨_, (encodeFixed_length (-1 : Int32)).ge, writes_store _, ?_⟩
    intro _
    apply (reads_fixed (-1 : Int32)).after
    apply reads_failed.after
    exact reads_pure none
  | some data =>
    obtain ⟨field, hfield, hwrites, hlen⟩ := writes_arrayLen data.length
    refine ⟨field ++ data, ?_, hwrites.bind (writes_store data), ?_⟩
    · rw [length_append]
      omega
    · intro hbound
      have hcount : data.length ≤ maxArrayLen := by
        rw [length_append] at hbound
        omega
      have hnat := toInt_ofNat_of_le hcount
      have hnonneg : ¬Int32.ofNat data.length < 0 := by
        rw [lt_iff_toInt_lt, hnat]
        simp
      have hminus : Int32.ofNat data.length ≠ -1 := by
        rw [ne_eq, ← toInt_inj]
        intro heq
        have : ((-1 : Int32)).toInt = -1 := by decide
        omega
      rw [hlen hcount]
      apply (reads_fixed (Int32.ofNat data.length)).bind
      apply reads_failed.bind
      simp only [Bool.false_eq_true, ↓reduceIte, hnonneg, hminus, hnat]
      exact reads_take data

variable {element : α → Writer} {values : List α}

/-- Elements one after the other, each of at least one byte. -/
theorem paired_forEach (helement : ∀ value, Paired least (element value) read value)
    (hleast : 0 < least) :
    Paired values.length (Program.forEach element values)
      (Program.replicate values.length read) values := by
  induction values with
  | nil => exact paired_pure []
  | cons value values ih =>
    apply Paired.weaken ((helement value).bind (ih.map (List.cons value)))
    rw [length_cons]
    omega

/-- A count is accepted if at least as many bytes follow. -/
theorem reads_count {next : Nat → PayloadRead β} {count : Nat} {body : Bytes}
    {result : β} (hcount : count ≤ maxArrayLen) (hbody : count ≤ body.length)
    (hnext : Reads (next count) body result) :
    Reads (readCount >>= next) (encodeFixed (Int32.ofNat count) ++ body)
      result := by
  intro reader rest hleft
  rw [append_assoc] at hleft
  obtain ⟨middle, hrun, hmiddle⟩ :=
    reads_fixed (Int32.ofNat count) reader _ hleft
  have hnat := toInt_ofNat_of_le hcount
  have hnonneg : ¬Int32.ofNat count < 0 := by
    rw [lt_iff_toInt_lt, hnat]
    simp
  have hremaining : ¬((middle.buf.data.length : Int) - middle.pos < count) := by
    have hlength : middle.buf.data.length - middle.pos =
        body.length + rest.length := by
      rw [← length_drop, hmiddle.rest_eq, length_append]
    have hinside := hmiddle.inside
    omega
  have hread : readCount reader = .returned (count, middle) := by
    unfold readCount readInt32
    rw [run_bind hrun, run_bind (show failed middle = .returned (false, middle) by
        simp only [failed, hmiddle.sound, Option.isSome_none])]
    simp only [Bool.false_eq_true, ↓reduceIte, hnonneg]
    rw [run_bind (show remaining middle =
      .returned ((middle.buf.data.length : Int) - middle.pos, middle) from rfl)]
    simp only [hnat, hremaining, ↓reduceIte, Int.toNat_natCast, run_pure]
  obtain ⟨after, hthen, hafter⟩ := hnext middle rest hmiddle
  exact ⟨after, by rw [run_bind hread, hthen], hafter⟩

theorem paired_array (helement : ∀ value, Paired least (element value) read value)
    (hleast : 0 < least) :
    Paired 4 (writeArray element values) (readArray read) values := by
  obtain ⟨field, hfield, hwrites, hlen⟩ := writes_arrayLen values.length
  obtain ⟨body, hbody, hthen, hreads⟩ :=
    @paired_forEach _ _ _ _ values helement hleast
  refine ⟨field ++ body, ?_, hwrites.bind hthen, ?_⟩
  · rw [length_append]
    omega
  · intro hbound
    rw [length_append] at hbound
    have hcount : values.length ≤ maxArrayLen := by omega
    rw [hlen hcount]
    apply reads_count hcount hbody
    apply reads_failed.bind
    exact hreads (by omega)

end

/-- A payload that serializes itself: its reader never panics and reads back
what its writer wrote. -/
class SelfDescribing (α : Type) where
  encodePayload : α → Writer
  decodePayload : PayloadRead α
  total : Program.Total decodePayload := by infer_instance
  paired : ∀ payload, Paired 0 (encodePayload payload) decodePayload payload

end Streambus.Protocol
