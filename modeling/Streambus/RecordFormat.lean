/-
The record format of stored messages.  Records are written in version 2
(timestamp, key, value, headers) or version 3 (version 2 and the producer's
identity), both behind a magic word; records of the two older layouts, which
have no magic word, are still read.  What is written is read back, up to the
offset, which the record does not carry.
-/
import Streambus.ByteOrder
import Streambus.OrderedMap

namespace Streambus

open List

/-- A message of the log.  The timestamp is in nanoseconds of the Unix epoch;
`none` is the zero time.  Header names are byte strings. -/
structure Message where
  offset : Int
  key : Bytes
  value : Bytes
  headers : OrderedMap Bytes Bytes
  timestamp : Option Int
  producerId : Int
  producerEpoch : Int
deriving DecidableEq

namespace Message

/-- The message with no field set. -/
def zero : Message := ⟨0, [], [], ∅, none, 0, 0⟩

/-- The nanoseconds of the zero time, the first of January of the year 1, in
64 bits. -/
def zeroTimeNano : Int := -6795364578871345152

def unixNano (timestamp : Option Int) : Int := timestamp.getD zeroTimeNano

end Message

def recordMagicV2 : Nat := 0xFFFFFFFF

def recordVersionV2 : UInt8 := 2

def recordVersionV3 : UInt8 := 3

def maxSaneKeyLen : Nat := 1048576

def maxRecordFieldLen : Nat := 1024 * 1024 * 10

/-- A length field.  Lengths above the bound are written as zero. -/
def putRecordLen (count : Nat) : Bytes :=
  beBytes 4 (if count ≤ maxRecordFieldLen then count else 0)

/-- A length-prefixed field. -/
def putField (bytes : Bytes) : Bytes := putRecordLen bytes.length ++ bytes

/-- Headers in name order, each a name field and a value field. -/
def putHeaders (entries : List (Bytes × Bytes)) : Bytes :=
  entries.flatMap fun entry => putField entry.1 ++ putField entry.2

def writeRecordBody (message : Message) : Bytes :=
  putInt 8 (Message.unixNano message.timestamp) ++ (putField message.key ++
      (putField message.value ++ (putRecordLen message.headers.entries.length ++
          putHeaders message.headers.entries)))

def recordStart (version : UInt8) : Bytes := beBytes 4 recordMagicV2 ++ [version]

def serializeMessageV2 (message : Message) : Bytes :=
  recordStart recordVersionV2 ++ writeRecordBody message

def serializeMessageV3 (message : Message) : Bytes :=
  recordStart recordVersionV3 ++ (writeRecordBody message ++
    (putInt 8 message.producerId ++ putInt 2 message.producerEpoch))

/-- The configured write format; an unset one means version 3. -/
inductive MessageFormatVersion where
  | unset
  | v2
  | v3
deriving Repr, DecidableEq

def serializeMessage (version : MessageFormatVersion) (message : Message) :
    Bytes :=
  match version with
  | .v2 => serializeMessageV2 message
  | .unset => serializeMessageV3 message
  | .v3 => serializeMessageV3 message

variable (data : Bytes)

/-- Read a length-prefixed field: the field, or `none` if it is cut off, and
the bytes after the last part that was read. -/
def readLengthPrefixed : Option Bytes × Bytes :=
  if data.length < 4 then (none, data)
  else
    let length := beNat (data.take 4)
    let rest := data.drop 4
    if rest.length < length then (none, rest)
    else (some (rest.take length), rest.drop length)

/-- Read headers until the count is reached or one is cut off. -/
def parseHeaders : Nat → Bytes → OrderedMap Bytes Bytes →
    OrderedMap Bytes Bytes × Bytes
  | 0, data, headers => (headers, data)
  | count + 1, data, headers =>
    match readLengthPrefixed data with
    | (none, rest) => (headers, rest)
    | (some name, rest) =>
      match readLengthPrefixed rest with
      | (none, rest) => (headers, rest)
      | (some value, rest) =>
        parseHeaders count rest (headers.insert name value)

/-- Parse a record body; a record that is cut off gives what parsed before the
cut.  A header count that the remaining bytes cannot hold is ignored. -/
def parseRecordBody : Message × Bytes :=
  if data.length < 8 then (Message.zero, data)
  else
    let timed := { Message.zero with timestamp := some (getInt (data.take 8)) }
    match readLengthPrefixed (data.drop 8) with
    | (none, rest) => (timed, rest)
    | (some key, rest) =>
      match readLengthPrefixed rest with
      | (none, rest) => ({ timed with key := key }, rest)
      | (some value, rest) =>
        let message := { timed with key := key, value := value }
        if rest.length < 4 then (message, rest)
        else
          let count := beNat (rest.take 4)
          let rest := rest.drop 4
          if rest.length % 2 ^ 32 / 8 < count then (message, rest)
          else
            let (headers, rest) := parseHeaders count rest ∅
            ({ message with headers := headers }, rest)

def deserializeMessageV2 : Message :=
  (parseRecordBody (data.drop 5)).1

def deserializeMessageV3 : Message :=
  let (message, rest) := parseRecordBody (data.drop 5)
  if rest.length < 8 then message
  else
    let message := { message with producerId := getInt (rest.take 8) }
    let rest := rest.drop 8
    if rest.length < 2 then message
    else { message with producerEpoch := getInt (rest.take 2) }

/-- The version byte after the magic word, or zero. -/
def newFormatVersion : UInt8 :=
  if 5 ≤ data.length ∧ beNat (data.take 4) = recordMagicV2 then
    data.getD 4 0
  else 0

/-- One field of the older layouts; `none` is a slice out of bounds. -/
def legacyField : Option (Bytes × Bytes) :=
  match readLengthPrefixed data with
  | (none, _) => none
  | (some field, rest) => some (field, rest)

/-- Read any of the four layouts.  The older two are told apart by whether the
first word could be a key length; a record of theirs that is cut off faults,
which is `none`. -/
def deserializeMessage : Option Message :=
  if newFormatVersion data = recordVersionV3 then
    some (deserializeMessageV3 data)
  else if newFormatVersion data = recordVersionV2 then
    some (deserializeMessageV2 data)
  else
    let timed : Bool := 8 ≤ data.length ∧
      (maxSaneKeyLen < beNat (data.take 4) ∨ data.length < 8 + 4)
    let timestamp := if timed then some (getInt (data.take 8)) else none
    let fields := if timed then data.drop 8 else data
    match legacyField fields with
    | none => none
    | some (key, rest) =>
      match legacyField rest with
      | none => none
      | some (value, _) =>
        some { Message.zero with
          key := key, value := value, timestamp := timestamp }

/-- A message whose fields fit the record format. -/
@[mk_iff] structure Message.Fits (message : Message) : Prop where
  key_le : message.key.length ≤ maxRecordFieldLen
  value_le : message.value.length ≤ maxRecordFieldLen
  count_le : message.headers.entries.length ≤ maxRecordFieldLen
  headers_le : ∀ entry ∈ message.headers.entries,
    entry.1.length ≤ maxRecordFieldLen ∧ entry.2.length ≤ maxRecordFieldLen
  timestamp_fits : message.timestamp.any
    (fun nanos => -2 ^ 63 ≤ nanos ∧ nanos < 2 ^ 63) = true
  producerId_bounds : -2 ^ 63 ≤ message.producerId ∧ message.producerId < 2 ^ 63
  producerEpoch_bounds :
    -2 ^ 15 ≤ message.producerEpoch ∧ message.producerEpoch < 2 ^ 15

/-- A message whose fields fit the record format, and whose record fits a
write-ahead log entry with its header. -/
structure Message.Storable (message : Message) : Prop extends message.Fits where
  short : 16 + (serializeMessageV3 message).length < 2 ^ 32

instance decidableMessageFits (message : Message) : Decidable message.Fits :=
  decidable_of_iff' _ message.fits_iff

instance (message : Message) : Decidable message.Storable :=
  decidable_of_iff (message.Fits ∧ 16 + (serializeMessageV3 message).length < 2 ^ 32)
    ⟨fun h => ⟨h.1, h.2⟩, fun h => ⟨h.toFits, h.short⟩⟩

/-- The count of the headers passes the check of a reader that finds so many
bytes behind them.  The reader takes the rest of the record in 32 bits. -/
def Message.CountFits (message : Message) (behind : Nat) : Prop :=
  message.headers.entries.length ≤
    ((putHeaders message.headers.entries).length + behind) % 2 ^ 32 / 8

variable {message : Message}

theorem Message.Fits.timestamp_eq (hfits : message.Fits) :
    ∃ nanos, message.timestamp = some nanos ∧ -2 ^ 63 ≤ nanos ∧ nanos < 2 ^ 63 := by
  have hfits := hfits.timestamp_fits
  rw [Option.any_eq_true] at hfits
  obtain ⟨nanos, hnanos, hbounds⟩ := hfits
  exact ⟨nanos, hnanos, by simpa using hbounds⟩

theorem readLengthPrefixed_putField {bytes : Bytes}
    (hle : bytes.length ≤ maxRecordFieldLen) (rest : Bytes) :
    readLengthPrefixed (putField bytes ++ rest) = (some bytes, rest) := by
  have hlength : beNat ((putField bytes ++ rest).take 4) = bytes.length := by
    have htake : (putField bytes ++ rest).take 4 = putRecordLen bytes.length := by
      simp [putField, putRecordLen]
    rw [htake, putRecordLen, if_pos hle, beNat_beBytes]
    norm_num [maxRecordFieldLen] at hle ⊢
    omega
  have hdrop : (putField bytes ++ rest).drop 4 = bytes ++ rest := by
    simp [putField, putRecordLen]
  simp only [readLengthPrefixed, hlength, hdrop]
  simp [putField, putRecordLen]

theorem putField_length (bytes : Bytes) :
    (putField bytes).length = 4 + bytes.length := by
  simp [putField, putRecordLen]

theorem le_putHeaders_length (entries : List (Bytes × Bytes)) :
    8 * entries.length ≤ (putHeaders entries).length := by
  induction entries with
  | nil => simp [putHeaders]
  | cons entry rest ih =>
    simp only [putHeaders, flatMap_cons, length_append,
      putField_length, length_cons] at ih ⊢
    omega

theorem parseHeaders_putHeaders {entries : List (Bytes × Bytes)}
    (hle : ∀ entry ∈ entries, entry.1.length ≤ maxRecordFieldLen ∧
      entry.2.length ≤ maxRecordFieldLen) (rest : Bytes)
    (headers : OrderedMap Bytes Bytes) :
    parseHeaders entries.length (putHeaders entries ++ rest) headers =
      (entries.foldl (fun headers entry => headers.insert entry.1 entry.2)
        headers, rest) := by
  induction entries generalizing headers with
  | nil => rfl
  | cons entry tail ih =>
    have hentry := hle entry mem_cons_self
    simp only [putHeaders, flatMap_cons, append_assoc, length_cons,
      parseHeaders, foldl_cons, readLengthPrefixed_putField hentry.1,
      readLengthPrefixed_putField hentry.2]
    exact ih (fun other hother => hle other (mem_cons_of_mem entry hother)) _

theorem foldl_insert_empty (headers : OrderedMap Bytes Bytes) : headers.entries.foldl
      (fun headers entry => headers.insert entry.1 entry.2) ∅ = headers :=
  OrderedMap.empty_merge headers

/-- A written body is parsed back, whatever follows it; a count that does not
pass loses the headers. -/
theorem parseRecordBody_write (hfits : message.Fits) (rest : Bytes)
    [Decidable (message.CountFits rest.length)] :
    parseRecordBody (writeRecordBody message ++ rest) =
      if message.CountFits rest.length then
        ({ message with offset := 0, producerId := 0, producerEpoch := 0 }, rest)
      else
        ({ message with
            offset := 0, producerId := 0, producerEpoch := 0, headers := ∅ },
          putHeaders message.headers.entries ++ rest) := by
  obtain ⟨nanos, htimestamp, hlow, hhigh⟩ := hfits.timestamp_eq
  have hcount : beNat (putRecordLen message.headers.entries.length) =
      message.headers.entries.length := by
    have hle := hfits.count_le
    rw [putRecordLen, if_pos hle, beNat_beBytes]
    norm_num [maxRecordFieldLen] at hle ⊢
    omega
  let tail := putRecordLen message.headers.entries.length ++
    (putHeaders message.headers.entries ++ rest)
  let fields := putField message.key ++ (putField message.value ++ tail)
  have hbody : writeRecordBody message ++ rest = putInt 8 nanos ++ fields := by
    simp [writeRecordBody, htimestamp, Message.unixNano, fields, tail]
  have htime : getInt ((putInt 8 nanos ++ fields).take 8) = nanos := by
    rw [take_left' (by simp), getInt_putInt_eight hlow hhigh]
  have hcountTake : tail.take 4 = putRecordLen message.headers.entries.length := by
    simp [tail, putRecordLen]
  have hcountDrop : tail.drop 4 = putHeaders message.headers.entries ++ rest := by
    simp [tail, putRecordLen]
  have htail : ¬ tail.length < 4 := by
    simp [tail, putRecordLen]
  rw [hbody]
  simp only [parseRecordBody, htime, drop_left' (putInt_length 8 nanos),
    fields, readLengthPrefixed_putField hfits.key_le,
    readLengthPrefixed_putField hfits.value_le, hcountTake, hcountDrop,
    hcount, if_neg htail, parseHeaders_putHeaders hfits.headers_le,
    foldl_insert_empty, length_append]
  by_cases hpasses : message.CountFits rest.length
  · rw [if_neg (Nat.not_lt.mpr hpasses), if_pos hpasses]
    simp [Message.zero, htimestamp]
  · rw [if_pos (Nat.lt_of_not_le hpasses), if_neg hpasses]
    simp [Message.zero, htimestamp]

/-- A record of less than `2 ^ 32` bytes has a count that passes. -/
theorem Message.Storable.countFits (hstorable : message.Storable) {behind : Nat}
    (hbehind : behind ≤ 10) :
    message.CountFits behind := by
  have hshort := hstorable.short
  have hheaders := le_putHeaders_length message.headers.entries
  simp only [serializeMessageV3, writeRecordBody, recordStart,
    length_append, putInt_length, putField_length] at hshort
  rw [Message.CountFits]
  omega

/-- The version of a written record is found again. -/
theorem newFormatVersion_recordStart (version : UInt8) (rest : Bytes) :
    newFormatVersion (recordStart version ++ rest) = version := by
  have hmagic : beNat ((recordStart version ++ rest).take 4) = recordMagicV2 := by
    have htake : (recordStart version ++ rest).take 4 = beBytes 4 recordMagicV2 := by
      simp [recordStart]
    rfl
  rw [newFormatVersion, if_pos ⟨by simp [recordStart]; omega, hmagic⟩]
  simp [recordStart, beBytes]

theorem drop_recordStart (version : UInt8) (rest : Bytes) :
    (recordStart version ++ rest).drop 5 = rest :=
  drop_left' (by simp [recordStart])

/-- A version 2 record is read back without the producer's identity. -/
theorem deserializeMessage_serializeMessageV2 (hfits : message.Fits)
    (hcount : message.CountFits 0) :
    deserializeMessage (serializeMessageV2 message) =
      some { message with offset := 0, producerId := 0, producerEpoch := 0 } := by
  classical
  have hbody := parseRecordBody_write hfits []
  rw [append_nil, length_nil, if_pos hcount] at hbody
  rw [deserializeMessage, serializeMessageV2, newFormatVersion_recordStart,
    if_neg (by decide), if_pos rfl, deserializeMessageV2, drop_recordStart, hbody]

theorem deserializeMessage_serializeMessageV3 (hfits : message.Fits)
    (hcount : message.CountFits 10) :
    deserializeMessage (serializeMessageV3 message) =
      some { message with offset := 0 } := by
  classical
  obtain ⟨hidLow, hidHigh⟩ := hfits.producerId_bounds
  obtain ⟨hepochLow, hepochHigh⟩ := hfits.producerEpoch_bounds
  have hepoch : getInt (putInt 2 message.producerEpoch) = message.producerEpoch := by
    rw [getInt_putInt_bmod]
    apply Int.bmod_eq_of_le
    · norm_num at hepochLow ⊢; omega
    · norm_num at hepochHigh ⊢; omega
  have hbody := parseRecordBody_write hfits
    (putInt 8 message.producerId ++ putInt 2 message.producerEpoch)
  rw [if_pos (by simpa using hcount)] at hbody
  rw [deserializeMessage, serializeMessageV3, newFormatVersion_recordStart,
    deserializeMessageV3, drop_recordStart, hbody]
  have htake : (putInt 2 message.producerEpoch).take 2 =
      putInt 2 message.producerEpoch := take_of_length_le (by simp)
  simp [getInt_putInt_eight hidLow hidHigh, htake, hepoch]

/-- Writing and reading back loses nothing but the offset, provided a producer
identity is only written in a format that has room for it. -/
theorem deserializeMessage_serializeMessage {version : MessageFormatVersion}
    (hstorable : message.Storable)
    (hidentity : version = .v2 → message.producerId = 0 ∧ message.producerEpoch = 0) :
    deserializeMessage (serializeMessage version message) =
      some { message with offset := 0 } := by
  cases version with
  | v2 =>
    obtain ⟨hid, hepoch⟩ := hidentity rfl
    rw [serializeMessage, deserializeMessage_serializeMessageV2
      hstorable.toFits (hstorable.countFits (by decide))]
    simp [hid, hepoch]
  | unset | v3 =>
    exact deserializeMessage_serializeMessageV3 hstorable.toFits
      (hstorable.countFits le_rfl)

theorem serializeMessage_length_le (version : MessageFormatVersion)
    (message : Message) :
    (serializeMessage version message).length ≤
      (serializeMessageV3 message).length := by
  cases version with
  | v2 =>
    simp only [serializeMessage, serializeMessageV2, serializeMessageV3,
      length_append, recordStart, length_singleton]
    omega
  | unset | v3 => exact le_refl _

end Streambus
