/-
The four record layouts.  Records of the two layouts with a magic word are read
back as they were written, whatever the order in which their headers come, as
long as the reader accepts the count of the headers; records of the two older
layouts are read back unless they are too short to be told apart.
-/
import Streambus.Compaction

namespace Streambus

open List

/-- Header names as they are written.  The order in which a Go map gives them
is the input. -/
def sortedHeaderNames (names : List Bytes) : List Bytes :=
  names.insertionSort (· ≤ ·)

/-- The bytes of a record, its header names coming in some order. -/
def recordBytes (version : UInt8) (order : List Bytes) (message : Message) :
    Bytes :=
  let names := sortedHeaderNames order
  recordStart version ++ (putInt 8 (Message.unixNano message.timestamp) ++
      (putField message.key ++ (putField message.value ++
        (putRecordLen names.length ++ putHeaders (names.map fun name =>
          (name, (message.headers.find? name).getD []))))) ++
      if version = recordVersionV3 then
        putInt 8 message.producerId ++ putInt 2 message.producerEpoch
      else [])

variable {order : List Bytes}

theorem sortedHeaderNames_eq {headers : OrderedMap Bytes Bytes}
    (horder : order.Perm headers.keys) :
    sortedHeaderNames order = headers.keys := by
  have hperm := (perm_insertionSort (· ≤ ·) order).trans horder
  refine hperm.eq_of_pairwise (fun _ _ _ _ hle hge => le_antisymm hle hge)
    (pairwise_insertionSort (· ≤ ·) order) ?_
  exact headers.keys_pairwise.imp le_of_lt

theorem map_find?_keys (headers : OrderedMap Bytes Bytes) :
    (headers.keys.map fun name => (name, (headers.find? name).getD [])) =
      headers.entries := by
  rw [OrderedMap.keys, map_map]
  refine (map_congr_left fun entry hentry => ?_).trans (map_id _)
  have hfind := (headers.mem_entries_iff entry.1 entry.2).mp hentry
  simp [hfind]

variable {message : Message} {count size : Nat} {data : Bytes}

/-- The bytes depend on the fields only, not on the order of the headers. -/
theorem recordBytes_eq (horder : order.Perm message.headers.keys) :
    recordBytes recordVersionV3 order message = serializeMessageV3 message ∧
      recordBytes recordVersionV2 order message = serializeMessageV2 message := by
  have hlength : message.headers.keys.length = message.headers.entries.length :=
    length_map _
  unfold recordBytes
  simp only [sortedHeaderNames_eq horder, map_find?_keys, hlength]
  constructor
  · rfl
  · simp [recordVersionV2, recordVersionV3, serializeMessageV2, writeRecordBody]

/-- A record that is cut off behind its version is read without a fault. -/
theorem deserializeMessage_take_isSome {version : UInt8}
    (hversion : version = recordVersionV2 ∨ version = recordVersionV3)
    (rest : Bytes) (hcount : 5 ≤ count) :
    (deserializeMessage ((recordStart version ++ rest).take count)).isSome := by
  have hstart : (recordStart version).length = 5 := by simp [recordStart]
  rw [take_append, take_of_length_le (hstart.trans_le hcount),
    deserializeMessage, newFormatVersion_recordStart]
  rcases hversion with rfl | rfl
  · rw [if_neg (by decide), if_pos rfl]
    rfl
  · rw [if_pos rfl]
    rfl

/-- A count that does not pass loses the headers. -/
theorem headers_of_not_countFits (hfits : message.Fits) (rest : Bytes)
    (hcount : ¬ message.CountFits rest.length) :
    (parseRecordBody (writeRecordBody message ++ rest)).1.headers ≠
      message.headers := by
  classical
  rw [parseRecordBody_write hfits, if_neg hcount]
  intro hempty
  refine hcount ?_
  rw [Message.CountFits, ← hempty]
  exact Nat.zero_le _

theorem headers_deserializeMessageV3 (data : Bytes) :
    (deserializeMessageV3 data).headers =
      (parseRecordBody (data.drop 5)).1.headers := by
  unfold deserializeMessageV3
  dsimp only
  split_ifs <;> rfl

/-- A message whose header count is not accepted is not read back. -/
theorem deserializeMessage_ne_of_not_countFits (hfits : message.Fits)
    (hlost : ¬message.CountFits 10) :
    deserializeMessage (serializeMessageV3 message) ≠
      some { message with offset := 0 } := by
  intro hread
  rw [deserializeMessage, serializeMessageV3, newFormatVersion_recordStart,
    if_pos rfl, Option.some.injEq] at hread
  refine headers_of_not_countFits hfits
    (putInt 8 message.producerId ++ putInt 2 message.producerEpoch)
    (by simpa using hlost) ?_
  rw [← drop_recordStart recordVersionV3 (writeRecordBody message ++ _),
    ← headers_deserializeMessageV3, hread]

/-- A message is read back from its record exactly if the reader accepts the
count of its headers: the rest of the record, taken in 32 bits, has eight bytes
for each, which a record of less than `2 ^ 32` bytes has.  The bytes do not
depend on the order of the headers, and every cut behind the version is read
without a fault. -/
theorem roundTrips_iff_countFits (message : Message) (hfits : message.Fits) :
    (deserializeMessage (serializeMessageV3 message) =
        some { message with offset := 0 } ↔ message.CountFits 10) ∧
      (deserializeMessage (serializeMessageV2 message) =
        some { message with offset := 0, producerId := 0, producerEpoch := 0 } ↔
          message.CountFits 0) ∧
      (message.Storable → message.CountFits 10 ∧ message.CountFits 0) ∧
      (∀ order : List Bytes, order.Perm message.headers.keys →
        recordBytes recordVersionV3 order message = serializeMessageV3 message ∧
          recordBytes recordVersionV2 order message = serializeMessageV2 message) ∧
      ∀ count, 5 ≤ count →
        (deserializeMessage ((serializeMessageV3 message).take count)).isSome ∧
          (deserializeMessage ((serializeMessageV2 message).take count)).isSome := by
  refine ⟨⟨fun hread => ?_, deserializeMessage_serializeMessageV3 hfits⟩,
    ⟨fun hread => ?_, deserializeMessage_serializeMessageV2 hfits⟩,
    fun hstorable => ⟨hstorable.countFits le_rfl,
      hstorable.countFits (Nat.zero_le _)⟩, fun order => recordBytes_eq, fun count hcount =>
      ⟨deserializeMessage_take_isSome (Or.inr rfl) _ hcount,
        deserializeMessage_take_isSome (Or.inl rfl) _ hcount⟩⟩
  · by_contra hlost
    exact deserializeMessage_ne_of_not_countFits hfits hlost hread
  · by_contra hlost
    rw [deserializeMessage, serializeMessageV2, newFormatVersion_recordStart,
      if_neg (by decide), if_pos rfl, Option.some.injEq] at hread
    refine headers_of_not_countFits hfits [] hlost ?_
    rw [append_nil, ← drop_recordStart recordVersionV2 (writeRecordBody message),
      ← deserializeMessageV2, hread]

/-- A message with one header. -/
def tagged : Message := ⟨0, [1], [2], .ofEntries [([7], [8])], some 5, 9, 1⟩

theorem fits_tagged : tagged.Fits := by decide +kernel

theorem roundTrips_tagged :
    deserializeMessage (serializeMessageV3 tagged) = some tagged :=
  (roundTrips_iff_countFits tagged fits_tagged).1.mpr
    (by rw [Message.CountFits]; decide +kernel)

/-- Headers that are of one size together with their names. -/
def evenHeaders (count size : Nat) : List (Bytes × Bytes) :=
  (List.range count).map fun index =>
    (List.replicate index 0, List.replicate (size - index) 0)

theorem replicate_lt_replicate {first second : Nat} (hlt : first < second) :
    List.replicate first (0 : UInt8) < List.replicate second 0 := by
  induction first generalizing second with
  | zero =>
    cases second with
    | zero => exact absurd hlt (lt_irrefl 0)
    | succ second => exact nil_lt_cons _ _
  | succ first ih =>
    cases second with
    | zero => exact absurd hlt (Nat.not_lt_zero _)
    | succ second =>
      exact cons_lt_cons_iff.mpr (Or.inr ⟨rfl, ih (Nat.lt_of_succ_lt_succ hlt)⟩)

theorem increasing_evenHeaders (count size : Nat) :
    Increasing (evenHeaders count size) :=
  pairwise_map.mpr (pairwise_lt_range.imp fun hlt => replicate_lt_replicate hlt)

theorem putHeaders_evenHeaders_length (hcount : count ≤ size) :
    (putHeaders (evenHeaders count size)).length = count * (8 + size) := by
  have hsame : ∀ length ∈ (evenHeaders count size).map fun entry =>
      (putField entry.1 ++ putField entry.2).length, length = 8 + size := by
    intro length hlength
    simp only [evenHeaders, map_map, mem_map, mem_range] at hlength
    obtain ⟨index, hindex, rfl⟩ := hlength
    simp only [Function.comp, length_append, putField_length, length_replicate]
    omega
  rw [putHeaders, length_flatMap, eq_replicate_of_mem hsame, sum_replicate,
    length_map, evenHeaders, length_map, length_range, smul_eq_mul]

/-- A message with such headers. -/
def evenMessage (count size : Nat) : Message :=
  { tagged with
    headers := ⟨evenHeaders count size, increasing_evenHeaders count size⟩ }

theorem evenMessage_headers_length (count size : Nat) :
    (evenMessage count size).headers.entries.length = count := by
  show (evenHeaders count size).length = count
  rw [evenHeaders, length_map, length_range]

theorem fits_evenMessage (hcount : count ≤ size)
    (hsize : size ≤ maxRecordFieldLen) : (evenMessage count size).Fits where
  key_le := fits_tagged.key_le
  value_le := fits_tagged.value_le
  count_le := by
    rw [evenMessage_headers_length]
    exact hcount.trans hsize
  headers_le entry hentry := by
    obtain ⟨index, hindex, rfl⟩ := mem_map.mp hentry
    have hlt := mem_range.mp hindex
    rw [length_replicate, length_replicate]
    omega
  timestamp_fits := fits_tagged.timestamp_fits
  producerId_bounds := fits_tagged.producerId_bounds
  producerEpoch_bounds := fits_tagged.producerEpoch_bounds

theorem not_countFits_evenMessage (hcount : count ≤ size)
    (hlarge : (count * (8 + size) + 10) % 2 ^ 32 / 8 < count) :
    ¬(evenMessage count size).CountFits 10 := by
  have hlength : (putHeaders (evenMessage count size).headers.entries).length =
      count * (8 + size) := putHeaders_evenHeaders_length hcount
  rw [Message.CountFits, hlength, evenMessage_headers_length]
  exact Nat.not_le.mpr hlarge

/-- 512 headers of together `2 ^ 32` bytes: all fields fit, and the headers are
lost. -/
theorem not_roundTrips_heavy : (evenMessage 512 8388600).Fits ∧
    deserializeMessage (serializeMessageV3 (evenMessage 512 8388600)) ≠
      some { evenMessage 512 8388600 with offset := 0 } :=
  have hfits : (evenMessage 512 8388600).Fits :=
    fits_evenMessage (by decide) (by decide)
  ⟨hfits, deserializeMessage_ne_of_not_countFits hfits
    (not_countFits_evenMessage (by decide) (by decide))⟩

/-- A record of the oldest layout.  Lengths have four bytes. -/
def serializeMessageV0 (key value : Bytes) : Bytes :=
  beBytes 4 key.length ++ (key ++ (beBytes 4 value.length ++ value))

/-- A record of the layout with a timestamp. -/
def serializeMessageV1 (nanos : Int) (key value : Bytes) : Bytes :=
  putInt 8 nanos ++ serializeMessageV0 key value

/-- The first digits of a number are those of its quotient. -/
theorem take_beBytes (width more value : Nat) :
    (beBytes (width + more) value).take width =
      beBytes width (value / 256 ^ more) := by
  induction width with
  | zero => rfl
  | succ width ih =>
    rw [Nat.succ_add, beBytes, take_succ_cons, ih, beBytes,
      Nat.div_div_eq_div_mul, ← pow_add, Nat.add_comm more]

/-- A field is read with the length that four bytes can hold. -/
theorem legacyField_beBytes (field rest : Bytes) :
    legacyField (beBytes 4 field.length ++ (field ++ rest)) =
      some ((field ++ rest).take (field.length % 2 ^ 32),
        (field ++ rest).drop (field.length % 2 ^ 32)) := by
  have hle : field.length % 2 ^ 32 ≤ (field ++ rest).length := by
    rw [length_append]
    exact (Nat.mod_le _ _).trans (Nat.le_add_right _ _)
  have hlength : beNat (beBytes 4 field.length) = field.length % 2 ^ 32 := by
    norm_num
  simp only [legacyField, readLengthPrefixed, length_append, beBytes_length,
    take_left' (beBytes_length 4 _), drop_left' (beBytes_length 4 _), hlength]
  rw [if_neg (by omega), if_neg (by rw [length_append] at hle; omega)]

/-- The fields of a record come back exactly if their lengths fit. -/
theorem legacyFields_iff (key value : Bytes) :
    (∃ rest, legacyField (serializeMessageV0 key value) = some (key, rest) ∧
      ∃ behind, legacyField rest = some (value, behind)) ↔
      key.length < 2 ^ 32 ∧ value.length < 2 ^ 32 := by
  have hshort : ∀ field behind : Bytes,
      (field ++ behind).take (field.length % 2 ^ 32) = field →
        field.length < 2 ^ 32 := by
    intro field behind htake
    have hlength := congrArg List.length htake
    rw [length_take] at hlength
    omega
  have hvalue := legacyField_beBytes value []
  rw [append_nil] at hvalue
  rw [serializeMessageV0, legacyField_beBytes]
  constructor
  · rintro ⟨rest, hkey, behind, hrest⟩
    obtain ⟨hfield, rfl⟩ := Prod.mk.inj (Option.some.inj hkey)
    have hlt := hshort _ _ hfield
    rw [Nat.mod_eq_of_lt hlt, drop_left, hvalue] at hrest
    refine ⟨hlt, hshort value [] ?_⟩
    rw [append_nil]
    exact (Prod.mk.inj (Option.some.inj hrest)).1
  · rintro ⟨hkey, hvalueLt⟩
    rw [Nat.mod_eq_of_lt hkey, take_left, drop_left]
    rw [Nat.mod_eq_of_lt hvalueLt, take_length] at hvalue
    exact ⟨_, rfl, _, hvalue⟩

/-- What becomes of the fields of a record without a magic word. -/
theorem deserializeMessage_legacy (hmagic : beNat (data.take 4) ≠ recordMagicV2)
    (timed : Bool)
    (htimed : timed = true ↔ 8 ≤ data.length ∧
      (maxSaneKeyLen < beNat (data.take 4) ∨ data.length < 12))
    (key value : Bytes) (timestamp : Option Int) :
    deserializeMessage data =
        some { Message.zero with
          key := key, value := value, timestamp := timestamp } ↔
      timestamp = (if timed then some (getInt (data.take 8)) else none) ∧
        ∃ rest, legacyField (if timed then data.drop 8 else data) = some (key, rest) ∧
          ∃ behind, legacyField rest = some (value, behind) := by
  have hversion : newFormatVersion data = 0 := if_neg fun h => hmagic h.2
  have hdecide : decide (8 ≤ data.length ∧
      (maxSaneKeyLen < beNat (data.take 4) ∨ data.length < 8 + 4)) = timed := by
    rw [Bool.eq_iff_iff, decide_eq_true_eq, htimed]
  rw [deserializeMessage, hversion, if_neg (by decide), if_neg (by decide)]
  simp only [hdecide]
  cases legacyField (if timed = true then data.drop 8 else data) with
  | none => simp
  | some first =>
    obtain ⟨foundKey, rest⟩ := first
    cases hsecond : legacyField rest with
    | none => simp [hsecond]
    | some second =>
      grind

theorem timestamp_parseRecordBody (body : Bytes) :
    (parseRecordBody body).1.timestamp =
      if body.length < 8 then none else some (getInt (body.take 8)) := by
  unfold parseRecordBody
  split_ifs with hshort
  · rfl
  · dsimp only
    cases readLengthPrefixed (body.drop 8) with
    | mk key rest =>
      cases key with
      | none => rfl
      | some key =>
        dsimp only
        cases readLengthPrefixed rest with
        | mk value rest =>
          cases value with
          | none => rfl
          | some value =>
            dsimp only
            split_ifs <;> rfl

theorem timestamp_deserializeMessageV3 (data : Bytes) :
    (deserializeMessageV3 data).timestamp =
      (parseRecordBody (data.drop 5)).1.timestamp := by
  unfold deserializeMessageV3
  dsimp only
  split_ifs <;> rfl

/-- A field that is there has a length in front. -/
theorem four_le_of_legacyField {found : Bytes × Bytes}
    (hfound : legacyField data = some found) : 4 ≤ data.length := by
  by_contra hshort
  rw [legacyField, readLengthPrefixed, if_pos (Nat.lt_of_not_le hshort)]
    at hfound
  cases hfound

/-- The timestamp that compaction and retention see is the one that is read,
for every record that is read at all. -/
theorem extractTimestamp_of_deserializeMessage
    (hread : deserializeMessage data = some message) :
    extractTimestamp data = message.timestamp := by
  have hbody : (if data.length < 5 + 8 then none
      else some (getInt ((data.drop 5).take 8))) =
        (parseRecordBody (data.drop 5)).1.timestamp := by
    rw [timestamp_parseRecordBody, length_drop]
    split_ifs <;> first | rfl | omega
  rw [deserializeMessage] at hread
  rw [extractTimestamp]
  by_cases hthree : newFormatVersion data = recordVersionV3
  · rw [if_pos hthree] at hread
    rw [if_pos (Or.inr hthree), hbody, ← Option.some.inj hread,
      timestamp_deserializeMessageV3]
  · rw [if_neg hthree] at hread
    by_cases htwo : newFormatVersion data = recordVersionV2
    · rw [if_pos htwo] at hread
      rw [if_pos (Or.inl htwo), hbody, ← Option.some.inj hread, deserializeMessageV2]
    · rw [if_neg htwo] at hread
      rw [if_neg (by tauto)]
      dsimp only at hread
      -- A record taken for one with a timestamp has at least twelve bytes, since
      -- its key would be cut off otherwise.
      cases hkey : legacyField (if decide (8 ≤ data.length ∧
          (maxSaneKeyLen < beNat (data.take 4) ∨ data.length < 8 + 4)) = true
            then data.drop 8 else data) with
      | none => rw [hkey] at hread; cases hread
      | some first =>
        have hfour := four_le_of_legacyField hkey
        rw [hkey] at hread
        dsimp only at hread
        cases hvalue : legacyField first.2 with
        | none => rw [hvalue] at hread; cases hread
        | some second =>
          rw [hvalue] at hread
          cases hread
          simp only [decide_eq_true_eq] at hfour ⊢
          split_ifs at hfour ⊢ <;>
            first | rfl | (rw [length_drop] at hfour; omega) | omega

/-- Records of the layouts without a magic word are read back exactly if the
lengths of their fields fit, and without a timestamp only if the fields have
four bytes together: a shorter record is taken for one with a timestamp, and the
read faults.  Compaction and retention see the timestamp that is read. -/
theorem readsLegacy_iff (key value : Bytes) (nanos : Int) :
    (key.length ≤ maxSaneKeyLen → (deserializeMessage (serializeMessageV0 key value) =
          some { Message.zero with key := key, value := value } ↔
        4 ≤ key.length + value.length ∧ value.length < 2 ^ 32)) ∧
      (0 ≤ nanos → nanos < 2 ^ 63 → (maxSaneKeyLen : Int) < nanos / 2 ^ 32 →
        (deserializeMessage (serializeMessageV1 nanos key value) =
            some { Message.zero with
              key := key, value := value, timestamp := some nanos } ↔
          key.length < 2 ^ 32 ∧ value.length < 2 ^ 32)) ∧
      ∀ (data : Bytes) (message : Message), deserializeMessage data = some message →
          extractTimestamp data = message.timestamp := by
  refine ⟨fun hkey => ?_, fun hlow hhigh hhour => ?_,
    fun data message => extractTimestamp_of_deserializeMessage⟩
  · have hword : beNat ((serializeMessageV0 key value).take 4) = key.length := by
      rw [serializeMessageV0, take_left' (beBytes_length 4 _),
        beNat_beBytes, Nat.mod_eq_of_lt]
      exact lt_of_le_of_lt hkey (by decide)
    have hlength : (serializeMessageV0 key value).length =
        8 + (key.length + value.length) := by
      simp only [serializeMessageV0, length_append, beBytes_length]
      omega
    have hmagic : beNat ((serializeMessageV0 key value).take 4) ≠
        recordMagicV2 := by
      rw [hword]
      exact ne_of_lt (lt_of_le_of_lt hkey (by decide))
    have hrecord := fun timed htimed =>
      deserializeMessage_legacy hmagic timed htimed key value none
    by_cases hfour : 4 ≤ key.length + value.length
    · refine (hrecord false ?_).trans ?_
      · simp only [Bool.false_eq_true, false_iff]
        omega
      · simp only [Bool.false_eq_true, if_false, true_and, legacyFields_iff]
        have hkeyLt : key.length < 2 ^ 32 := lt_of_le_of_lt hkey (by decide)
        exact ⟨fun h => ⟨hfour, h.2⟩, fun h => ⟨hkeyLt, h.2⟩⟩
    · refine (hrecord true ?_).trans ?_
      · simp only [true_iff]
        omega
      · simp [hfour]
  · have hword : beNat ((serializeMessageV1 nanos key value).take 4) =
        (nanos / 2 ^ 32).toNat := by
      rw [serializeMessageV1, take_append_of_le_length (by simp), putInt,
        take_beBytes 4 4, beNat_beBytes]
      norm_num at hhigh ⊢
      omega
    have hlength : 8 + 8 ≤ (serializeMessageV1 nanos key value).length := by
      simp only [serializeMessageV1, serializeMessageV0, length_append,
        beBytes_length, putInt_length]
      omega
    have hmagic : beNat ((serializeMessageV1 nanos key value).take 4) ≠
        recordMagicV2 := by
      rw [hword, recordMagicV2]
      norm_num at hhigh ⊢
      omega
    refine (deserializeMessage_legacy hmagic true ?_ key value _).trans ?_
    · rw [hword]
      norm_num at hhour ⊢
      omega
    · have hbound : -2 ^ 63 ≤ nanos := le_trans (by norm_num) hlow
      have hnanos : getInt ((serializeMessageV1 nanos key value).take 8) =
          nanos := by
        rw [serializeMessageV1, take_left' (putInt_length 8 nanos),
          getInt_putInt_eight hbound hhigh]
      rw [hnanos, if_pos rfl, if_pos rfl, serializeMessageV1,
        drop_left' (putInt_length 8 nanos), legacyFields_iff]
      exact ⟨fun h => h.2, fun h => ⟨rfl, h⟩⟩

theorem readsLegacy_pair : deserializeMessage (serializeMessageV0 [1, 2] [3, 4]) =
        some { Message.zero with key := [1, 2], value := [3, 4] } ∧
      deserializeMessage (serializeMessageV1 (2 ^ 60) [] []) =
        some { Message.zero with
          key := [], value := [], timestamp := some (2 ^ 60) } ∧
      extractTimestamp (serializeMessageV0 [1, 2] [3, 4]) = none := by
  have hread : deserializeMessage (serializeMessageV0 [1, 2] [3, 4]) =
      some { Message.zero with key := [1, 2], value := [3, 4] } :=
    ((readsLegacy_iff [1, 2] [3, 4] 0).1 (by decide)).mpr (by decide)
  exact ⟨hread, ((readsLegacy_iff [] [] (2 ^ 60)).2.1 (by decide) (by decide)
      (by decide)).mpr (by decide),
    (readsLegacy_iff [] [] 0).2.2 _ _ hread⟩

/-- A record of eight bytes, an empty key and an empty value, cannot be read. -/
theorem not_readsLegacy_empty : deserializeMessage (serializeMessageV0 [] []) =
    none := by
  decide +kernel

end Streambus
