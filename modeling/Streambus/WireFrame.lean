/-
Frames of the wire protocol: a length, the header and payload, and a checksum
of these.  A frame is built in a buffer of a size computed beforehand, and is
taken from a stream only if it is complete, not too large, and its checksum is
right.  A payload is decoded from the frame into which it was written.
-/
import Streambus.PayloadWire

namespace Streambus.Protocol

open List Nat Program

inductive CodecError where
  | eof
  | unexpectedEof
  | messageTooLarge (size : Nat)
  | messageTooShort
  | checksumMismatch
  | payloadOutOfRange (size : Nat)
  | unknownRequestType (code : UInt8)
  | malformedRequest (code : UInt8) (error : WireError)
  | malformedResponse (code : UInt8) (error : WireError)
deriving DecidableEq

/-- A size that fits the wire. -/
def checkedPayloadSize (size : Nat) : Except CodecError Nat :=
  if maxMessageSize < size then .error (.payloadOutOfRange size) else .ok size

/-- The size of a self-describing payload; one out of range counts as zero. -/
def measurePayload (payload : Writer) : Outcome Nat := do
  let (_, sizer) ← payload ⟨none, 0⟩
  return if maxMessageSize < sizer.position then 0 else sizer.position

/-- A writer that cannot fail. -/
def succeed (writer : Writer) : Program Buffer (Except CodecError Unit) :=
  writer >>= fun _ => pure (.ok ())

/-- Append the checksum of everything after the length field. -/
def sealFrame (crc : Bytes → UInt32) : Writer := fun buffer =>
  let data := buffer.storage.getD []
  if 4 ≤ buffer.position ∧ buffer.position ≤ data.length then
    store (encodeFixed (crc ((data.take buffer.position).drop 4))) buffer
  else .panicked

def fillFrame (crc : Bytes → UInt32) (totalSize : Nat) (header : Writer)
    (payload : Program Buffer (Except CodecError Unit)) :
    Program Buffer (Except CodecError Unit) := do
  store (encodeFixed (UInt32.ofNat (totalSize - 4)))
  header
  match ← payload with
  | .error error => return .error error
  | .ok () => do
      sealFrame crc
      return .ok ()

/-- Build a frame in a buffer of the given size. -/
def encodeFrame (crc : Bytes → UInt32) (totalSize : Nat) (header : Writer)
    (payload : Program Buffer (Except CodecError Unit)) :
    Outcome (Except CodecError Bytes) := do
  if maxMessageSize < totalSize then
    return .error (.messageTooLarge totalSize)
  else
    let (result, buffer) ← fillFrame crc totalSize header payload
      ⟨some (List.replicate totalSize 0), 0⟩
    return result.map fun _ =>
      (buffer.storage.getD []).take buffer.position

/-- Read so many bytes of a stream, or fail at its end. -/
def readFull (count : Nat) (stream : Bytes) : Except CodecError (Bytes × Bytes) :=
  if count ≤ stream.length then .ok (stream.take count, stream.drop count)
  else if stream = [] then .error .eof
  else .error .unexpectedEof

/-- Take a frame from a stream, without its length field, and check it. -/
def readFrame (crc : Bytes → UInt32) (stream : Bytes) :
    Except CodecError (Bytes × Bytes) :=
  match readFull 4 stream with
  | .error error => .error error
  | .ok (lengthBuf, stream) =>
    let length := beNat lengthBuf
    if maxMessageSize < length then .error (.messageTooLarge length)
    else
      match readFull length stream with
      | .error error => .error error
      | .ok (buf, stream) =>
        if length < 4 then .error .messageTooShort
        else if decodeFixed UInt32 (buf.drop (length - 4)) ≠
            crc (buf.take (length - 4)) then .error .checksumMismatch
        else .ok (buf, stream)

/-- The frame of a header and payload. -/
def frame (crc : Bytes → UInt32) (body : Bytes) : Bytes :=
  encodeFixed (UInt32.ofNat (body.length + 4)) ++ body ++ encodeFixed (crc body)

variable (crc : Bytes → UInt32) {body : Bytes} {payload header : Writer}
  {bytes front back : Bytes} {count : Nat}

@[simp] theorem frame_length (body : Bytes) :
    (frame crc body).length = 4 + body.length + 4 := by
  simp only [frame, length_append, encodeFixed_length]
  rfl

theorem checkedPayloadSize_eq_ok {size other : Nat} :
    checkedPayloadSize size = .ok other ↔ size ≤ maxMessageSize ∧ size = other := by
  unfold checkedPayloadSize
  split
  next hrange => exact ⟨fun hok => (nomatch hok), fun hok => by omega⟩
  next hrange =>
    rw [Except.ok.injEq]
    exact ⟨fun hok => ⟨not_lt.mp hrange, hok⟩, fun hok => hok.2⟩

/-- Length, header and payload are written one after the other, and then the
frame is sealed. -/
theorem fillFrame_eq (totalSize : Nat) (header payload : Writer) :
    fillFrame crc totalSize header (succeed payload) =
      (store (encodeFixed (UInt32.ofNat (totalSize - 4))) >>= fun _ =>
        header >>= fun _ => payload) >>= fun _ =>
          sealFrame crc >>= fun _ => pure (.ok ()) := by
  simp only [fillFrame, succeed, bind_assoc, pure_bind]

/-- Sealing puts the checksum of the body behind it. -/
theorem sealFrame_run {length gap : Bytes} (hlength : length.length = 4)
    (hgap : gap.length = 4) :
    sealFrame crc ⟨some (length ++ body ++ gap), 4 + body.length⟩ =
      .returned ((), ⟨some (length ++ body ++ encodeFixed (crc body)),
        4 + body.length + 4⟩) := by
  have hposition : (length ++ body).length = 4 + body.length := by
    rw [length_append, hlength]
  have hinside : 4 ≤ 4 + body.length ∧
      4 + body.length ≤ (length ++ body ++ gap).length := by
    simp only [length_append]
    omega
  have hbody : ((length ++ body ++ gap).take (4 + body.length)).drop 4 =
      body := by
    rw [← hposition, take_left, ← hlength, drop_left]
  have hstore := fills_store (encodeFixed (crc body)) (length ++ body) gap []
    (by rw [hgap, encodeFixed_length]; rfl)
  simp only [append_nil, hposition, encodeFixed_length] at hstore
  simp only [sealFrame, Option.getD_some, hinside, and_self, ↓reduceIte, hbody]
  exact hstore

theorem fillFrame_of_fills (hfills : Fills (header >>= fun _ => payload) body)
    {gap : Bytes} (hgap : gap.length = 4 + body.length + 4) :
    fillFrame crc gap.length header (succeed payload) ⟨some gap, 0⟩ =
      .returned (.ok (), ⟨some (frame crc body), gap.length⟩) := by
  have hnumber : UInt32.ofNat (gap.length - 4) = UInt32.ofNat (body.length + 4) := by
    congr 1
    omega
  have hlength : (encodeFixed (UInt32.ofNat (body.length + 4))).length = 4 :=
    encodeFixed_length _
  have hfirst : (gap.take (4 + body.length)).length =
      (encodeFixed (UInt32.ofNat (body.length + 4)) ++ body).length := by
    rw [length_take, length_append]
    exact min_eq_left (by omega)
  have hlast : (gap.drop (4 + body.length)).length = 4 := by
    rw [length_drop]
    omega
  have hrun := (fills_store (encodeFixed
    (UInt32.ofNat (body.length + 4)))).bind hfills [] _
      (gap.drop (4 + body.length)) hfirst
  simp only [nil_append, take_append_drop, length_append,
    hlength, length_nil, zero_add] at hrun
  rw [fillFrame_eq, hnumber, run_bind hrun]
  rw [run_bind (sealFrame_run crc hlength hlast), hgap]
  rfl

theorem fillFrame_overruns (hwrites : Writes (header >>= fun _ => payload) body)
    (gap : Bytes) (hgap : gap.length < 4 + body.length) :
    fillFrame crc gap.length header (succeed payload) ⟨some gap, 0⟩ = .panicked := by
  rw [fillFrame_eq]
  apply run_bind_panicked
  apply ((writes_store _).bind hwrites).overruns
  · exact zero_le _
  · rw [length_append, zero_add]
    exact hgap

/-- A frame whose buffer has the right size is built as intended, unless it is
too large. -/
theorem encodeFrame_eq {totalSize : Nat}
    (hfills : Fills (header >>= fun _ => payload) body)
    (hsize : totalSize = 4 + body.length + 4) :
    encodeFrame crc totalSize header (succeed payload) =
      .returned (if maxMessageSize < totalSize then
        .error (.messageTooLarge totalSize) else .ok (frame crc body)) := by
  subst hsize
  unfold encodeFrame
  split
  · rfl
  · have hgap : (List.replicate (4 + body.length + 4) (0 : UInt8)).length =
        4 + body.length + 4 := length_replicate
    have hfill := fillFrame_of_fills crc hfills hgap
    have htaken : (frame crc body).take (4 + body.length + 4) =
        frame crc body := take_of_length_le (frame_length crc body).le
    rw [hgap] at hfill
    rw [hfill]
    change Outcome.returned (Except.ok ((frame crc body).take _)) = _
    rw [htaken]

theorem encodeFrame_of_fills {crc : Bytes → UInt32} {totalSize : Nat}
    (hfills : Fills (header >>= fun _ => payload) body)
    (hsize : totalSize = 4 + body.length + 4)
    (hencode : encodeFrame crc totalSize header (succeed payload) =
      .returned (.ok bytes)) :
    bytes = frame crc body ∧ body.length + 4 ≤ maxMessageSize := by
  rw [encodeFrame_eq crc hfills hsize] at hencode
  split at hencode
  · cases hencode
  · cases hencode
    exact ⟨rfl, by omega⟩

theorem measurePayload_of_writes (hwrites : Writes payload bytes) :
    measurePayload payload = .returned (if maxMessageSize < bytes.length then 0
        else bytes.length) := by
  have hcounts := hwrites.counts 0
  rw [zero_add] at hcounts
  simp only [measurePayload, hcounts]
  rfl

/-- A self-describing payload that is out of range does not fit the buffer made
for it. -/
theorem encodeFrame_overruns (hheader : Writes header front)
    (hpayload : Writes payload back)
    (hfront : front.length + 8 ≤ maxMessageSize)
    (hrange : maxMessageSize < back.length) :
    encodeFrame crc (front.length + 8) header (succeed payload) = .panicked := by
  have hgap : (List.replicate (front.length + 8) (0 : UInt8)).length =
      front.length + 8 := length_replicate
  have hoverrun := fillFrame_overruns crc (hheader.bind hpayload)
    (List.replicate (front.length + 8) 0) (by
      rw [length_append]
      omega)
  rw [hgap] at hoverrun
  simp only [encodeFrame, not_lt.mpr hfront, ↓reduceIte, hoverrun]
  rfl

/-- A frame of a self-describing payload is built as intended. -/
theorem encodeFrame_of_writes {crc : Bytes → UInt32} {size : Nat}
    (hheader : Writes header front) (hpayload : Writes payload back)
    (hmeasure : measurePayload payload = .returned size)
    (hfront : front.length + 8 ≤ maxMessageSize)
    (hencode : encodeFrame crc (front.length + 8 + size) header
      (succeed payload) = .returned (.ok bytes)) :
    bytes = frame crc (front ++ back) ∧
      (front ++ back).length + 4 ≤ maxMessageSize := by
  rw [measurePayload_of_writes hpayload] at hmeasure
  split at hmeasure
  · -- The payload counts as empty, and its writer runs over the buffer.
    rename_i hrange
    cases hmeasure
    rw [encodeFrame_overruns crc hheader hpayload hfront hrange] at hencode
    cases hencode
  · cases hmeasure
    apply encodeFrame_of_fills (hheader.bind hpayload).fills ?_ hencode
    rw [length_append]
    omega

theorem readFull_append (hcount : front.length = count) :
    readFull count (front ++ back) = .ok (front, back) := by
  subst hcount
  simp [readFull]

variable {stream : Bytes}

theorem readFull_eq_ok (hread : readFull count stream = .ok (front, back)) :
    front.length = count ∧ stream = front ++ back := by
  unfold readFull at hread
  split at hread
  · cases hread
    refine ⟨?_, (take_append_drop count stream).symm⟩
    rw [length_take]
    omega
  · split at hread <;> cases hread

/-- The length field of a frame that is not too large. -/
theorem beNat_frameLength (hcount : count ≤ maxMessageSize) :
    beNat (encodeFixed (UInt32.ofNat count)) = count := by
  have hlt : count < UInt32.size := Nat.lt_of_le_of_lt hcount (by decide)
  rw [encodeFixed, beNat_beBytes,
    Nat.mod_eq_of_lt (FixedWidth.toNat_lt (UInt32.ofNat count))]
  exact UInt32.toNat_ofNat_of_lt' hlt

theorem sealed_length (body : Bytes) :
    (body ++ encodeFixed (crc body)).length - 4 = body.length := by
  rw [List.length_append]
  exact Nat.add_sub_cancel _ _

/-- The frame of a body is taken from a stream that starts with it. -/
theorem readFrame_frame (hsize : body.length + 4 ≤ maxMessageSize) (rest : Bytes) :
    readFrame crc (frame crc body ++ rest) =
      .ok (body ++ encodeFixed (crc body), rest) := by
  have hlength := beNat_frameLength hsize
  have hfield : (encodeFixed (UInt32.ofNat (body.length + 4))).length = 4 :=
    encodeFixed_length _
  have hbuf : (body ++ encodeFixed (crc body)).length = body.length + 4 := by
    rw [List.length_append]
    rfl
  have hstream : frame crc body ++ rest =
      encodeFixed (UInt32.ofNat (body.length + 4)) ++
        (body ++ encodeFixed (crc body) ++ rest) := by
    simp only [frame, List.append_assoc]
  simp only [readFrame, hstream, readFull_append hfield, hlength,
    Nat.not_lt.mpr hsize, ↓reduceIte, readFull_append hbuf,
    Nat.add_sub_cancel, List.drop_left, List.take_left,
    decodeFixed_encodeFixed, ne_eq, not_true_eq_false]
  rw [if_neg (by omega)]

/-- A stream from which a frame is taken starts with the frame of its body. -/
theorem eq_frame_of_readFrame {crc : Bytes → UInt32} {buf rest : Bytes}
    (hread : readFrame crc stream = .ok (buf, rest)) :
    ∃ body, buf = body ++ encodeFixed (crc body) ∧
      body.length + 4 ≤ maxMessageSize ∧ stream = frame crc body ++ rest := by
  unfold readFrame at hread
  split at hread
  · cases hread
  next lengthBuf after hlengthBuf =>
    dsimp only at hread
    split at hread
    · cases hread
    · rename_i hsize
      split at hread
      · cases hread
      · rename_i taken left htaken
        split at hread
        · cases hread
        · rename_i hlong
          split at hread
          · cases hread
          · rename_i hcrc
            cases hread
            obtain ⟨hfour, rfl⟩ := readFull_eq_ok hlengthBuf
            obtain ⟨hlength, rfl⟩ := readFull_eq_ok htaken
            -- The last four bytes are the checksum of those before.
            have hcrc := not_not.mp hcrc
            have hlast : (buf.drop (beNat lengthBuf - 4)).length = 4 := by
              rw [length_drop]
              omega
            have hbody : (buf.take (beNat lengthBuf - 4)).length + 4 =
                beNat lengthBuf := by
              rw [length_take]
              omega
            have hbuf : buf = buf.take (beNat lengthBuf - 4) ++
                encodeFixed (crc (buf.take (beNat lengthBuf - 4))) := by
              rw [← hcrc, encodeFixed_decodeFixed hlast, take_append_drop]
            refine ⟨_, hbuf, by omega, ?_⟩
            rw [frame, hbody, append_assoc _ (buf.take _), ← hbuf]
            have hfield : encodeFixed (UInt32.ofNat (beNat lengthBuf)) =
                lengthBuf := encodeFixed_decodeFixed hfour
            rw [hfield, append_assoc]

/-- The part of an array between two offsets, with what is behind it. -/
def sliceOf (buf : Bytes) (low high : Nat) : Outcome Slice :=
  if low ≤ high ∧ high ≤ buf.length then
    .returned ⟨(buf.take high).drop low, buf.drop high⟩
  else .panicked

/-- The part behind a header and before what follows. -/
theorem sliceOf_append (front middle back : Bytes) :
    sliceOf (front ++ middle ++ back) front.length (front ++ middle).length =
      .returned ⟨middle, back⟩ := by
  have hrange : front.length ≤ (front ++ middle).length ∧
      (front ++ middle).length ≤ (front ++ middle ++ back).length := by
    simp only [length_append]
    omega
  rw [sliceOf, if_pos hrange, take_left, drop_left, drop_left]

section

variable {α β : Type}

/-- Read a payload laid out by hand. -/
def scanAs (scan : Scan α) (build : α → β) (buf : Slice) :
    Outcome (Except CodecError β) := do
  let (payload, _) ← scan ⟨buf, 0⟩
  return .ok (build payload)

/-- Read a self-describing payload as one of its kind. -/
def readAs [SelfDescribing α] (build : α → β) : PayloadRead β := do
  let payload ← SelfDescribing.decodePayload
  return build payload

variable (read : PayloadRead β) {decode : Slice → Outcome (Except CodecError β)}
  {crc : Bytes → UInt32}

/-- Read a self-describing payload and report what is malformed. -/
def decodeSelfDescribing (malformed : WireError → CodecError) (buf : Slice) :
    Outcome (Except CodecError β) := do
  let (payload, reader) ← read (newReader buf)
  match reader.err with
  | some error => return .error (malformed error)
  | none => return .ok payload

variable {scan : Scan α} {buf : Slice} {payload : β} {size : Nat}

theorem scanAs_of_run {value : α} {after : Cursor}
    (hrun : scan ⟨buf, 0⟩ = .returned (value, after)) (build : α → β) :
    scanAs scan build buf = .returned (.ok (build value)) := by
  simp only [scanAs, hrun]
  rfl

variable {build : α → β} {layout : Layout α} {writer header : Writer}
  {front bytes : Bytes}

theorem scanAs_returns_iff : (∃ result, scanAs scan build buf = .returned result) ↔
      ∃ result, scan ⟨buf, 0⟩ = .returned result := by
  constructor
  · rintro ⟨result, hresult⟩
    obtain ⟨value, hscan, _⟩ := Outcome.bind_eq_returned.mp hresult
    exact ⟨value, hscan⟩
  · rintro ⟨⟨value, after⟩, hscan⟩
    exact ⟨_, scanAs_of_run hscan build⟩

theorem scanAs_returns_iff_at (hscan : Scans scan layout) :
    (∃ result, scanAs scan build buf = .returned result) ↔ layout.At ⟨buf, 0⟩ := by
  rw [scanAs_returns_iff, hscan.returns_iff (zero_le _)]

/-- A self-describing payload checks all that it reads. -/
instance total_readAs [SelfDescribing α] (build : α → β) :
    Program.Total (readAs build) := by
  have htotal := SelfDescribing.total (α := α)
  unfold readAs
  infer_instance

theorem decodeSelfDescribing_of_run {read : PayloadRead β} {after : PayloadReader}
    (hrun : read (newReader buf) = .returned (payload, after))
    (malformed : WireError → CodecError) :
    decodeSelfDescribing read malformed buf = .returned (match after.err with
        | some error => .error (malformed error)
        | none => .ok payload) := by
  obtain ⟨buf, pos, err⟩ := after
  simp only [decodeSelfDescribing, hrun]
  cases err with
  | none | some error => rfl

theorem decodeSelfDescribing_returns [htotal : Program.Total read]
    (malformed : WireError → CodecError) (buf : Slice) :
    ∃ result, decodeSelfDescribing read malformed buf = .returned result := by
  obtain ⟨⟨payload, reader⟩, hrun⟩ := htotal.returns (newReader buf)
  exact ⟨_, decodeSelfDescribing_of_run hrun malformed⟩

/-- A payload of a size in range is written in a form from which it is
decoded. -/
def Carries (decode : Slice → Outcome (Except CodecError β))
    (writer : Writer) (size : Nat) (payload : β) : Prop :=
  size ≤ maxMessageSize → ∃ bytes : Bytes, bytes.length = size ∧ Fills writer bytes ∧
    ∀ spare, decode ⟨bytes, spare⟩ = .returned (.ok payload)

theorem carries_of_encodes {value : α}
    (hencodes : Encodes maxArrayLen size writer layout value)
    (hscan : Scans scan layout) (build : α → β) :
    Carries (scanAs scan build) writer size (build value) := by
  intro hsize
  obtain ⟨footprint, hlayout, hlength, hfills⟩ := hencodes hsize
  refine ⟨footprint.bytes, hlength, hfills, ?_⟩
  intro spare
  have hreads := hscan.reads hlayout [] [] spare
  rw [append_nil] at hreads
  exact scanAs_of_run hreads build

/-- The bytes are a frame of the header from whose rest the payload is
decoded. -/
def Framed (crc : Bytes → UInt32) (header bytes : Bytes)
    (decode : Slice → Outcome (Except CodecError β)) (payload : β) : Prop :=
  ∃ written : Bytes, bytes = frame crc (header ++ written) ∧
    (header ++ written).length + 4 ≤ maxMessageSize ∧
    ∀ spare, decode ⟨written, spare⟩ = .returned (.ok payload)

theorem Carries.framed (hcarries : Carries decode writer size payload)
    (hsize : size ≤ maxMessageSize) (hheader : Writes header front)
    (hencode : encodeFrame crc (front.length + 8 + size) header
      (succeed writer) = .returned (.ok bytes)) :
    Framed crc front bytes decode payload := by
  obtain ⟨written, hlength, hfills, hdecode⟩ := hcarries hsize
  have htotal : front.length + 8 + size = 4 + (front ++ written).length + 4 := by
    rw [length_append]
    omega
  obtain ⟨hbytes, hfits⟩ :=
    encodeFrame_of_fills (hheader.fills.bind hfills) htotal hencode
  exact ⟨written, hbytes, hfits, hdecode⟩

/-- A self-describing payload arrives whole. -/
theorem framed_selfDescribing [SelfDescribing α] (content : α) (build : α → β)
    (malformed : WireError → CodecError) (hheader : Writes header front)
    (hfront : front.length + 8 ≤ maxMessageSize)
    (hmeasure : measurePayload (SelfDescribing.encodePayload content) =
      .returned size)
    (hencode : encodeFrame crc (front.length + 8 + size) header
      (succeed (SelfDescribing.encodePayload content)) = .returned (.ok bytes)) :
    Framed crc front bytes (decodeSelfDescribing (readAs build) malformed)
      (build content) := by
  obtain ⟨written, _, hwrites, hreads⟩ := SelfDescribing.paired content
  obtain ⟨hbytes, hfits⟩ :=
    encodeFrame_of_writes hheader hwrites hmeasure hfront hencode
  refine ⟨written, hbytes, hfits, ?_⟩
  intro spare
  have hbound : written.length ≤ maxArrayLen := by
    rw [length_append] at hfits
    unfold maxArrayLen
    omega
  obtain ⟨after, hrun, hafter⟩ :=
    hreads hbound (newReader ⟨written, spare⟩) []
      ⟨rfl, zero_le _, by rw [append_nil]; rfl⟩
  have hread : readAs build (newReader ⟨written, spare⟩) =
      .returned (build content, after) := by
    unfold readAs
    rw [run_bind hrun]
    rfl
  rw [decodeSelfDescribing_of_run hread, hafter.sound]

end

end Streambus.Protocol
