/-
A byte stream of length-prefixed frames with several writers and readers.  A
writer puts a frame on the stream in two writes, either of which may stop
short, and a reader takes the bytes off in pieces.  As long as no frame is
begun within another, and none is read into by two readers, the stream is a
sequence of frames and each reader gets whole ones.
-/
import Streambus.ByteOrder

namespace Streambus

open List

variable (data : Bytes)

/-- A payload behind its length. -/
def frame : Bytes := beBytes 4 data.length ++ data

def frames (payloads : List Bytes) : Bytes := payloads.flatMap frame

@[simp] theorem frame_length : (frame data).length = 4 + data.length := by
  simp [frame]

@[simp] theorem frames_nil : frames [] = [] := rfl

@[simp] theorem frames_cons (rest : List Bytes) :
    frames (data :: rest) = frame data ++ frames rest := rfl

@[simp] theorem frames_append (front back : List Bytes) :
    frames (front ++ back) = frames front ++ frames back :=
  flatMap_append

/-- A payload whose length is read back, or is read as more than the limit. -/
def Fits (limit : Nat) (data : Bytes) : Prop :=
  data.length < 256 ^ 4 ∨ limit < data.length % 256 ^ 4

theorem Fits.length_eq {limit : Nat} {data : Bytes} (hfits : Fits limit data)
    (hlimit : data.length % 256 ^ 4 ≤ limit) :
    data.length = data.length % 256 ^ 4 := by
  rcases hfits with hsmall | hlarge
  · exact (Nat.mod_eq_of_lt hsmall).symm
  · omega

/-- What has been written to the stream, and how much of it is read.  The
other fields are its history: the payloads of the frames begun, the frame that
is not written in full with its writer and the bytes to come, the number of
frames read in full, and the reader that has begun to read a frame. -/
structure FrameStream where
  written : Bytes
  read : Nat
  begun : List Bytes
  pending : Option (Nat × Bytes)
  passed : Nat
  reading : Option Nat

namespace FrameStream

def empty : FrameStream := ⟨[], 0, [], none, 0, none⟩

variable (stream : FrameStream)

/-- The bytes that a writer has yet to write. -/
def owed (writer : Nat) (rest : Bytes) : Option (Nat × Bytes) :=
  if rest = [] then none else some (writer, rest)

/-- Write the first bytes of the length of a payload. -/
def writeLength (writer : Nat) (data : Bytes) (count : Nat) : FrameStream :=
  if count = 0 then stream
  else
    { stream with
      written := stream.written ++ (beBytes 4 data.length).take count
      begun := stream.begun ++ [data]
      pending := owed writer ((beBytes 4 data.length).drop count ++ data) }

/-- Write the first bytes of a payload behind its length. -/
def writeBody (writer : Nat) (data : Bytes) (count : Nat) : FrameStream :=
  if data = [] then stream
  else
    { stream with
      written := stream.written ++ data.take count
      pending := owed writer (data.drop count) }

/-- The next bytes, as many as there are up to a number. -/
def peek (count : Nat) : Bytes := (stream.written.drop stream.read).take count

/-- Take bytes off the stream. -/
def advance (reader count : Nat) : FrameStream :=
  { stream with read := stream.read + count, reading := some reader }

/-- The reader has reached the end of a frame. -/
def leave : FrameStream :=
  { stream with passed := stream.passed + 1, reading := none }

/-- What is to come of the frame that is not written in full. -/
def rest : Bytes :=
  match stream.pending with
  | none => []
  | some (_, bytes) => bytes

/-- The stream is the frames begun, but for the rest of the last, and the
readers have read whole frames unless one has begun another. -/
structure Sound (good : Bytes → Prop) (stream : FrameStream) : Prop where
  written : stream.written ++ stream.rest = frames stream.begun
  good : ∀ data ∈ stream.begun, good data
  read_le : stream.read ≤ stream.written.length
  passed_le : stream.passed ≤ stream.begun.length
  boundary : stream.reading = none →
    stream.written.take stream.read = frames (stream.begun.take stream.passed)

/-- A reader has taken the given bytes of a frame off the stream. -/
structure Within (stream : FrameStream) (reader : Nat) (bytes : Bytes) : Prop where
  reading : stream.reading = some reader
  taken : stream.written.take stream.read =
    frames (stream.begun.take stream.passed) ++ bytes

variable {stream} {good : Bytes → Prop}

theorem empty_sound : empty.Sound good := by
  constructor <;> simp [empty, rest]

theorem Sound.mono {better : Bytes → Prop}
    (hgood : ∀ data, good data → better data) (hsound : stream.Sound good) :
    stream.Sound better :=
  ⟨hsound.written, fun data hdata => hgood data (hsound.good data hdata),
    hsound.read_le, hsound.passed_le, hsound.boundary⟩

variable {bytes : Bytes} {writer : Nat} {data : Bytes}

theorem rest_of_pending (hpending : stream.pending = owed writer bytes) :
    stream.rest = bytes := by
  unfold rest owed at *
  split_ifs at hpending with hempty
  · rw [hpending, hempty]
  · rw [hpending]

theorem rest_of_none (hpending : stream.pending = none) : stream.rest = [] := by
  rw [rest, hpending]

/-- What is read does not depend on what is written behind it. -/
theorem Sound.take_append (hsound : stream.Sound good) (bytes : Bytes) :
    (stream.written ++ bytes).take stream.read = stream.written.take stream.read :=
  take_append_of_le_length hsound.read_le

theorem Sound.begun_append (hsound : stream.Sound good) (payloads : List Bytes) :
    (stream.begun ++ payloads).take stream.passed = stream.begun.take stream.passed :=
  take_append_of_le_length hsound.passed_le

theorem written_writeLength (writer : Nat) (data : Bytes) (count : Nat) :
    stream.written <+: (stream.writeLength writer data count).written := by
  unfold writeLength
  split
  · exact prefix_rfl
  · exact prefix_append _ _

/-- With its length on the stream all of a payload is to come. -/
theorem pending_writeLength (hdata : data ≠ []) :
    (stream.writeLength writer data 4).pending = some (writer, data) := by
  have hdrop : (beBytes 4 data.length).drop 4 = [] :=
    drop_eq_nil_of_le (by simp)
  simp [writeLength, owed, hdrop, hdata]

theorem written_writeBody (writer : Nat) (data : Bytes) (count : Nat) :
    stream.written <+: (stream.writeBody writer data count).written := by
  unfold writeBody
  split
  · exact prefix_rfl
  · exact prefix_append _ _

theorem Sound.writeLength (hsound : stream.Sound good) {count : Nat}
    (hfree : count ≠ 0 → stream.pending = none ∧ good data) :
    (stream.writeLength writer data count).Sound good := by
  unfold FrameStream.writeLength
  split_ifs with hcount
  · exact hsound
  · obtain ⟨hnone, hgood⟩ := hfree hcount
    have hwritten := hsound.written
    rw [rest_of_none hnone, append_nil] at hwritten
    constructor
    · rw [rest_of_pending rfl]
      rw [hwritten, frames_append, append_assoc, ← append_assoc _ _ data]
      simp [frame]
    · intro payload hpayload
      rcases mem_append.mp hpayload with hold | hnew
      · exact hsound.good payload hold
      · rwa [mem_singleton.mp hnew]
    · have hle := hsound.read_le
      dsimp only
      rw [length_append]
      omega
    · have hle := hsound.passed_le
      dsimp only
      rw [length_append]
      omega
    · intro hreading
      rw [hsound.take_append, hsound.begun_append]
      exact hsound.boundary hreading

theorem Sound.writeBody (hsound : stream.Sound good) (count : Nat)
    (hpending : data ≠ [] → stream.pending = some (writer, data)) :
    (stream.writeBody writer data count).Sound good := by
  unfold FrameStream.writeBody
  split_ifs with hdata
  · exact hsound
  · have hwritten := hsound.written
    rw [rest, hpending hdata] at hwritten
    constructor
    · rw [rest_of_pending rfl]
      rw [append_assoc, take_append_drop, hwritten]
    · exact hsound.good
    · have hle := hsound.read_le
      dsimp only
      rw [length_append]
      omega
    · exact hsound.passed_le
    · intro hreading
      rw [hsound.take_append]
      exact hsound.boundary hreading

variable {reader : Nat}

theorem Within.writeLength (hwithin : stream.Within reader bytes)
    (hsound : stream.Sound good) (writer : Nat) (data : Bytes) (count : Nat) :
    (stream.writeLength writer data count).Within reader bytes := by
  unfold FrameStream.writeLength
  split
  · exact hwithin
  · refine ⟨hwithin.reading, ?_⟩
    rw [hsound.take_append, hsound.begun_append]
    exact hwithin.taken

theorem Within.writeBody (hwithin : stream.Within reader bytes)
    (hsound : stream.Sound good) (writer : Nat) (data : Bytes) (count : Nat) :
    (stream.writeBody writer data count).Within reader bytes := by
  unfold FrameStream.writeBody
  split
  · exact hwithin
  · refine ⟨hwithin.reading, ?_⟩
    rw [hsound.take_append]
    exact hwithin.taken

theorem peek_ne_nil {count wanted : Nat}
    (hpeek : stream.peek (min count wanted) ≠ []) : stream.peek count ≠ [] := by
  unfold peek at *
  rw [min_comm, ← take_take] at hpeek
  rintro hempty
  rw [hempty] at hpeek
  exact hpeek take_nil

theorem Sound.advance (hsound : stream.Sound good) (reader count : Nat) :
    (stream.advance reader (stream.peek count).length).Sound good := by
  refine ⟨hsound.written, hsound.good, ?_, hsound.passed_le,
    fun hreading => nomatch hreading⟩
  have hle := hsound.read_le
  simp only [FrameStream.advance, peek, length_take, length_drop]
  omega

/-- A reader takes the next bytes of its frame. -/
theorem within_advance (htaken : stream.written.take stream.read =
      frames (stream.begun.take stream.passed) ++ bytes) (reader count : Nat) :
    (stream.advance reader (stream.peek count).length).Within reader
      (bytes ++ stream.peek count) := by
  refine ⟨rfl, ?_⟩
  have hpeek : (stream.written.drop stream.read).take
      (stream.peek count).length = stream.peek count := by
    simp [peek]
  simp only [FrameStream.advance, take_add, htaken, hpeek, append_assoc]

/-- What a reader has taken of a frame, behind the length, is the beginning of
a payload of that length and what follows it. -/
theorem Sound.payload (hsound : stream.Sound good) {size : Nat} {got : Bytes}
    (htaken : stream.written.take stream.read =
      frames (stream.begun.take stream.passed) ++ (beBytes 4 size ++ got)) :
    ∃ data later, stream.begun.drop stream.passed = data :: later ∧
      good data ∧ size % 256 ^ 4 = data.length % 256 ^ 4 ∧
        got <+: data ++ frames later := by
  have hall : frames (stream.begun.take stream.passed) ++
      (beBytes 4 size ++ (got ++ (stream.written.drop stream.read ++ stream.rest))) =
      frames (stream.begun.take stream.passed) ++
        frames (stream.begun.drop stream.passed) := by
    rw [← frames_append, take_append_drop, ← hsound.written]
    conv_rhs => rw [← take_append_drop stream.read stream.written, htaken]
    simp only [append_assoc]
  have hnext := append_cancel_left hall
  cases hdrop : stream.begun.drop stream.passed with
  | nil =>
    have hlength := congrArg List.length hnext
    rw [hdrop] at hlength
    simp at hlength
  | cons data later =>
    rw [hdrop, frames_cons, frame, append_assoc] at hnext
    obtain ⟨hsize, hbody⟩ := append_inj hnext (by simp)
    refine ⟨data, later, rfl, ?_, ?_, ?_⟩
    · apply hsound.good data
      apply mem_of_mem_drop
      rw [hdrop]
      exact mem_cons_self
    · simpa using congrArg beNat hsize
    · exact ⟨_, hbody⟩

/-- A reader that has taken as many bytes as the length says has taken the
payload of a frame. -/
theorem Sound.complete (hsound : stream.Sound good) {limit size : Nat}
    (hfits : ∀ data, good data → Fits limit data) (hlimit : limit < 256 ^ 4)
    (hsize : size ≤ limit) {got : Bytes} (hlength : got.length = size)
    (htaken : stream.written.take stream.read =
      frames (stream.begun.take stream.passed) ++ (beBytes 4 size ++ got)) :
    good got ∧ stream.leave.Sound good := by
  obtain ⟨data, later, hdrop, hgood, hmod, hprefix⟩ := hsound.payload htaken
  have hdata := (hfits data hgood).length_eq (by omega)
  obtain rfl : got = data := by
    apply List.IsPrefix.eq_of_length _ (by omega)
    exact prefix_of_prefix_length_le hprefix
      (prefix_append data (frames later)) (by omega)
  refine ⟨hgood, hsound.written, hsound.good, hsound.read_le, ?_, fun _ => ?_⟩
  · have hcount := congrArg List.length hdrop
    simp only [length_drop, length_cons] at hcount
    simp only [leave]
    omega
  · have hbegun : stream.begun.take (stream.passed + 1) =
        stream.begun.take stream.passed ++ [got] := by
      rw [take_add, hdrop]
      rfl
    simp only [leave, hbegun, htaken, hlength, frames_append, frames_cons,
      frames_nil, frame, append_nil]

end FrameStream

end Streambus
