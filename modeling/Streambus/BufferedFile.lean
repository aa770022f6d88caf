/-
Buffered access to one open file.  A file is a byte string together with the
cursor of an open handle; a handle in append mode writes at the end of the
file and every other handle writes at its cursor.  The writer keeps up to a
fixed count of bytes back and hands them on when it overflows or is flushed;
the reader fetches ahead of what it was asked for, so reading moves the cursor
further than the bytes it returned.
-/
import Streambus.ByteOrder

namespace Streambus

open List

/-- An open file handle. -/
structure OpenFile where
  cursor : Nat
  appendMode : Bool
  closed : Bool
deriving Repr, DecidableEq

/-- Bytes accepted by a buffered writer and not yet handed to the file, and
whether an earlier write failed; a failed writer refuses everything after. -/
structure BufWriter where
  buffered : Bytes
  failed : Bool
deriving Repr, DecidableEq

/-- A file, one handle on it and the writer over that handle.  `quota` is the
number of bytes the device still takes before a write fails, `none` for a
device that does not fail. -/
structure BufferedFile where
  content : Bytes
  file : OpenFile
  writer : BufWriter
  quota : Option Nat
deriving Repr, DecidableEq

/-- The capacity of a buffered reader and of a buffered writer. -/
def bufferSize : Nat := 4096

/-- The file after writing at a position.  A gap between the old end and the
position reads as zeros. -/
def writeAt (content : Bytes) (position : Nat) (bytes : Bytes) : Bytes :=
  if bytes = [] then content
  else content.take position ++
    List.replicate (position - content.length) 0 ++ bytes ++
      content.drop (position + bytes.length)

theorem writeAt_end (content bytes : Bytes) :
    writeAt content content.length bytes = content ++ bytes := by
  by_cases hempty : bytes = []
  · simp [writeAt, hempty]
  · simp [writeAt, hempty]

namespace BufferedFile

/-- The part of a write that the device takes. -/
def accepted (sink : BufferedFile) (bytes : Bytes) : Bytes :=
  match sink.quota with
  | none => bytes
  | some room => bytes.take room

/-- One write call on the handle: the sink afterwards, the number of bytes
taken and whether all were. -/
def write (sink : BufferedFile) (bytes : Bytes) : BufferedFile × Nat × Bool :=
  if sink.file.closed then (sink, 0, false)
  else
    let taken := sink.accepted bytes
    let position :=
      if sink.file.appendMode then sink.content.length else sink.file.cursor
    ({ sink with
        content := writeAt sink.content position taken
        file := { sink.file with cursor := position + taken.length }
        quota := sink.quota.map (· - taken.length) },
      taken.length, decide (taken.length = bytes.length))

/-- Hand the buffered bytes to the file.  After a short write the rest stays
buffered and the writer is failed. -/
def flush (sink : BufferedFile) : BufferedFile × Bool :=
  if sink.writer.failed then (sink, false)
  else if sink.writer.buffered = [] then (sink, true)
  else
    let (next, count, ok) := sink.write sink.writer.buffered
    ({ next with writer := ⟨sink.writer.buffered.drop count, !ok⟩ }, ok)

/-- Write past an empty buffer. -/
def direct (sink : BufferedFile) (bytes : Bytes) : BufferedFile × Bool :=
  let (next, _, ok) := sink.write bytes
  ({ next with writer := ⟨[], !ok⟩ }, ok)

/-- Flush a full buffer and go on with the rest of a write: keep the rest back
if it fits the buffer, otherwise write it directly. -/
def spill (filled : BufferedFile) (rest : Bytes) : BufferedFile × Bool :=
  let (next, ok) := filled.flush
  if ok then
    if rest.length ≤ bufferSize then
      ({ next with writer := ⟨rest, false⟩ }, true)
    else next.direct rest
  else (next, false)

/-- Write through the buffer: what fits is kept back, a write that an empty
buffer cannot hold goes directly, and any other fills the buffer and spills. -/
def put (sink : BufferedFile) (bytes : Bytes) : BufferedFile × Bool :=
  let room := bufferSize - sink.writer.buffered.length
  if sink.writer.failed then (sink, false)
  else if bytes.length ≤ room then
    ({ sink with writer := ⟨sink.writer.buffered ++ bytes, false⟩ }, true)
  else if sink.writer.buffered = [] then sink.direct bytes
  else
    { sink with
      writer := ⟨sink.writer.buffered ++ bytes.take room, false⟩ }.spill
        (bytes.drop room)

/-- Everything written through the sink, whether or not it reached the file. -/
def pending (sink : BufferedFile) : Bytes :=
  sink.content ++ sink.writer.buffered

/-- The next write to the file extends it. -/
def AtEnd (sink : BufferedFile) : Prop :=
  sink.file.appendMode = true ∨ sink.file.cursor = sink.content.length
deriving Decidable

/-- An open handle with a healthy writer on a device that does not fail. -/
structure Sound (sink : BufferedFile) : Prop where
  opened : sink.file.closed = false
  healthy : sink.writer.failed = false
  unlimited : sink.quota = none

/-- `next` has taken `bytes` after everything `sink` had taken. -/
structure Extends (sink next : BufferedFile) (bytes : Bytes) : Prop where
  sound : next.Sound
  pending_eq : next.pending = sink.pending ++ bytes
  content_le : sink.content <+: next.content
  mode_eq : next.file.appendMode = sink.file.appendMode
  atEnd : sink.AtEnd → next.AtEnd

theorem Extends.trans {first second third : BufferedFile} {left right : Bytes}
    (hleft : first.Extends second left) (hright : second.Extends third right) :
    first.Extends third (left ++ right) where
  sound := hright.sound
  pending_eq := by
    rw [hright.pending_eq, hleft.pending_eq, append_assoc]
  content_le := hleft.content_le.trans hright.content_le
  mode_eq := hright.mode_eq.trans hleft.mode_eq
  atEnd h := hright.atEnd (hleft.atEnd h)

/-- The sink after a write that extended the file. -/
def appended (sink : BufferedFile) (bytes : Bytes) : BufferedFile :=
  { sink with
    content := sink.content ++ bytes
    file := { sink.file with cursor := sink.content.length + bytes.length } }

variable {sink : BufferedFile}

/-- A sound write at the end of the file appends to it. -/
theorem write_atEnd (hsound : sink.Sound) (hend : sink.AtEnd) (bytes : Bytes) :
    sink.write bytes = (sink.appended bytes, bytes.length, true) := by
  have hposition : (if sink.file.appendMode then sink.content.length
      else sink.file.cursor) = sink.content.length := by
    rcases hend with hmode | hcursor
    · simp [hmode]
    · simp [hcursor]
  simp only [write, hsound.opened, accepted, hsound.unlimited, hposition,
    writeAt_end, Bool.false_eq_true, ↓reduceIte, decide_true, Option.map_none]
  simp [appended, hsound.opened, hsound.unlimited]

variable {bytes : Bytes}

/-- A write that extended the file and left the buffer empty. -/
theorem appended_extends (hsound : sink.Sound) {taken : Bytes}
    (hpending : sink.content ++ bytes = sink.pending ++ taken) :
    sink.Extends { sink.appended bytes with writer := ⟨[], false⟩ } taken where
  sound := ⟨hsound.opened, rfl, hsound.unlimited⟩
  pending_eq := by simpa [pending, appended] using hpending
  content_le := prefix_append _ _
  mode_eq := rfl
  atEnd _ := Or.inr (by simp [appended])

theorem flush_extends (hsound : sink.Sound)
    (hend : sink.AtEnd ∨ sink.writer.buffered = []) :
    ∃ next, sink.flush = (next, true) ∧ sink.Extends next [] ∧
      next.content = sink.pending ∧ next.writer.buffered = [] := by
  by_cases hempty : sink.writer.buffered = []
  · exact ⟨sink, by simp [flush, hsound.healthy, hempty],
      ⟨hsound, by simp, prefix_rfl, rfl, id⟩, by simp [pending, hempty],
      hempty⟩
  · have hwrite := write_atEnd hsound (hend.resolve_right hempty) sink.writer.buffered
    refine ⟨{ sink.appended sink.writer.buffered with writer := ⟨[], false⟩ },
      ?_, appended_extends hsound (by simp [pending]), rfl, rfl⟩
    simp [flush, hsound.healthy, hempty, hwrite]

theorem direct_extends (hsound : sink.Sound) (hend : sink.AtEnd)
    (hempty : sink.writer.buffered = []) (bytes : Bytes) :
    ∃ next, sink.direct bytes = (next, true) ∧ sink.Extends next bytes := by
  refine ⟨{ sink.appended bytes with writer := ⟨[], false⟩ }, ?_,
    appended_extends hsound (by simp [pending, hempty])⟩
  simp [direct, write_atEnd hsound hend bytes]

theorem spill_extends {filled : BufferedFile} (hsound : filled.Sound)
    (hend : filled.AtEnd) (rest : Bytes) :
    ∃ next, filled.spill rest = (next, true) ∧ filled.Extends next rest := by
  obtain ⟨next, hflush, hflushed, _, hdrained⟩ :=
    flush_extends hsound (Or.inl hend)
  by_cases hrest : rest.length ≤ bufferSize
  · refine ⟨{ next with writer := ⟨rest, false⟩ }, by simp [spill, hflush, hrest],
      ⟨⟨hflushed.sound.opened, rfl, hflushed.sound.unlimited⟩, ?_,
        hflushed.content_le, hflushed.mode_eq, hflushed.atEnd⟩⟩
    have hcontent : next.content = filled.pending := by
      simpa [pending, hdrained] using hflushed.pending_eq
    simp [pending, hcontent]
  · obtain ⟨last, hdirect, hlast⟩ := direct_extends hflushed.sound
      (hflushed.atEnd hend) hdrained rest
    exact ⟨last, by simp [spill, hflush, hrest, hdirect],
      by simpa using hflushed.trans hlast⟩

theorem put_of_room (hhealthy : sink.writer.failed = false)
    (hroom : bytes.length ≤ bufferSize - sink.writer.buffered.length) :
    sink.put bytes =
      ({ sink with writer := ⟨sink.writer.buffered ++ bytes, false⟩ }, true) := by
  simp [put, hhealthy, hroom]

/-- A sound write through the buffer takes every byte, provided the handle is
at the end of the file or the buffer has room for all of them. -/
theorem put_extends (hsound : sink.Sound) (bytes : Bytes) (hend : sink.AtEnd ∨
      bytes.length ≤ bufferSize - sink.writer.buffered.length) :
    ∃ next, sink.put bytes = (next, true) ∧ sink.Extends next bytes := by
  by_cases hroom : bytes.length ≤ bufferSize - sink.writer.buffered.length
  · refine ⟨_, put_of_room hsound.healthy hroom,
      ⟨hsound.opened, rfl, hsound.unlimited⟩, ?_, prefix_rfl, rfl, id⟩
    simp [pending]
  · have hatEnd := hend.resolve_right hroom
    by_cases hempty : sink.writer.buffered = []
    · obtain ⟨next, hdirect, hextends⟩ :=
        direct_extends hsound hatEnd hempty bytes
      refine ⟨next, ?_, hextends⟩
      rw [put, if_neg (by simp [hsound.healthy]), if_neg hroom, if_pos hempty,
        hdirect]
    · let room := bufferSize - sink.writer.buffered.length
      let filled : BufferedFile :=
        { sink with writer := ⟨sink.writer.buffered ++ bytes.take room, false⟩ }
      have hfilled : filled.Sound := ⟨hsound.opened, rfl, hsound.unlimited⟩
      have hstart : sink.Extends filled (bytes.take room) :=
        ⟨hfilled, by simp [pending, filled], prefix_rfl, rfl, id⟩
      obtain ⟨next, hspill, hextends⟩ :=
        spill_extends hfilled hatEnd (bytes.drop room)
      refine ⟨next, ?_, by simpa using hstart.trans hextends⟩
      rw [put, if_neg (by simp [hsound.healthy]), if_neg hroom, if_neg hempty]
      exact hspill

theorem put_put_extends (hsound : sink.Sound) (left right : Bytes)
    (hend : sink.AtEnd ∨
      sink.writer.buffered.length + left.length + right.length ≤ bufferSize) :
    ∃ middle next, sink.put left = (middle, true) ∧
      middle.put right = (next, true) ∧ sink.Extends next (left ++ right) := by
  rcases hend with hend | hroom
  · obtain ⟨middle, hmiddle, hleft⟩ := put_extends hsound left (Or.inl hend)
    obtain ⟨next, hnext, hright⟩ :=
      put_extends hleft.sound right (Or.inl (hleft.atEnd hend))
    exact ⟨middle, next, hmiddle, hnext, hleft.trans hright⟩
  · have hleft : left.length ≤ bufferSize - sink.writer.buffered.length := by
      omega
    have hright : right.length ≤
        bufferSize - (sink.writer.buffered ++ left).length := by
      rw [length_append]
      omega
    refine ⟨_, _, put_of_room hsound.healthy hleft, put_of_room rfl hright,
      ⟨hsound.opened, rfl, hsound.unlimited⟩, ?_, prefix_rfl, rfl, id⟩
    simp [pending]

end BufferedFile

/-- Why a read of a fixed count of bytes fell short: nothing was left, or some
bytes were. -/
inductive ReadError where
  | eof
  | unexpectedEof
deriving Repr, DecidableEq

/-- A buffered reader over a file that does not change while it reads. -/
structure BufReader where
  content : Bytes
  cursor : Nat
  buffered : Bytes
deriving Repr, DecidableEq

namespace BufReader

variable (reader : BufReader)

/-- What the reader has not returned yet. -/
def stream : Bytes :=
  reader.buffered ++ reader.content.drop reader.cursor

/-- Read exactly `count` bytes.  What is missing from the buffer is fetched by
one read of the buffer's capacity, or of exactly the missing bytes when these
would not fit the buffer. -/
def readFull (count : Nat) : BufReader × Except ReadError Bytes :=
  if count ≤ reader.buffered.length then
    ({ reader with buffered := reader.buffered.drop count },
      .ok (reader.buffered.take count))
  else
    let missing := count - reader.buffered.length
    let rest := reader.content.drop reader.cursor
    if rest.length < missing then
      ({ reader with cursor := reader.cursor + rest.length, buffered := [] },
        .error (if reader.buffered.length + rest.length = 0 then .eof
          else .unexpectedEof))
    else if bufferSize ≤ missing then
      ({ reader with cursor := reader.cursor + missing, buffered := [] },
        .ok (reader.buffered ++ rest.take missing))
    else
      let chunk := rest.take bufferSize
      ({ reader with
          cursor := reader.cursor + chunk.length
          buffered := chunk.drop missing },
        .ok (reader.buffered ++ chunk.take missing))

/-- A read within the stream returns its front and leaves the rest. -/
theorem readFull_of_le {count : Nat} (hcount : count ≤ reader.stream.length) :
    ∃ next, reader.readFull count = (next, .ok (reader.stream.take count)) ∧
      next.stream = reader.stream.drop count := by
  by_cases hbuffered : count ≤ reader.buffered.length
  · refine ⟨{ reader with buffered := reader.buffered.drop count }, ?_, ?_⟩
    · simp [readFull, hbuffered, stream, take_append_of_le_length]
    · simp [stream, drop_append_of_le_length hbuffered]
  · let missing := count - reader.buffered.length
    let rest := reader.content.drop reader.cursor
    have hsplit : count = reader.buffered.length + missing := by omega
    have henough : ¬ rest.length < missing := by
      simp only [stream, length_append] at hcount
      change ¬ (reader.content.drop reader.cursor).length < missing
      omega
    have htake : reader.stream.take count = reader.buffered ++ rest.take missing := by
      rw [hsplit, stream, take_length_add_append]
    have hdrop : reader.stream.drop count = rest.drop missing := by
      rw [hsplit, stream, drop_length_add_append]
    rw [htake, hdrop]
    by_cases hlarge : bufferSize ≤ missing
    · refine ⟨{ reader with
          cursor := reader.cursor + missing, buffered := [] }, ?_, ?_⟩
      · rw [readFull, if_neg hbuffered]
        rw [if_neg henough, if_pos hlarge]
      · simp [stream, rest, drop_drop]
    · refine ⟨{ reader with
          cursor := reader.cursor + (rest.take bufferSize).length
          buffered := (rest.take bufferSize).drop missing }, ?_, ?_⟩
      · have hchunk : (rest.take bufferSize).take missing = rest.take missing := by
          rw [take_take, Nat.min_eq_left (by omega)]
        rw [readFull, if_neg hbuffered, ← hchunk]
        rw [if_neg henough, if_neg hlarge]
      · have hrest : reader.content.drop (reader.cursor +
            (rest.take bufferSize).length) =
              rest.drop (rest.take bufferSize).length := by
          simp [rest, drop_drop]
        have hfront : (rest.take bufferSize).drop missing ++
            rest.drop (rest.take bufferSize).length = rest.drop missing := by
          have hle : missing ≤ (rest.take bufferSize).length := by
            rw [length_take]
            omega
          have hwhole : rest.take bufferSize ++
              rest.drop (rest.take bufferSize).length = rest := by
            rw [length_take]
            rcases Nat.le_total bufferSize rest.length with h | h
            · rw [Nat.min_eq_left h, take_append_drop]
            · rw [Nat.min_eq_right h, take_of_length_le h, drop_length, append_nil]
          conv_rhs => rw [← hwhole, drop_append_of_le_length hle]
        change (rest.take bufferSize).drop missing ++ reader.content.drop
          (reader.cursor + (rest.take bufferSize).length) = _
        rw [hrest, hfront]

theorem readFull_of_lt {count : Nat} (hcount : reader.stream.length < count) :
    ∃ next, reader.readFull count = (next, .error
      (if reader.stream = [] then .eof else .unexpectedEof)) := by
  have hbuffered : ¬ count ≤ reader.buffered.length := by
    simp only [stream, length_append] at hcount
    omega
  have hshort : (reader.content.drop reader.cursor).length <
      count - reader.buffered.length := by
    simp only [stream, length_append] at hcount
    omega
  have hempty : reader.buffered.length +
      (reader.content.drop reader.cursor).length = 0 ↔ reader.stream = [] := by
    rw [← length_append, length_eq_zero_iff, stream]
  refine ⟨{ reader with
    cursor := reader.cursor + (reader.content.drop reader.cursor).length
    buffered := [] }, ?_⟩
  simp only [readFull, hbuffered, hshort, hempty, ↓reduceIte]

end BufReader

end Streambus
