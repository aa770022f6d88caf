/-
Filling a byte buffer and reading a byte slice at a moving offset, without
checks.  A writer counts the length of what it writes, puts it in place where
there is room, and panics where there is not.  A layout says which byte strings
stand for a value, and how many of their leading bytes have to be inside the
slice; a scan follows a layout if it returns exactly the values laid out at the
cursor, and panics otherwise.
-/
import Streambus.ByteOrder
import Streambus.Outcome

namespace Streambus

open List Program

/-- The storage being filled, if any, and the position to go on from. -/
structure Buffer where
  storage : Option Bytes
  position : Nat
deriving Repr, DecidableEq

abbrev Writer := Program Buffer Unit

/-- Replace the bytes from a position on. -/
def overwrite (data : Bytes) (position : Nat) (bytes : Bytes) : Bytes :=
  data.take position ++ bytes ++ data.drop (position + bytes.length)

theorem overwrite_gap {before gap after bytes : Bytes}
    (hgap : gap.length = bytes.length) :
    overwrite (before ++ gap ++ after) before.length bytes =
      before ++ bytes ++ after := by
  rw [overwrite, append_assoc before gap after, take_left, ← hgap,
    ← length_append, ← append_assoc, drop_left]

/-- Put bytes at the position, all of which must lie inside the storage. -/
def store (bytes : Bytes) : Writer := fun buffer =>
  let after := buffer.position + bytes.length
  match buffer.storage with
  | none => .returned ((), ⟨none, after⟩)
  | some data =>
    if after ≤ data.length then
      .returned ((), ⟨some (overwrite data buffer.position bytes), after⟩)
    else .panicked

/-- Copy as many bytes as there is room for; the position moves past all of
them. -/
def copyIn (bytes : Bytes) : Writer := fun buffer =>
  let after := buffer.position + bytes.length
  match buffer.storage with
  | none => .returned ((), ⟨none, after⟩)
  | some data =>
    if buffer.position ≤ data.length then
      let room := data.length - buffer.position
      .returned ((), ⟨some (overwrite data buffer.position (bytes.take room)), after⟩)
    else .panicked

/-- The writer puts exactly these bytes where there is room for them. -/
def Fills (writer : Writer) (bytes : Bytes) : Prop :=
  ∀ before gap after : Bytes, gap.length = bytes.length →
    writer ⟨some (before ++ gap ++ after), before.length⟩ =
      .returned ((), ⟨some (before ++ bytes ++ after), before.length + bytes.length⟩)

theorem fills_pure : Fills (pure ()) [] := by
  intro before gap after hgap
  rw [length_eq_zero_iff.mp hgap]
  rfl

variable (bytes : Bytes)

theorem fills_store : Fills (store bytes) bytes := by
  intro before gap after hgap
  have hroom : before.length + bytes.length ≤ (before ++ gap ++ after).length := by
    simp only [length_append, hgap]
    omega
  simp only [store, hroom, ↓reduceIte, overwrite_gap hgap]

theorem fills_copyIn : Fills (copyIn bytes) bytes := by
  intro before gap after hgap
  have hlength : (before ++ gap ++ after).length =
      before.length + bytes.length + after.length := by
    simp only [length_append, hgap]
  have hinside : before.length ≤ (before ++ gap ++ after).length := by omega
  have hroom : bytes.take ((before ++ gap ++ after).length - before.length) =
      bytes := take_of_length_le (by omega)
  simp only [copyIn, hinside, ↓reduceIte, hroom, overwrite_gap hgap]

variable {second first : Writer} {front back : Bytes}

theorem Fills.bind (hfirst : Fills first front) (hsecond : Fills second back) :
    Fills (first >>= fun _ => second) (front ++ back) := by
  intro before gap after hgap
  rw [length_append] at hgap
  obtain ⟨gapFront, gapBack, rfl, hfront⟩ :
      ∃ gapFront gapBack, gap = gapFront ++ gapBack ∧
        gapFront.length = front.length := by
    refine ⟨gap.take front.length, gap.drop front.length, ?_, ?_⟩
    · exact (take_append_drop _ _).symm
    · rw [length_take]
      omega
  have hback : gapBack.length = back.length := by
    rw [length_append] at hgap
    omega
  have hrun := hfirst before gapFront (gapBack ++ after) hfront
  have hthen := hsecond (before ++ front) gapBack after hback
  rw [← append_assoc, ← append_assoc] at hrun
  rw [length_append] at hthen
  rw [← append_assoc, run_bind hrun, hthen, length_append,
    Nat.add_assoc, append_assoc before front back]

/-- The writer writes exactly these bytes: it counts them without storage and
panics in a storage that is too short. -/
structure Writes (writer : Writer) (bytes : Bytes) : Prop where
  fills : Fills writer bytes
  counts : ∀ position, writer ⟨none, position⟩ =
    .returned ((), ⟨none, position + bytes.length⟩)
  overruns : ∀ (data : Bytes) (position : Nat), position ≤ data.length →
    data.length < position + bytes.length →
    writer ⟨some data, position⟩ = .panicked

theorem writes_pure : Writes (pure ()) [] where
  fills := fills_pure
  counts _ := rfl
  overruns data position hinside hshort := by
    rw [length_nil] at hshort
    omega

theorem writes_store : Writes (store bytes) bytes where
  fills := fills_store bytes
  counts _ := rfl
  overruns data position _ hshort := by
    simp only [store, Nat.not_le.mpr hshort, ↓reduceIte]

theorem Writes.bind (hfirst : Writes first front) (hsecond : Writes second back) :
    Writes (first >>= fun _ => second) (front ++ back) where
  fills := hfirst.fills.bind hsecond.fills
  counts position := by
    rw [run_bind (hfirst.counts position), hsecond.counts,
      length_append, Nat.add_assoc]
  overruns data position hinside hshort := by
    rw [length_append] at hshort
    by_cases hfront : position + front.length ≤ data.length
    · -- The first part fits, and the second one finds too little room.
      have hsplit : data = data.take position ++
          (data.drop position).take front.length ++
          data.drop (position + front.length) := by
        rw [← drop_drop, append_assoc, take_append_drop, take_append_drop]
      have hgap : ((data.drop position).take front.length).length = front.length := by
        rw [length_take, length_drop]
        omega
      have hposition : (data.take position).length = position := by
        rw [length_take]
        omega
      have hrun := hfirst.fills (data.take position)
        ((data.drop position).take front.length)
        (data.drop (position + front.length)) hgap
      rw [← hsplit, hposition] at hrun
      have hlength : (data.take position ++ front ++
          data.drop (position + front.length)).length = data.length := by
        simp only [length_append, length_take, length_drop]
        omega
      rw [run_bind hrun]
      apply hsecond.overruns
      · omega
      · omega
    · exact run_bind_panicked (hfirst.overruns data position hinside (by omega))

/-- The bytes of a slice, and those of the array behind its end. -/
structure Slice where
  data : Bytes
  spare : Bytes
deriving Repr, DecidableEq

def Slice.whole (slice : Slice) : Bytes := slice.data ++ slice.spare

structure Cursor where
  slice : Slice
  offset : Nat
deriving Repr, DecidableEq

namespace Cursor

variable (cursor : Cursor)

def unread : Bytes :=
  cursor.slice.whole.drop cursor.offset

def skip (count : Nat) : Cursor :=
  { cursor with offset := cursor.offset + count }

/-- The offset lies inside the array. -/
def Within : Prop :=
  cursor.offset ≤ cursor.slice.whole.length

theorem unread_skip (count : Nat) :
    (cursor.skip count).unread = cursor.unread.drop count := by
  simp only [unread, skip, drop_drop]

theorem skip_skip (first second : Nat) :
    (cursor.skip first).skip second = cursor.skip (first + second) := by
  simp only [skip, Nat.add_assoc]

theorem within_skip_of_prefix {cursor : Cursor} (hwithin : cursor.Within)
    {bytes : Bytes} (hbytes : bytes <+: cursor.unread) :
    (cursor.skip bytes.length).Within := by
  have hlength := hbytes.length_le
  simp only [unread, length_drop] at hlength
  unfold Within at hwithin ⊢
  simp only [skip]
  omega

end Cursor

abbrev Scan (α : Type) := Program Cursor α

/-- Read a number; all its bytes must lie inside the slice. -/
def scanFixed (α : Type) [FixedWidth α] : Scan α := fun cursor =>
  let width := FixedWidth.width α
  if cursor.offset + width ≤ cursor.slice.data.length then
    .returned (decodeFixed α ((cursor.slice.data.drop cursor.offset).take width),
        cursor.skip width)
  else .panicked

/-- Take a number of bytes, which must lie inside the array. -/
def scanSlice (count : Nat) : Scan Bytes := fun cursor =>
  if cursor.offset + count ≤ cursor.slice.whole.length then
    .returned (cursor.unread.take count, cursor.skip count)
  else .panicked

/-- There are at least so many bytes left in the slice. -/
def hasMore (count : Nat) : Scan Bool := fun cursor =>
  .returned (decide (cursor.offset + count ≤ cursor.slice.data.length), cursor)

/-- A length field and as many bytes. -/
def scanBlob : Scan Bytes := do
  let count ← scanFixed UInt32
  scanSlice count.toNat

/-- A byte string, and how many of its leading bytes must lie inside the
slice. -/
@[ext] structure Footprint where
  bytes : Bytes
  needed : Nat
  needed_le : needed ≤ bytes.length

namespace Footprint

def empty : Footprint := ⟨[], 0, le_refl 0⟩

/-- All bytes must lie inside the slice. -/
def solid (bytes : Bytes) : Footprint := ⟨bytes, bytes.length, le_refl _⟩

/-- The bytes may run over the end of the slice. -/
def loose (bytes : Bytes) : Footprint := ⟨bytes, 0, Nat.zero_le _⟩

def seq (first second : Footprint) : Footprint where
  bytes := first.bytes ++ second.bytes
  needed :=
    if second.needed = 0 then first.needed
    else first.bytes.length + second.needed
  needed_le := by
    have hfirst := first.needed_le
    have hsecond := second.needed_le
    rw [length_append]
    split <;> omega

@[simp] theorem bytes_solid (bytes : Bytes) : (solid bytes).bytes = bytes :=
  rfl

@[simp] theorem bytes_seq (first second : Footprint) :
    (first.seq second).bytes = first.bytes ++ second.bytes := rfl

@[simp] theorem seq_empty (footprint : Footprint) :
    footprint.seq empty = footprint := by
  ext1
  · simp [seq, empty]
  · simp [seq, empty]

/-- The footprint lies at the cursor. -/
structure LiesAt (footprint : Footprint) (cursor : Cursor) : Prop where
  starts : footprint.bytes <+: cursor.unread
  inside : footprint.needed = 0 ∨
    cursor.offset + footprint.needed ≤ cursor.slice.data.length

theorem liesAt_empty (cursor : Cursor) : empty.LiesAt cursor :=
  ⟨List.nil_prefix, Or.inl rfl⟩

theorem append_prefix_iff {front back bytes : Bytes} : front ++ back <+: bytes ↔
      front <+: bytes ∧ back <+: bytes.drop front.length := by
  constructor
  · rintro ⟨rest, rfl⟩
    refine ⟨⟨back ++ rest, by simp⟩, ⟨rest, ?_⟩⟩
    rw [append_assoc, drop_left]
  · rintro ⟨⟨rest, rfl⟩, hback⟩
    rw [drop_left] at hback
    obtain ⟨tail, rfl⟩ := hback
    exact ⟨tail, by simp⟩

theorem liesAt_seq {first second : Footprint} {cursor : Cursor} :
    (first.seq second).LiesAt cursor ↔
      first.LiesAt cursor ∧ second.LiesAt (cursor.skip first.bytes.length) := by
  have hfirst := first.needed_le
  constructor
  · rintro ⟨hstarts, hinside⟩
    obtain ⟨hfront, hback⟩ := append_prefix_iff.mp hstarts
    simp only [seq] at hinside
    refine ⟨⟨hfront, ?_⟩, ⟨?_, ?_⟩⟩
    · split at hinside
      · exact hinside
      · right
        omega
    · rw [Cursor.unread_skip]
      exact hback
    · simp only [Cursor.skip]
      split at hinside
      · exact Or.inl ‹_›
      · right
        omega
  · rintro ⟨⟨hfront, hneeded⟩, ⟨hback, hinside⟩⟩
    rw [Cursor.unread_skip] at hback
    refine ⟨append_prefix_iff.mpr ⟨hfront, hback⟩, ?_⟩
    simp only [Cursor.skip] at hinside
    simp only [seq]
    split
    · exact hneeded
    · right
      omega

end Footprint

/-- The footprints of each value. -/
def Layout (α : Type) := α → Footprint → Prop

instance : Monad Layout where
  pure value := fun other footprint =>
    other = value ∧ footprint = Footprint.empty
  bind layout next := fun result footprint =>
    ∃ value first second, layout value first ∧ next value result second ∧
      footprint = first.seq second

namespace Layout

variable {α β : Type}

/-- A number in its width. -/
def fixed (α : Type) [FixedWidth α] : Layout α := fun value footprint =>
  footprint = Footprint.solid (encodeFixed value)

/-- A given number of bytes. -/
def slice (count : Nat) : Layout Bytes := fun bytes footprint =>
  bytes.length = count ∧ footprint = Footprint.loose bytes

/-- A length field and as many bytes. -/
def blob : Layout Bytes := do
  let count ← fixed UInt32
  slice count.toNat

def replicate (layout : Layout α) : Nat → Layout (List α)
  | 0 => pure []
  | count + 1 => do
      let value ← layout
      let values ← replicate layout count
      pure (value :: values)

variable (layout : Layout α)

/-- A count field and as many values. -/
def counted : Layout (List α) := do
  let count ← fixed UInt32
  replicate layout count.toNat

/-- A value is laid out at the cursor. -/
def At (cursor : Cursor) : Prop :=
  ∃ value footprint, layout value footprint ∧ footprint.LiesAt cursor

end Layout

/-- The scan returns a value exactly if the value is laid out at the cursor,
and moves past it. -/
def Scans {α : Type} (scan : Scan α) (layout : Layout α) : Prop :=
  ∀ cursor : Cursor, cursor.Within → ∀ value after,
    scan cursor = .returned (value, after) ↔
      ∃ footprint, layout value footprint ∧ footprint.LiesAt cursor ∧
        after = cursor.skip footprint.bytes.length

section

variable {α β : Type}

theorem scans_pure (value : α) : Scans (pure value) (pure value) := by
  intro cursor _ other after
  constructor
  · intro hrun
    cases hrun
    exact ⟨_, ⟨rfl, rfl⟩, Footprint.liesAt_empty cursor, rfl⟩
  · rintro ⟨_, ⟨rfl, rfl⟩, _, rfl⟩
    rfl

variable {layout : Layout α} {scan : Scan α} {cursor : Cursor} {count : Nat}

theorem Scans.bind {next : α → Scan β} {tail : α → Layout β}
    (hscan : Scans scan layout)
    (hnext : ∀ value, Scans (next value) (tail value)) :
    Scans (scan >>= next) (layout >>= tail) := by
  intro cursor hwithin result after
  rw [bind_eq_returned]
  constructor
  · rintro ⟨value, middle, hrun, hthen⟩
    obtain ⟨first, hfirst, hlies, rfl⟩ :=
      (hscan cursor hwithin value middle).mp hrun
    have hmiddle := Cursor.within_skip_of_prefix hwithin hlies.starts
    obtain ⟨second, hsecond, hthere, rfl⟩ :=
      (hnext value _ hmiddle result after).mp hthen
    refine ⟨first.seq second, ⟨value, first, second, hfirst, hsecond, rfl⟩,
      Footprint.liesAt_seq.mpr ⟨hlies, hthere⟩, ?_⟩
    rw [Cursor.skip_skip, Footprint.bytes_seq, length_append]
  · rintro ⟨_, ⟨value, first, second, hfirst, hsecond, rfl⟩, hlies, rfl⟩
    obtain ⟨hhere, hthere⟩ := Footprint.liesAt_seq.mp hlies
    have hmiddle := Cursor.within_skip_of_prefix hwithin hhere.starts
    refine ⟨value, _, (hscan cursor hwithin value _).mpr
      ⟨first, hfirst, hhere, rfl⟩, (hnext value _ hmiddle result _).mpr
      ⟨second, hsecond, hthere, ?_⟩⟩
    rw [Cursor.skip_skip, Footprint.bytes_seq, length_append]

theorem scans_fixed (α : Type) [FixedWidth α] :
    Scans (scanFixed α) (Layout.fixed α) := by
  intro cursor hwithin value after
  have hunread : ∀ width, cursor.offset + width ≤ cursor.slice.data.length →
        cursor.unread.take width =
          (cursor.slice.data.drop cursor.offset).take width := by
    intro width hinside
    rw [Cursor.unread, Slice.whole, drop_append_of_le_length (by omega),
      take_append_of_le_length (by rw [length_drop]; omega)]
  constructor
  · intro hrun
    simp only [scanFixed] at hrun
    split at hrun
    next hinside =>
      have hlength : ((cursor.slice.data.drop cursor.offset).take
          (FixedWidth.width α)).length = FixedWidth.width α := by
        rw [length_take, length_drop]
        omega
      obtain ⟨rfl, rfl⟩ := hrun
      refine ⟨_, rfl, ⟨?_, ?_⟩, ?_⟩
      · rw [encodeFixed_decodeFixed hlength, ← hunread _ hinside]
        exact List.take_prefix _ _
      · right
        simpa [Footprint.solid] using hinside
      · simp [Footprint.solid]
    · cases hrun
  · rintro ⟨_, rfl, ⟨hstarts, hinside⟩, rfl⟩
    simp only [Footprint.solid, encodeFixed_length] at hstarts hinside ⊢
    have hroom : cursor.offset + FixedWidth.width α ≤ cursor.slice.data.length := by
      rcases hinside with hzero | hinside
      · exact absurd hzero (FixedWidth.width_pos (α := α)).ne'
      · exact hinside
    have hbytes : cursor.unread.take (FixedWidth.width α) = encodeFixed value := by
      rw [← encodeFixed_length value]
      exact (prefix_iff_eq_take.mp hstarts).symm
    simp only [scanFixed, hroom, ↓reduceIte, ← hunread _ hroom, hbytes,
      decodeFixed_encodeFixed]

theorem hasMore_run (hmore : cursor.offset + count ≤ cursor.slice.data.length) :
    hasMore count cursor = .returned (true, cursor) := by
  simp only [hasMore, hmore, decide_true]

theorem hasMore_run_not (hmore : ¬cursor.offset + count ≤ cursor.slice.data.length) :
    hasMore count cursor = .returned (false, cursor) := by
  simp only [hasMore, hmore, decide_false]

theorem scanFixed_returns [FixedWidth α]
    (hinside : cursor.offset + FixedWidth.width α ≤ cursor.slice.data.length) :
    ∃ value, scanFixed α cursor =
      .returned (value, cursor.skip (FixedWidth.width α)) := by
  simp only [scanFixed, hinside, ↓reduceIte]
  exact ⟨_, rfl⟩

/-- A number that is read if there are bytes left for it. -/
theorem optional_returns {yes no : Scan α}
    (hyes : cursor.offset + count ≤ cursor.slice.data.length →
      ∃ result, yes cursor = .returned result)
    (hno : ∃ result, no cursor = .returned result) :
    ∃ result, (do if ← hasMore count then yes else no : Scan α) cursor =
      .returned result := by
  by_cases hmore : cursor.offset + count ≤ cursor.slice.data.length
  · rw [run_bind (hasMore_run hmore)]
    exact hyes hmore
  · rw [run_bind (hasMore_run_not hmore)]
    exact hno

theorem scans_slice (count : Nat) : Scans (scanSlice count) (Layout.slice count) := by
  intro cursor hwithin bytes after
  have hlength : cursor.unread.length =
      cursor.slice.whole.length - cursor.offset := length_drop
  unfold Cursor.Within at hwithin
  constructor
  · intro hrun
    simp only [scanSlice] at hrun
    split at hrun
    · simp only [Outcome.returned.injEq, Prod.mk.injEq] at hrun
      obtain ⟨rfl, rfl⟩ := hrun
      have htaken : (cursor.unread.take count).length = count := by
        rw [length_take]
        omega
      refine ⟨_, ⟨htaken, rfl⟩, ⟨List.take_prefix _ _, Or.inl rfl⟩, ?_⟩
      simp only [Footprint.loose, htaken]
    · cases hrun
  · rintro ⟨_, ⟨rfl, rfl⟩, ⟨hstarts, _⟩, rfl⟩
    simp only [Footprint.loose] at hstarts ⊢
    have hroom : cursor.offset + bytes.length ≤ cursor.slice.whole.length := by
      have hle := hstarts.length_le
      omega
    simp only [scanSlice, hroom, ↓reduceIte, ← prefix_iff_eq_take.mp hstarts]

theorem scans_blob : Scans scanBlob Layout.blob :=
  (scans_fixed UInt32).bind fun count => scans_slice count.toNat

theorem Scans.replicate (hscan : Scans scan layout) (count : Nat) :
    Scans (Program.replicate count scan) (layout.replicate count) := by
  induction count with
  | zero => exact scans_pure []
  | succ count ih =>
    apply hscan.bind
    intro value
    apply ih.bind
    intro values
    exact scans_pure _

/-- A value laid out at the start of the slice is read. -/
theorem Scans.reads (hscan : Scans scan layout) {value : α}
    {footprint : Footprint} (hlayout : layout value footprint)
    (before rest spare : Bytes) :
    scan ⟨⟨before ++ footprint.bytes ++ rest, spare⟩, before.length⟩ =
      .returned (value, ⟨⟨before ++ footprint.bytes ++ rest, spare⟩,
        before.length + footprint.bytes.length⟩) := by
  have hneeded := footprint.needed_le
  apply (hscan _ ?_ _ _).mpr ⟨footprint, hlayout, ⟨?_, ?_⟩, rfl⟩
  · simp only [Cursor.Within, Slice.whole, length_append]
    omega
  · simp only [Cursor.unread, Slice.whole, append_assoc, drop_left]
    exact prefix_append _ _
  · right
    simp only [length_append]
    omega

theorem scanFixed_run [FixedWidth α] (value : α) (before rest spare : Bytes) :
    scanFixed α ⟨⟨before ++ encodeFixed value ++ rest, spare⟩, before.length⟩ =
      .returned (value, ⟨⟨before ++ encodeFixed value ++ rest, spare⟩,
        before.length + FixedWidth.width α⟩) := by
  have hlayout : Layout.fixed α value (Footprint.solid (encodeFixed value)) :=
    rfl
  have hreads := (scans_fixed α).reads hlayout before rest spare
  rwa [Footprint.bytes_solid, encodeFixed_length] at hreads

/-- A scan returns from a cursor exactly if a value is laid out there. -/
theorem Scans.returns_iff (hscan : Scans scan layout) (hwithin : cursor.Within) :
    (∃ result, scan cursor = .returned result) ↔ layout.At cursor := by
  constructor
  · rintro ⟨⟨value, after⟩, hrun⟩
    obtain ⟨footprint, hlayout, hlies, _⟩ :=
      (hscan cursor hwithin value after).mp hrun
    exact ⟨value, footprint, hlayout, hlies⟩
  · rintro ⟨value, footprint, hlayout, hlies⟩
    exact ⟨_, (hscan cursor hwithin value _).mpr ⟨footprint, hlayout, hlies, rfl⟩⟩

end

/-- Within a bound on its size, the writer fills in a footprint of the
value. -/
def Encodes {α : Type} (bound size : Nat) (writer : Writer)
    (layout : Layout α) (value : α) : Prop :=
  size ≤ bound → ∃ footprint, layout value footprint ∧
    footprint.bytes.length = size ∧ Fills writer footprint.bytes

section

variable {α β : Type} {bound : Nat}

theorem encodes_pure (value : α) : Encodes bound 0 (pure ()) (pure value) value :=
  fun _ => ⟨_, ⟨rfl, rfl⟩, rfl, fills_pure⟩

theorem encodes_fixed [FixedWidth α] (value : α) :
    Encodes bound (FixedWidth.width α) (store (encodeFixed value))
      (Layout.fixed α) value :=
  fun _ => ⟨_, rfl, encodeFixed_length value, fills_store _⟩

variable {layout : Layout α}

theorem Encodes.bind {first second : Writer} {front back : Nat}
    {tail : α → Layout β} {value : α} {result : β}
    (hfirst : Encodes bound front first layout value)
    (hsecond : Encodes bound back second (tail value) result) :
    Encodes bound (front + back) (first >>= fun _ => second)
      (layout >>= tail) result := by
  intro hsize
  obtain ⟨head, hhead, hfront, hfills⟩ := hfirst (by omega)
  obtain ⟨rest, hrest, hback, hthen⟩ := hsecond (by omega)
  refine ⟨head.seq rest, ⟨value, head, rest, hhead, hrest, rfl⟩, ?_,
    hfills.bind hthen⟩
  rw [Footprint.bytes_seq, length_append, hfront, hback]

/-- The last field of a record. -/
theorem Encodes.map {writer : Writer} {size : Nat} {value : α}
    (hwriter : Encodes bound size writer layout value) (build : α → β) :
    Encodes bound size writer (layout >>= fun other => pure (build other))
      (build value) := by
  intro hsize
  obtain ⟨footprint, hlayout, hlength, hfills⟩ := hwriter hsize
  exact ⟨footprint, ⟨value, footprint, _, hlayout, ⟨rfl, rfl⟩,
    (Footprint.seq_empty footprint).symm⟩, hlength, hfills⟩

theorem Encodes.forEach {action : α → Writer} {size : α → Nat} {values : List α}
    (haction : ∀ value ∈ values,
      Encodes bound (size value) (action value) layout value) :
    Encodes bound (values.map size).sum (Program.forEach action values)
      (layout.replicate values.length) values := by
  induction values with
  | nil => exact encodes_pure []
  | cons value values ih =>
    simp only [forall_mem_cons] at haction
    exact haction.1.bind ((ih haction.2).map (List.cons value))

end

end Streambus
