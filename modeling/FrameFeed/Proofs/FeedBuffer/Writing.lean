import FrameFeed.Proofs.FeedBuffer.Ring

/-! What the filling of a buffer writes. However far it comes, the bytes that have come off the
stream stand in the storage from the place for the next frame on, and the rest of the storage is as
it was. What a buffer says about its last frame changes only where a filling succeeds. -/

namespace FrameFeed.FeedBuffer

open EStateM (Result)

variable {buffer left filled : FeedBuffer} {cursor after : Cursor} {span : Span} {fault : Fault}

/-- The index at which the buffer takes the next frame. -/
def origin (buffer : FeedBuffer) : Nat :=
  match buffer.mode with
  | .linear => 0
  | .ring => buffer.frameStop

/-! ### Filling that fails -/

/-- A segment that is not written whole has begun to be written. -/
theorem writeSegment_partial {storage written : ByteArray} {index count : Nat} (h : cursor.Exact)
    (hWrite : writeSegment index count (storage, cursor) = .error fault (written, after)) :
    ∃ piece, piece.size ≤ count ∧ cursor.Ahead piece ∧ written = overlay storage index piece := by
  obtain ⟨piece, hBytes, hPiece, hAhead, -⟩ := h.gather_eq count ByteArray.empty
  rw [ByteArray.empty_append] at hBytes
  simp only [writeSegment, hBytes] at hWrite
  split at hWrite
  · cases hWrite
    exact ⟨piece, hPiece, hAhead, rfl⟩
  · split at hWrite <;> cases hWrite
    exact ⟨piece, hPiece, hAhead, rfl⟩

/-- A frame that is not written whole has begun to be written from the place for it on, in its first
part or, after that, in its second. -/
theorem writeFrame_partial {size : Nat} {written : ByteArray} (h : cursor.Exact)
    (hOrigin : buffer.origin ≤ buffer.capacity) (hSize : size ≤ buffer.capacity)
    (hWrite : writeFrame buffer.mode buffer.frameStop buffer.capacity size (buffer.storage, cursor) =
      .error fault (written, after)) :
    ∃ piece, piece.size ≤ size ∧ cursor.Ahead piece ∧
      LaidFrom buffer.storage buffer.origin piece written := by
  cases hMode : buffer.mode with
  | linear =>
    simp only [origin, hMode] at hOrigin ⊢
    simp only [writeFrame, hMode] at hWrite
    rcases error_of_bind hWrite with hOnly | ⟨_, _, -, hRest⟩
    · obtain ⟨piece, hPiece, hAhead, rfl⟩ := writeSegment_partial h hOnly
      exact ⟨piece, hPiece, hAhead, laidFrom_within (by simp only [capacity] at *; omega)⟩
    · cases hRest
  | ring =>
    simp only [origin, hMode] at hOrigin ⊢
    simp only [writeFrame, hMode] at hWrite
    split at hWrite
    · rcases error_of_bind hWrite with hOnly | ⟨_, _, -, hRest⟩
      · obtain ⟨piece, hPiece, hAhead, rfl⟩ := writeSegment_partial h hOnly
        exact ⟨piece, hPiece, hAhead, laidFrom_within (by simp only [capacity] at *; omega)⟩
      · cases hRest
    · rcases error_of_bind hWrite with hFirst | ⟨_, ⟨middle, between⟩, hFirst, hRest⟩
      · obtain ⟨piece, hPiece, hAhead, rfl⟩ := writeSegment_partial h hFirst
        exact ⟨piece, by omega, hAhead, laidFrom_within (by simp only [capacity] at *; omega)⟩
      · rcases error_of_bind hRest with hSecond | ⟨_, _, -, hRest⟩
        · obtain ⟨tail, hTail, hAhead, rfl, hExact, hPosition, hMedium⟩ := writeSegment_ok h hFirst
          obtain ⟨head, hHead, hLater, rfl⟩ := writeSegment_partial hExact hSecond
          refine ⟨tail ++ head, ?_, hAhead.append hLater hMedium (by rw [hPosition, hTail]), ?_⟩
          · rw [ByteArray.size_append]
            omega
          · exact laidFrom_over (by simp only [capacity] at *; omega) (by omega)
        · cases hRest

/-- What a filling has taken off a stream before it failed: the first bytes of the span, none if the
span is larger than the buffer. -/
structure TakenOff (capacity : Nat) (span : Span) (data piece : ByteArray) : Prop where
  piece_eq : piece = data.extract span.start (span.start + piece.size)
  size_le : piece.size ≤ span.size
  refused : capacity < span.size → piece.size = 0

theorem takenOff_empty (capacity : Nat) (span : Span) (data : ByteArray) :
    TakenOff capacity span data ByteArray.empty where
  piece_eq := ByteArray.extract_same.symm
  size_le := Nat.zero_le _
  refused _ := rfl

/-- A filling that fails leaves all that the buffer says about its last frame. The bytes that it has
taken off the stream are in the storage from the place for the next frame on. -/
theorem fill_left (hOrigin : buffer.origin ≤ buffer.capacity)
    (h : fill span (buffer, cursor) = .error fault (left, after)) :
    ∃ piece, TakenOff buffer.capacity span cursor.source.medium.data piece ∧
      LaidFrom buffer.storage buffer.origin piece left.storage ∧
      left = { buffer with storage := left.storage } := by
  rcases fill_error_cases h with
    ⟨-, -, rfl, -⟩ | ⟨hFits, -, rfl | ⟨reached, moved, written, hSeek, hWrite, rfl⟩⟩
  · exact ⟨ByteArray.empty, takenOff_empty _ _ _, laidFrom_empty _ _, rfl⟩
  · exact ⟨ByteArray.empty, takenOff_empty _ _ _, laidFrom_empty _ _, rfl⟩
  · obtain ⟨piece, hPiece, hAhead, hLaid⟩ :=
      writeFrame_partial (Cursor.exact_seek hSeek) hOrigin hFits hWrite
    refine ⟨piece, ⟨ahead_seek hSeek hAhead, hPiece, fun hLarge => ?_⟩, hLaid, rfl⟩
    exact absurd hFits (Nat.not_le.mpr hLarge)

/-- A filling is refused for want of room just where the span is larger than the buffer, and then
nothing has happened. -/
theorem fill_refused_iff (buffer : FeedBuffer) (cursor : Cursor) (span : Span) :
    ((∃ fault, resultOf (fill span (buffer, cursor)) = .error fault ∧
        fault.kind = .needLargerBuffer) ↔ buffer.capacity < span.size) ∧
      (buffer.capacity < span.size → fill span (buffer, cursor) =
        .error (.needLargerBuffer span.size buffer.capacity) (buffer, cursor)) := by
  have hRefuse : buffer.capacity < span.size → fill span (buffer, cursor) =
      .error (.needLargerBuffer span.size buffer.capacity) (buffer, cursor) := fun hLarge => by
    rw [fill, if_pos hLarge]
  refine ⟨⟨?_, fun hLarge => ⟨_, congrArg resultOf (hRefuse hLarge), rfl⟩⟩, hRefuse⟩
  rintro ⟨fault, hResult, hKind⟩
  obtain ⟨⟨left, after⟩, hFill⟩ := error_of_resultOf hResult
  rcases fill_error_cases hFill with ⟨hLarge, -⟩ | ⟨-, hIo, -⟩
  · exact hLarge
  · cases hKind.symm.trans hIo

/-! ### Filling that succeeds -/

/-- A linear buffer takes a frame at its start. -/
theorem fill_ok_linear {count : Nat} (hMode : buffer.mode = .linear)
    (h : fill span (buffer, cursor) = .ok count (filled, after)) :
    let bytes := span.bytes cursor.source.medium.data
    filled = { buffer with
      storage := overlay buffer.storage 0 bytes
      frameStart := 0, frameStop := bytes.size, lastSize := bytes.size } ∧
    bytes.size ≤ buffer.capacity := by
  obtain ⟨hFits, reached, moved, start, stop, written, hSeek, hWrite, rfl⟩ := fill_ok_steps h
  simp only [writeFrame, hMode] at hWrite
  obtain ⟨_, ⟨written', last⟩, hOnly, hRest⟩ := ok_of_bind hWrite
  cases hRest
  obtain ⟨piece, hSize, hAhead, rfl, -⟩ := writeSegment_ok (Cursor.exact_seek hSeek) hOnly
  simp only [← bytes_of_ahead hSeek hAhead hSize, hSize]
  exact ⟨trivial, hFits⟩

/-! ### Buffers that come about -/

/-- A filling that has failed: the span, and the data that it should have come from. -/
structure Attempt where
  span : Span
  data : ByteArray

/-- Buffers that come about by calls, whatever the cursors are that the frames come from. `frame` is
the last frame that has been taken since the buffer last held none, and `failed` are the attempts to
fill the buffer that have failed since then. -/
inductive Past : FeedBuffer → (frame : ByteArray) → (failed : List Attempt) → Prop
  | made (storage : ByteArray) (mode : FeedMode) (address : Nat) :
      Past { storage, mode, address } ByteArray.empty []
  | addressed {buffer : FeedBuffer} {frame : ByteArray} {failed : List Attempt} (address : Nat) :
      Past buffer frame failed → Past { buffer with address } frame failed
  | emptied {buffer : FeedBuffer} {frame : ByteArray} {failed : List Attempt} :
      Past buffer frame failed → Past buffer.reset ByteArray.empty []
  | grown {buffer : FeedBuffer} {frame : ByteArray} {failed : List Attempt} {required : Nat} :
      Past buffer frame failed → buffer.capacity < required →
      Past (buffer.grow required) ByteArray.empty []
  | roomy {buffer : FeedBuffer} {frame : ByteArray} {failed : List Attempt} {required : Nat} :
      Past buffer frame failed → required ≤ buffer.capacity →
      Past (buffer.grow required) frame failed
  | taken {buffer filled : FeedBuffer} {frame : ByteArray} {failed : List Attempt} {span : Span}
      {count : Nat} {cursor after : Cursor} :
      Past buffer frame failed → fill span (buffer, cursor) = .ok count (filled, after) →
      Past filled (span.bytes cursor.source.medium.data) []
  | failed {buffer left : FeedBuffer} {frame : ByteArray} {failed : List Attempt} {span : Span}
      {fault : Fault} {cursor after : Cursor} :
      Past buffer frame failed → fill span (buffer, cursor) = .error fault (left, after) →
      Past left frame (failed ++ [⟨span, cursor.source.medium.data⟩])

theorem Past.taken_of_ok {frame bytes : ByteArray} {failed : List Attempt}
    (h : Past buffer frame failed) (hFill : (resultOf (fill span (buffer, cursor))).isOk)
    (hBytes : span.bytes cursor.source.medium.data = bytes) :
    Past (stateOf (fill span (buffer, cursor))).1 bytes [] := by
  subst hBytes
  cases hResult : fill span (buffer, cursor) with
  | ok => exact h.taken hResult
  | error =>
    rw [hResult] at hFill
    cases hFill

theorem Past.failed_of_not_ok {frame data : ByteArray} {failed : List Attempt}
    (h : Past buffer frame failed) (hFill : (resultOf (fill span (buffer, cursor))).isOk = false)
    (hData : cursor.source.medium.data = data) :
    Past (stateOf (fill span (buffer, cursor))).1 frame (failed ++ [⟨span, data⟩]) := by
  subst hData
  cases hResult : fill span (buffer, cursor) with
  | ok =>
    rw [hResult] at hFill
    cases hFill
  | error => exact h.failed hResult

/-- How far the last frame begins behind the place for the next one, round the end. -/
def gap (buffer : FeedBuffer) : Nat :=
  match buffer.mode with
  | .linear => 0
  | .ring => buffer.capacity - buffer.lastSize

/-- The last frame and the place for the next one lie in the buffer. -/
structure Placed (buffer : FeedBuffer) : Prop where
  frameStop_le : buffer.frameStop ≤ buffer.capacity
  origin_lt : buffer.capacity ≠ 0 → buffer.origin < buffer.capacity
  lastSize_le : buffer.lastSize ≤ buffer.capacity
  frameStart_eq : buffer.frameStart = (buffer.origin + buffer.gap) % buffer.capacity

theorem Placed.origin_le (h : buffer.Placed) : buffer.origin ≤ buffer.capacity := by
  unfold origin
  split
  · exact Nat.zero_le _
  · exact h.frameStop_le

theorem placed_empty (hStart : buffer.frameStart = 0) (hStop : buffer.frameStop = 0)
    (hLast : buffer.lastSize = 0) : buffer.Placed := by
  have hOrigin : buffer.origin = 0 := by
    unfold origin
    split
    · rfl
    · exact hStop
  refine ⟨hStop ▸ Nat.zero_le _, fun hSome => hOrigin ▸ Nat.pos_of_ne_zero hSome,
    hLast ▸ Nat.zero_le _, ?_⟩
  rw [hStart, hOrigin, gap, hLast]
  split <;> simp

theorem placed_overlay {bytes : ByteArray} (hMode : buffer.mode = .linear)
    (hSize : bytes.size ≤ buffer.capacity) :
    Placed { buffer with
      storage := overlay buffer.storage 0 bytes
      frameStart := 0, frameStop := bytes.size, lastSize := bytes.size } := by
  have hCapacity : (overlay buffer.storage 0 bytes).size = buffer.capacity :=
    size_overlay (by rw [Nat.zero_add]; exact hSize)
  constructor
  · exact Nat.le_trans hSize (Nat.le_of_eq hCapacity.symm)
  · simp only [origin, hMode]
    exact Nat.pos_of_ne_zero
  · exact Nat.le_trans hSize (Nat.le_of_eq hCapacity.symm)
  · simp only [origin, gap, hMode, Nat.add_zero, Nat.zero_mod]

theorem Placed.put (h : buffer.Placed) {bytes : ByteArray} (hMode : buffer.mode = .ring)
    (hSize : bytes.size ≤ buffer.capacity) : (buffer.put bytes).Placed := by
  have hPlace := h.frameStop_le
  have hInside := h.origin_lt
  simp only [origin, hMode] at hInside
  have hNext := frameStop_put_cases hPlace bytes
  have hMode' := (mode_put buffer bytes).trans hMode
  constructor <;> simp only [origin, gap, hMode', capacity_put hPlace hSize, lastSize_put]
  · omega
  · omega
  · exact hSize
  -- From where the new frame ends, the rest of the way round leads to where it begins.
  · rw [frameStart_put]
    by_cases hNone : buffer.capacity = 0
    · rw [hNone, Nat.mod_zero]
      omega
    · rcases hNext with ⟨hRoom, hNext⟩ | ⟨hRoom, hNext⟩
      · rw [hNext, show buffer.frameStop + bytes.size + (buffer.capacity - bytes.size) =
          buffer.frameStop + buffer.capacity by omega, Nat.add_mod_right,
          Nat.mod_eq_of_lt (hInside hNone)]
      · rw [hNext, show buffer.frameStop + bytes.size - buffer.capacity +
          (buffer.capacity - bytes.size) = buffer.frameStop by omega,
          Nat.mod_eq_of_lt (hInside hNone)]

/-- A frame that has been taken is in the storage from the place for it on. -/
theorem Placed.taken (h : buffer.Placed) {count : Nat}
    (hFill : fill span (buffer, cursor) = .ok count (filled, after)) :
    let bytes := span.bytes cursor.source.medium.data
    filled.Placed ∧ LaidFrom buffer.storage buffer.origin bytes filled.storage ∧
      filled.mode = buffer.mode ∧ filled.lastSize = bytes.size ∧
      filled.frameStart = buffer.origin ∧ bytes.size ≤ buffer.capacity := by
  cases hMode : buffer.mode with
  | linear =>
    have hOrigin : buffer.origin = 0 := by simp only [origin, hMode]
    obtain ⟨rfl, hSize⟩ := fill_ok_linear hMode hFill
    rw [hOrigin]
    exact ⟨placed_overlay hMode hSize, laidFrom_within (by rw [Nat.zero_add]; exact hSize), hMode,
      rfl, rfl, hSize⟩
  | ring =>
    have hOrigin : buffer.origin = buffer.frameStop := by simp only [origin, hMode]
    obtain ⟨rfl, hSize⟩ := fill_ok hMode hFill
    rw [hOrigin]
    exact ⟨h.put hMode hSize, laidFrom_put h.frameStop_le hSize,
      (mode_put buffer _).trans hMode, lastSize_put buffer _, frameStart_put buffer _, hSize⟩

variable {frame : ByteArray} {failed : List Attempt}

theorem Placed.kept (h : buffer.Placed)
    (hFill : fill span (buffer, cursor) = .error fault (left, after)) :
    left.Placed ∧ left.capacity = buffer.capacity := by
  obtain ⟨piece, -, hLaid, hLeft⟩ := fill_left h.origin_le hFill
  have hCapacity : left.capacity = buffer.capacity := hLaid.size_eq
  rw [hLeft] at hCapacity ⊢
  refine ⟨⟨?_, ?_, ?_, ?_⟩, hCapacity⟩
  · rw [hCapacity]; exact h.frameStop_le
  · rw [hCapacity]; exact h.origin_lt
  · rw [hCapacity]; exact h.lastSize_le
  · simp only [gap, hCapacity]; exact h.frameStart_eq

theorem Placed.grow (h : buffer.Placed) (required : Nat) : (buffer.grow required).Placed := by
  by_cases hRequired : required ≤ buffer.capacity
  · rw [grow_of_le hRequired]
    exact h
  · rw [grow_of_lt (Nat.not_le.mp hRequired)]
    exact placed_empty rfl rfl rfl

theorem Past.placed (h : Past buffer frame failed) : buffer.Placed := by
  induction h with
  | made => exact placed_empty rfl rfl rfl
  | addressed _ _ ih => exact ⟨ih.frameStop_le, ih.origin_lt, ih.lastSize_le, ih.frameStart_eq⟩
  | emptied => exact placed_empty rfl rfl rfl
  | grown _ _ ih => exact ih.grow _
  | roomy _ _ ih => exact ih.grow _
  | taken _ hFill ih => exact (ih.taken hFill).1
  | failed _ hFill ih => exact (ih.kept hFill).1

/-! ### The target of a filling -/

/-- The indices that a frame of a size is written to: the first ones of a linear buffer, and those
of a ring that follow one another round it from the place for the next frame on. -/
def InTarget (buffer : FeedBuffer) (size index : Nat) : Prop :=
  (buffer.mode = .linear ∧ index < size) ∨
    (buffer.mode = .ring ∧ ∃ place < size, index = (buffer.frameStop + place) % buffer.capacity)

instance (buffer : FeedBuffer) (size index : Nat) : Decidable (buffer.InTarget size index) :=
  inferInstanceAs (Decidable (_ ∨ _))

theorem inTarget_of_place {size place : Nat} (hSize : size ≤ buffer.capacity)
    (hPlace : place < size) :
    buffer.InTarget size ((buffer.origin + place) % buffer.capacity) := by
  cases hMode : buffer.mode with
  | linear =>
    rw [origin, hMode, Nat.zero_add, Nat.mod_eq_of_lt (by omega)]
    exact .inl ⟨hMode, hPlace⟩
  | ring =>
    rw [origin, hMode]
    exact .inr ⟨hMode, place, hPlace, rfl⟩

/-- A piece that is no longer than a frame leaves what is outside of the frame's target. -/
theorem LaidFrom.outside_target {piece storage : ByteArray} {size index : Nat}
    (h : LaidFrom buffer.storage buffer.origin piece storage)
    (hOrigin : buffer.origin ≤ buffer.capacity) (hPiece : piece.size ≤ size)
    (hSize : size ≤ buffer.capacity) (hIndex : ¬buffer.InTarget size index) :
    storage[index]? = buffer.storage[index]? := by
  by_cases hIn : index < buffer.capacity
  · obtain ⟨place, hPlace, rfl⟩ := exists_place hOrigin hIn
    refine h.outside place hPlace (Nat.le_trans hPiece (Nat.not_lt.mp fun hInside => ?_))
    exact hIndex (inTarget_of_place hSize hInside)
  · have hOut : ¬index < storage.size := by
      rw [h.size_eq]
      exact hIn
    rw [getElem?_neg buffer.storage index hIn, getElem?_neg storage index hOut]

/-- Filling a buffer that has come about by any calls touches only its target, and where it fails
nothing that the buffer says changes. It is refused for want of room just where the span is larger
than the buffer; then nothing at all has happened, to the buffer or to the cursor. -/
theorem fill_touches_target (h : Past buffer frame failed) (span : Span) (cursor : Cursor) :
    let outcome := fill span (buffer, cursor)
    let left := (stateOf outcome).1
    (∀ fault, resultOf outcome = .error fault →
      left = { buffer with storage := left.storage } ∧ left.capacity = buffer.capacity) ∧
    ((∃ fault, resultOf outcome = .error fault ∧ fault.kind = .needLargerBuffer) ↔
      buffer.capacity < span.size) ∧
    (buffer.capacity < span.size →
      outcome = .error (.needLargerBuffer span.size buffer.capacity) (buffer, cursor)) ∧
    (span.size ≤ buffer.capacity → left.capacity = buffer.capacity ∧
      ∀ index, ¬buffer.InTarget span.size index →
        left.storage[index]? = buffer.storage[index]?) := by
  have hPlaced := h.placed
  obtain ⟨hRefused, hUntouched⟩ := fill_refused_iff buffer cursor span
  refine ⟨?_, hRefused, hUntouched, ?_⟩
  · intro fault hFault
    obtain ⟨⟨left, after⟩, hFill⟩ := error_of_resultOf hFault
    obtain ⟨piece, -, hLaid, hLeft⟩ := fill_left hPlaced.origin_le hFill
    rw [hFill]
    exact ⟨hLeft, hLaid.size_eq⟩
  · intro hFits
    cases hFill : fill span (buffer, cursor) with
    | ok count state =>
      obtain ⟨-, hLaid, -, -, -, hSize⟩ := hPlaced.taken hFill
      have hPiece : (span.bytes cursor.source.medium.data).size ≤ span.size := by
        rw [Span.bytes, ByteArray.size_extract, Span.size]
        omega
      exact ⟨hLaid.size_eq, fun index hIndex =>
        hLaid.outside_target hPlaced.origin_le hPiece hFits hIndex⟩
    | error fault state =>
      obtain ⟨piece, hTaken, hLaid, -⟩ := fill_left hPlaced.origin_le hFill
      exact ⟨hLaid.size_eq, fun index hIndex =>
        hLaid.outside_target hPlaced.origin_le hTaken.size_le hFits hIndex⟩

theorem past_threeTaken : Past threeTaken ⟨#[1, 2, 3]⟩ [] :=
  (Past.made (filled 0 4) .ring 0).taken_of_ok (by decide +kernel) (by decide +kernel)

/-- Six bytes on a medium that fails behind the second one. -/
def sixBytesFailing : Cursor := .ofMedium (.ofFlaky ⟨#[1, 2, 3, 4, 5, 6]⟩ (some 6) none (some 2)) 16

/-- The filling fails in the second part of the frame, behind the first byte of it. Of the ring,
only the third byte is outside of the target. -/
theorem fill_touches_target_threeTaken :
    let outcome := fill ⟨0, 3⟩ (threeTaken, sixBytesFailing)
    let left := (stateOf outcome).1
    resultOf outcome = .error (.io (.device "bad sector")) ∧
      left = { threeTaken with storage := ⟨#[2, 2, 3, 1]⟩ } ∧
      left.storage[2]? = threeTaken.storage[2]? := by
  obtain ⟨hKept, -, -, hOutside⟩ := fill_touches_target past_threeTaken ⟨0, 3⟩ sixBytesFailing
  have hFault : resultOf (fill ⟨0, 3⟩ (threeTaken, sixBytesFailing)) =
      .error (.io (.device "bad sector")) :=
    error_of_failureOf (by decide +kernel)
  have hStorage : (stateOf (fill ⟨0, 3⟩ (threeTaken, sixBytesFailing))).1.storage =
      ⟨#[2, 2, 3, 1]⟩ := by decide +kernel
  obtain ⟨hLeft, -⟩ := hKept _ hFault
  rw [hStorage] at hLeft
  exact ⟨hFault, hLeft, (hOutside (by decide +kernel)).2 2 (by decide +kernel)⟩

end FrameFeed.FeedBuffer
