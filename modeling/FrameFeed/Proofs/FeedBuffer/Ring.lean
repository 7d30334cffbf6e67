import FrameFeed.Proofs.Cursor.Gathering
import FrameFeed.Proofs.FeedBuffer.Storage
import FrameFeed.Proofs.Tiling

/-! The layout of a ring. Frames go into a ring one after another, each byte at its place among all
bytes that have been fed, counted round the ring. This holds of every sequence of frames that are
taken or refused, whatever the cursors are that they come from. -/

namespace FrameFeed

theorem Span.bytes_eq (data : ByteArray) (span : Span) :
    span.bytes data = data.extract span.start (span.start + span.size) := by
  unfold bytes size
  by_cases hEmpty : span.stop ≤ span.start
  · rw [Nat.sub_eq_zero_of_le hEmpty, Nat.add_zero, ByteArray.extract_same,
      ByteArray.extract_eq_empty_iff]
    omega
  · rw [Nat.add_sub_of_le (by omega)]

namespace FeedBuffer

open EStateM (Result)

variable {buffer : FeedBuffer} {cursor : Cursor} {bytes : ByteArray}

/-! ### One frame -/

/-- The ring with one more frame. The frame begins where the last one ended, and what has no room
there before the end of the storage goes to its start. -/
def put (buffer : FeedBuffer) (bytes : ByteArray) : FeedBuffer :=
  if bytes.size < buffer.capacity - buffer.frameStop then
    { buffer with
      storage := overlay buffer.storage buffer.frameStop bytes
      frameStart := buffer.frameStop
      frameStop := buffer.frameStop + bytes.size
      lastSize := bytes.size }
  else
    { buffer with
      storage := overlay
        (overlay buffer.storage buffer.frameStop
          (bytes.extract 0 (buffer.capacity - buffer.frameStop)))
        0 (bytes.extract (buffer.capacity - buffer.frameStop) bytes.size)
      frameStart := buffer.frameStop
      frameStop := bytes.size - (buffer.capacity - buffer.frameStop)
      lastSize := bytes.size }

/-- A segment that is written whole holds the next bytes of the data. -/
theorem writeSegment_ok {storage written : ByteArray} {index count : Nat} {after : Cursor}
    (h : cursor.Exact)
    (hWrite : writeSegment index count (storage, cursor) = .ok () (written, after)) :
    ∃ piece, piece.size = count ∧ cursor.Ahead piece ∧ written = overlay storage index piece ∧
      after.Exact ∧ after.position = cursor.position + count ∧
      after.source.medium = cursor.source.medium := by
  obtain ⟨piece, hBytes, hPiece, hAhead, hAfter⟩ := h.gather_eq count ByteArray.empty
  have hExact := h.gather count ByteArray.empty
  have hMedium := Cursor.medium_gather count ByteArray.empty cursor
  rw [ByteArray.empty_append] at hBytes
  simp only [writeSegment, hBytes] at hWrite
  split at hWrite
  · cases hWrite
  · rename_i hNone
    split at hWrite
    · cases hWrite
    · cases hWrite
      have hSize : piece.size = count := by omega
      exact ⟨piece, hSize, hAhead, rfl, hExact, hSize ▸ hAfter hNone, hMedium⟩

theorem writeSegment_error {storage : ByteArray} {index count : Nat} {fault : Fault}
    {after : Feeding} (h : writeSegment index count (storage, cursor) = .error fault after) :
    fault.kind = .io := by
  simp only [writeSegment] at h
  split at h
  · rename_i hFault
    cases h
    obtain ⟨cause, rfl⟩ := Cursor.gather_fault hFault
    rfl
  · split at h
    · cases h
      rfl
    · cases h

theorem writeFrame_error {mode : FeedMode} {start capacity size : Nat} {feeding after : Feeding}
    {fault : Fault} (h : writeFrame mode start capacity size feeding = .error fault after) :
    fault.kind = .io := by
  cases mode with
  | linear =>
    simp only [writeFrame] at h
    rcases error_of_bind h with hWrite | ⟨_, _, -, hRest⟩
    · exact writeSegment_error hWrite
    · cases hRest
  | ring =>
    simp only [writeFrame] at h
    split at h
    · rcases error_of_bind h with hWrite | ⟨_, _, -, hRest⟩
      · exact writeSegment_error hWrite
      · cases hRest
    · rcases error_of_bind h with hFirst | ⟨_, _, -, hRest⟩
      · exact writeSegment_error hFirst
      · rcases error_of_bind hRest with hSecond | ⟨_, _, -, hRest⟩
        · exact writeSegment_error hSecond
        · cases hRest

/-- A frame that is written whole into a ring is the next piece of the data. -/
theorem writeFrame_ring {start size stop : Nat} {written : ByteArray} {after : Cursor}
    (h : cursor.Exact)
    (hWrite : writeFrame .ring buffer.frameStop buffer.capacity size (buffer.storage, cursor) =
      .ok (start, stop) (written, after)) :
    ∃ piece, piece.size = size ∧ cursor.Ahead piece ∧ { buffer with
      storage := written, frameStart := start, frameStop := stop, lastSize := size } =
        buffer.put piece := by
  simp only [writeFrame] at hWrite
  split at hWrite
  · rename_i hRoom
    obtain ⟨_, ⟨written', after'⟩, hFirst, hRest⟩ := ok_of_bind hWrite
    cases hRest
    obtain ⟨piece, hSize, hAhead, rfl, -⟩ := writeSegment_ok h hFirst
    refine ⟨piece, hSize, hAhead, ?_⟩
    rw [put, if_pos (by omega), hSize]
  · rename_i hRoom
    obtain ⟨_, ⟨middle, between⟩, hFirst, hRest⟩ := ok_of_bind hWrite
    obtain ⟨_, ⟨written', after'⟩, hSecond, hRest⟩ := ok_of_bind hRest
    cases hRest
    obtain ⟨tail, hTail, hAhead, rfl, hExact, hPosition, hMedium⟩ := writeSegment_ok h hFirst
    obtain ⟨head, hHead, hLater, rfl, -⟩ := writeSegment_ok hExact hSecond
    have hSize : (tail ++ head).size = size := by
      rw [ByteArray.size_append]
      omega
    refine ⟨tail ++ head, hSize, hAhead.append hLater hMedium (by rw [hPosition, hTail]), ?_⟩
    rw [put, if_neg (by omega), ← hTail, ByteArray.extract_append_eq_left rfl,
      ByteArray.extract_append_eq_right rfl ByteArray.size_append, hTail, hSize]

/-- What comes next after a seek to the start of a span is the data from there on. -/
theorem ahead_seek {start reached : Nat} {moved : Cursor}
    (hSeek : Cursor.seek (.fromStart start) cursor = .ok reached moved) (h : moved.Ahead bytes) :
    bytes = cursor.source.medium.data.extract start (start + bytes.size) := by
  rw [← Cursor.reached_seek_fromStart hSeek, ← (Cursor.unread_seek hSeek).2,
    ← Cursor.medium_seek hSeek]
  exact h

section Fill

variable {span : Span} {count reached : Nat} {filled left : FeedBuffer} {moved after : Cursor}
  {fault : Fault}

theorem bytes_of_ahead (hSeek : Cursor.seek (.fromStart span.start) cursor = .ok reached moved)
    (h : moved.Ahead bytes) (hSize : bytes.size = span.size) :
    bytes = span.bytes cursor.source.medium.data := by
  rw [Span.bytes_eq, ← hSize]
  exact ahead_seek hSeek h

/-- A filling that succeeds has gone to the start of the span and written the frame whole. -/
theorem fill_ok_steps (h : fill span (buffer, cursor) = .ok count (filled, after)) :
    span.size ≤ buffer.capacity ∧ ∃ reached moved start stop written,
      Cursor.seek (.fromStart span.start) cursor = .ok reached moved ∧
      writeFrame buffer.mode buffer.frameStop buffer.capacity span.size (buffer.storage, moved) =
        .ok (start, stop) (written, after) ∧
      filled = { buffer with
        storage := written, frameStart := start, frameStop := stop, lastSize := span.size } := by
  simp only [fill] at h
  split at h
  · cases h
  · rename_i hFits
    split at h
    · cases h
    · rename_i reached moved hSeek
      split at h
      · rename_i start stop written last hWrite
        cases h
        exact ⟨Nat.not_lt.mp hFits, reached, moved, start, stop, written, hSeek, hWrite, rfl⟩
      · cases h

/-- A filling fails for want of room, before anything has happened, or because the stream fails,
before the frame is written or in the middle of it. -/
theorem fill_error_cases (h : fill span (buffer, cursor) = .error fault (left, after)) :
    (buffer.capacity < span.size ∧ fault = .needLargerBuffer span.size buffer.capacity ∧
      left = buffer ∧ after = cursor) ∨
    (span.size ≤ buffer.capacity ∧ fault.kind = .io ∧
      (left = buffer ∨ ∃ reached moved written,
        Cursor.seek (.fromStart span.start) cursor = .ok reached moved ∧
        writeFrame buffer.mode buffer.frameStop buffer.capacity span.size (buffer.storage, moved) =
          .error fault (written, after) ∧
        left = { buffer with storage := written })) := by
  simp only [fill] at h
  split at h
  · rename_i hLarge
    cases h
    exact .inl ⟨hLarge, rfl, rfl, rfl⟩
  · rename_i hFits
    refine .inr ⟨Nat.not_lt.mp hFits, ?_⟩
    split at h
    · rename_i hSeek
      cases h
      simp only [Cursor.seek] at hSeek
      split at hSeek <;> cases hSeek
      exact ⟨rfl, .inl rfl⟩
    · rename_i reached moved hSeek
      split at h
      · cases h
      · rename_i written last hWrite
        cases h
        exact ⟨writeFrame_error hWrite, .inr ⟨reached, moved, written, hSeek, hWrite, rfl⟩⟩

theorem fill_ok (hMode : buffer.mode = .ring)
    (h : fill span (buffer, cursor) = .ok count (filled, after)) :
    filled = buffer.put (span.bytes cursor.source.medium.data) ∧
      (span.bytes cursor.source.medium.data).size ≤ buffer.capacity := by
  obtain ⟨hFits, reached, moved, start, stop, written, hSeek, hWrite, rfl⟩ := fill_ok_steps h
  rw [hMode] at hWrite
  obtain ⟨piece, hSize, hAhead, hPut⟩ := writeFrame_ring (Cursor.exact_seek hSeek) hWrite
  rw [← bytes_of_ahead hSeek hAhead hSize, hSize]
  exact ⟨hPut, hFits⟩

/-- A frame that is refused for want of room leaves the ring as it is. -/
theorem fill_refused (h : fill span (buffer, cursor) = .error fault (left, after))
    (hKind : fault.kind = .needLargerBuffer) : left = buffer := by
  rcases fill_error_cases h with ⟨-, -, hLeft, -⟩ | ⟨-, hIo, -⟩
  · exact hLeft
  · cases hKind.symm.trans hIo

end Fill

/-! ### Places in the ring -/

section Put

variable {place : Nat}

theorem mode_put (buffer : FeedBuffer) (bytes : ByteArray) :
    (buffer.put bytes).mode = buffer.mode := by
  unfold put
  split <;> rfl

theorem frameStart_put (buffer : FeedBuffer) (bytes : ByteArray) :
    (buffer.put bytes).frameStart = buffer.frameStop := by
  unfold put
  split <;> rfl

theorem lastSize_put (buffer : FeedBuffer) (bytes : ByteArray) :
    (buffer.put bytes).lastSize = bytes.size := by
  unfold put
  split <;> rfl

/-- The sizes of what is written where a frame reaches the end of the ring: its two parts, and the
storage after the first one. -/
theorem size_parts (hStop : buffer.frameStop ≤ buffer.capacity)
    (hRoom : buffer.capacity - buffer.frameStop ≤ bytes.size) :
    (bytes.extract 0 (buffer.capacity - buffer.frameStop)).size =
        buffer.capacity - buffer.frameStop ∧
      (bytes.extract (buffer.capacity - buffer.frameStop) bytes.size).size =
        bytes.size - (buffer.capacity - buffer.frameStop) ∧
      (overlay buffer.storage buffer.frameStop
        (bytes.extract 0 (buffer.capacity - buffer.frameStop))).size = buffer.capacity := by
  refine ⟨by rw [ByteArray.size_extract]; omega, by rw [ByteArray.size_extract]; omega, ?_⟩
  apply size_overlay
  rw [ByteArray.size_extract]
  simp only [capacity] at *
  omega

theorem capacity_put (hStop : buffer.frameStop ≤ buffer.capacity)
    (hSize : bytes.size ≤ buffer.capacity) : (buffer.put bytes).capacity = buffer.capacity := by
  unfold put
  split
  · exact size_overlay (by simp only [capacity] at *; omega)
  · rename_i hRoom
    obtain ⟨hTail, hHead, hFirst⟩ := size_parts hStop (Nat.not_lt.mp hRoom)
    exact (size_overlay (by omega)).trans hFirst

theorem frameStop_put_cases (hStop : buffer.frameStop ≤ buffer.capacity) (bytes : ByteArray) :
    (buffer.frameStop + bytes.size < buffer.capacity ∧
        (buffer.put bytes).frameStop = buffer.frameStop + bytes.size) ∨
      (buffer.capacity ≤ buffer.frameStop + bytes.size ∧
        (buffer.put bytes).frameStop = buffer.frameStop + bytes.size - buffer.capacity) := by
  unfold put
  split
  · exact .inl ⟨by omega, rfl⟩
  · refine .inr ⟨by omega, ?_⟩
    show bytes.size - (buffer.capacity - buffer.frameStop) = _
    omega

theorem frameStop_put (hStop : buffer.frameStop < buffer.capacity)
    (hSize : bytes.size ≤ buffer.capacity) :
    (buffer.put bytes).frameStop = (buffer.frameStop + bytes.size) % buffer.capacity := by
  rcases frameStop_put_cases (Nat.le_of_lt hStop) bytes with ⟨hRoom, hNext⟩ | ⟨hRoom, hNext⟩
  · rw [hNext, Nat.mod_eq_of_lt hRoom]
  · rw [hNext, Nat.mod_eq_sub_mod hRoom, Nat.mod_eq_of_lt (by omega)]

/-- The bytes of a frame follow one another round the ring, and what lies behind them on the way
round is what was there before. -/
theorem laidFrom_put (hStop : buffer.frameStop ≤ buffer.capacity)
    (hSize : bytes.size ≤ buffer.capacity) :
    LaidFrom buffer.storage buffer.frameStop bytes (buffer.put bytes).storage := by
  unfold put
  split
  · exact laidFrom_within (by simp only [capacity] at *; omega)
  · rename_i hRoom
    obtain ⟨hTail, hHead, -⟩ := size_parts hStop (Nat.not_lt.mp hRoom)
    have hParts : bytes.extract 0 (buffer.capacity - buffer.frameStop) ++
        bytes.extract (buffer.capacity - buffer.frameStop) bytes.size = bytes := by
      rw [← ByteArray.extract_eq_extract_append_extract _ (Nat.zero_le _) (Nat.not_lt.mp hRoom),
        ByteArray.extract_zero_size]
    have hEnd : buffer.frameStop +
        (bytes.extract 0 (buffer.capacity - buffer.frameStop)).size = buffer.storage.size := by
      rw [hTail]
      exact Nat.add_sub_of_le hStop
    have hLow : (bytes.extract (buffer.capacity - buffer.frameStop) bytes.size).size ≤
        buffer.frameStop := by
      rw [hHead]
      omega
    have hLaid := laidFrom_over hEnd hLow
    rwa [hParts] at hLaid

end Put

/-- The two parts of the last frame are read round the ring. -/
theorem frameBytes_eq_of_storage (hStart : buffer.frameStart < buffer.capacity)
    (hLast : buffer.lastSize ≤ buffer.capacity) (hSize : bytes.size = buffer.lastSize)
    (hStorage : ∀ place < buffer.lastSize,
      buffer.storage[(buffer.frameStart + place) % buffer.capacity]? = bytes[place]?) :
    buffer.frameBytes = bytes := by
  unfold frameBytes
  by_cases hWithin : buffer.frameStart + buffer.lastSize ≤ buffer.capacity
  · rw [segments_within hWithin, ByteArray.append_empty]
    have hPiece := extract_eq_extract hWithin (show 0 + buffer.lastSize ≤ bytes.size by omega)
      fun place hPlace => by
        rw [Nat.zero_add, ← hStorage place hPlace, Nat.mod_eq_of_lt (by omega)]
    rw [Nat.zero_add, ← hSize, ByteArray.extract_zero_size, hSize] at hPiece
    exact hPiece
  · have hTail := extract_eq_extract
      (show buffer.frameStart + (buffer.capacity - buffer.frameStart) ≤ buffer.capacity by omega)
      (show 0 + (buffer.capacity - buffer.frameStart) ≤ bytes.size by omega)
      fun place hPlace => by
        rw [Nat.zero_add, ← hStorage place (by omega), Nat.mod_eq_of_lt (by omega)]
    have hHead := extract_eq_extract
      (show 0 + (buffer.lastSize - (buffer.capacity - buffer.frameStart)) ≤ buffer.capacity
        by omega)
      (show buffer.capacity - buffer.frameStart +
        (buffer.lastSize - (buffer.capacity - buffer.frameStart)) ≤ bytes.size by omega)
      fun place hPlace => by
        rw [Nat.zero_add, ← hStorage _ (by omega), Nat.mod_eq_sub_mod (by omega),
          Nat.mod_eq_of_lt (by omega)]
        rw [show buffer.frameStart + (buffer.capacity - buffer.frameStart + place) -
          buffer.capacity = place by omega]
    rw [Nat.add_sub_of_le (Nat.le_of_lt hStart), Nat.zero_add] at hTail
    rw [Nat.add_sub_of_le (by omega), Nat.zero_add, ← hSize] at hHead
    rw [segments_over (by omega), hTail, ← hSize, hHead,
      ← ByteArray.extract_eq_extract_append_extract _ (Nat.zero_le _) (by omega),
      ByteArray.extract_zero_size]

theorem size_head (hStart : buffer.frameStart < buffer.capacity)
    (hLast : buffer.lastSize ≤ buffer.capacity) :
    buffer.segments.2.size = buffer.frameStart + buffer.lastSize - buffer.capacity := by
  simp only [segments, ByteArray.size_extract]
  simp only [capacity] at *
  omega

/-! ### Histories -/

/-- Rings of a capacity and the frames that they have taken since they held none, the last frame at
the end. The cursors that the frames come from may be any, over any medium. -/
inductive Fed (capacity : Nat) : FeedBuffer → List ByteArray → Prop
  | made (storage : ByteArray) (address : Nat) :
      storage.size = capacity → Fed capacity { storage, mode := .ring, address } []
  | emptied (buffer : FeedBuffer) :
      buffer.mode = .ring → buffer.capacity = capacity → Fed capacity buffer.reset []
  | grown (buffer : FeedBuffer) :
      buffer.mode = .ring → buffer.capacity < capacity → Fed capacity (buffer.grow capacity) []
  | taken {buffer filled : FeedBuffer} {frames : List ByteArray} {span : Span} {count : Nat}
      {cursor after : Cursor} :
      Fed capacity buffer frames → fill span (buffer, cursor) = .ok count (filled, after) →
      Fed capacity filled (frames ++ [span.bytes cursor.source.medium.data])
  | refused {buffer left : FeedBuffer} {frames : List ByteArray} {span : Span} {fault : Fault}
      {cursor after : Cursor} :
      Fed capacity buffer frames → fill span (buffer, cursor) = .error fault (left, after) →
      fault.kind = .needLargerBuffer → Fed capacity left frames

theorem Fed.taken_of_ok {capacity : Nat} {frames : List ByteArray} {span : Span}
    (h : Fed capacity buffer frames) (hFill : (resultOf (fill span (buffer, cursor))).isOk)
    (hBytes : span.bytes cursor.source.medium.data = bytes) :
    Fed capacity (stateOf (fill span (buffer, cursor))).1 (frames ++ [bytes]) := by
  subst hBytes
  cases hResult : fill span (buffer, cursor) with
  | ok => exact h.taken hResult
  | error =>
    rw [hResult] at hFill
    cases hFill

def joinedFrames (frames : List ByteArray) : ByteArray := frames.foldl (· ++ ·) ByteArray.empty

def lastFrameSize (frames : List ByteArray) : Nat := (frames.getLast?.map ByteArray.size).getD 0

@[simp]
theorem joinedFrames_append (frames : List ByteArray) (bytes : ByteArray) :
    joinedFrames (frames ++ [bytes]) = joinedFrames frames ++ bytes := by
  simp [joinedFrames]

@[simp]
theorem lastFrameSize_append (frames : List ByteArray) (bytes : ByteArray) :
    lastFrameSize (frames ++ [bytes]) = bytes.size := by
  simp [lastFrameSize]

/-- All bytes that a ring has taken have their places in it, and the last ones are still there. -/
structure Lays (buffer : FeedBuffer) (capacity : Nat) (written : ByteArray) (last : Nat) :
    Prop where
  mode_eq : buffer.mode = .ring
  capacity_eq : buffer.capacity = capacity
  last_le : last ≤ written.size
  last_le_capacity : last ≤ capacity
  frameStop_eq : buffer.frameStop = written.size % capacity
  frameStart_eq : buffer.frameStart = (written.size - last) % capacity
  lastSize_eq : buffer.lastSize = last
  stored : ∀ place < written.size, written.size ≤ place + capacity →
    buffer.storage[place % capacity]? = written[place]?

section Lays

variable {capacity last : Nat} {written : ByteArray} {frames : List ByteArray}

theorem lays_empty (hMode : buffer.mode = .ring) (hCapacity : buffer.capacity = capacity)
    (hStart : buffer.frameStart = 0) (hStop : buffer.frameStop = 0) (hLast : buffer.lastSize = 0) :
    buffer.Lays capacity ByteArray.empty 0 where
  mode_eq := hMode
  capacity_eq := hCapacity
  last_le := Nat.le_refl _
  last_le_capacity := Nat.zero_le _
  frameStop_eq := by rw [hStop, ByteArray.size_empty, Nat.zero_mod]
  frameStart_eq := by rw [hStart, ByteArray.size_empty, Nat.zero_mod]
  lastSize_eq := hLast
  stored _ hPlace := absurd hPlace (Nat.not_lt_zero _)

theorem lays_grow (hMode : buffer.mode = .ring) (hRequired : buffer.capacity < capacity) :
    (buffer.grow capacity).Lays capacity ByteArray.empty 0 := by
  have hCapacity := capacity_grow buffer capacity
  rw [Nat.max_eq_right (Nat.le_of_lt hRequired)] at hCapacity
  rw [grow_of_lt hRequired] at hCapacity ⊢
  exact lays_empty hMode hCapacity rfl rfl rfl

theorem Lays.frameStop_lt (h : buffer.Lays capacity written last) (hCapacity : 0 < capacity) :
    buffer.frameStop < buffer.capacity := by
  rw [h.frameStop_eq, h.capacity_eq]
  exact Nat.mod_lt _ hCapacity

theorem Lays.frameStart_lt (h : buffer.Lays capacity written last) (hCapacity : 0 < capacity) :
    buffer.frameStart < buffer.capacity := by
  rw [h.frameStart_eq, h.capacity_eq]
  exact Nat.mod_lt _ hCapacity

theorem Lays.lastSize_le (h : buffer.Lays capacity written last) :
    buffer.lastSize ≤ buffer.capacity := by
  rw [h.lastSize_eq, h.capacity_eq]
  exact h.last_le_capacity

theorem Lays.put (h : buffer.Lays capacity written last) (hCapacity : 0 < capacity)
    (hSize : bytes.size ≤ buffer.capacity) :
    (buffer.put bytes).Lays capacity (written ++ bytes) bytes.size := by
  have hStop := h.frameStop_lt hCapacity
  have hRing := (capacity_put (Nat.le_of_lt hStop) hSize).trans h.capacity_eq
  have hLaid := laidFrom_put (Nat.le_of_lt hStop) hSize
  refine ⟨(mode_put buffer bytes).trans h.mode_eq, hRing, ?_, h.capacity_eq ▸ hSize, ?_, ?_,
    lastSize_put buffer bytes, ?_⟩
  · rw [ByteArray.size_append]
    exact Nat.le_add_left _ _
  · rw [frameStop_put hStop hSize, h.capacity_eq, h.frameStop_eq, Nat.mod_add_mod,
      ByteArray.size_append]
  · rw [frameStart_put, h.frameStop_eq, ByteArray.size_append, Nat.add_sub_cancel]
  · intro place hPlace hLeft
    rw [ByteArray.size_append] at hPlace hLeft
    by_cases hNew : written.size ≤ place
    -- A place in the new frame is counted from where the last frame ended.
    · obtain ⟨index, rfl⟩ := Nat.exists_eq_add_of_le hNew
      have hStored := hLaid.inside index (by omega)
      rw [← FeedBuffer.capacity, h.capacity_eq, h.frameStop_eq, Nat.mod_add_mod] at hStored
      rw [hStored, getElem?_append_right]
    -- An earlier place that is not overwritten comes behind the new frame on the way round.
    · have hTurn : place + capacity - written.size < buffer.capacity := by
        rw [h.capacity_eq]
        omega
      have hStored := hLaid.outside _ hTurn
        (show bytes.size ≤ place + capacity - written.size by omega)
      rw [← FeedBuffer.capacity, h.capacity_eq, h.frameStop_eq, Nat.mod_add_mod,
        Nat.add_sub_of_le (by omega), Nat.add_mod_right] at hStored
      rw [hStored, h.stored place (by omega) (by omega), getElem?_append_left (by omega)]

/-- Whatever a ring has taken, it lies where the count of the bytes puts it. The induction is on
the history. -/
theorem Fed.lays (h : Fed capacity buffer frames) (hCapacity : 0 < capacity) :
    buffer.Lays capacity (joinedFrames frames) (lastFrameSize frames) := by
  induction h with
  | made _ _ hSize => exact lays_empty rfl hSize rfl rfl rfl
  | emptied _ hMode hSize => exact lays_empty hMode hSize rfl rfl rfl
  | grown _ hMode hRequired => exact lays_grow hMode hRequired
  | taken _ hFill ih =>
    obtain ⟨rfl, hSize⟩ := fill_ok ih.mode_eq hFill
    rw [joinedFrames_append, lastFrameSize_append]
    exact ih.put hCapacity hSize
  | refused _ hFill hKind ih => exact fill_refused hFill hKind ▸ ih

theorem Lays.frameBytes_eq (h : buffer.Lays capacity written last) (hCapacity : 0 < capacity) :
    buffer.frameBytes = written.extract (written.size - last) written.size := by
  have hLast := h.last_le
  have hLastCapacity := h.last_le_capacity
  apply frameBytes_eq_of_storage (h.frameStart_lt hCapacity) h.lastSize_le
  · rw [ByteArray.size_extract, h.lastSize_eq]
    omega
  · intro place hPlace
    rw [h.lastSize_eq] at hPlace
    rw [getElem?_extract (by omega), h.frameStart_eq, h.capacity_eq, Nat.mod_add_mod]
    exact h.stored _ (by omega) (by omega)

/-- The last frame goes over the end of the ring where a whole number of turns ends inside it. -/
theorem Lays.head_ne (h : buffer.Lays capacity written last) (hCapacity : 0 < capacity) :
    buffer.segments.2.size ≠ 0 ↔ ∃ turns, written.size - last < turns * capacity ∧
      turns * capacity < written.size := by
  have hStart := h.frameStart_lt hCapacity
  have hBegin := Nat.div_add_mod (written.size - last) capacity
  have hLast := h.last_le
  rw [← h.frameStart_eq, Nat.mul_comm] at hBegin
  rw [size_head hStart h.lastSize_le, h.lastSize_eq, h.capacity_eq]
  rw [h.capacity_eq] at hStart
  constructor
  · intro hOver
    refine ⟨(written.size - last) / capacity + 1, ?_⟩
    rw [Nat.add_mul, Nat.one_mul]
    omega
  · rintro ⟨turns, hAfter, hBefore⟩
    have hTurns : (written.size - last) / capacity < turns :=
      Nat.div_lt_of_lt_mul (by rwa [Nat.mul_comm])
    have hNext := Nat.mul_le_mul_right capacity (Nat.succ_le_of_lt hTurns)
    rw [Nat.succ_mul] at hNext
    omega

/-- The layout of a ring after any history of frames that were taken or refused. With `written` for
all bytes taken and `last` for the size of the last frame: the last frame lies from
`written.size - last` to `written.size`, counted round the ring; the last bytes taken, as many as
there is room for, are in their places; the two parts of the last frame give it back; and there is
something in the second part just where the end of the ring lies inside the frame. -/
theorem ring_layout (h : Fed capacity buffer frames) (hCapacity : 0 < capacity) :
    let written := joinedFrames frames
    let last := lastFrameSize frames
    (buffer.frameStop = written.size % capacity ∧ buffer.frameStop < capacity) ∧
    (last ≤ written.size ∧ buffer.frameStart = (written.size - last) % capacity) ∧
    (buffer.capacity = capacity ∧
      ∀ place < written.size, written.size ≤ place + capacity →
        buffer.storage[place % capacity]? = written[place]?) ∧
    buffer.frameBytes = written.extract (written.size - last) written.size ∧
    (buffer.segments.2.size ≠ 0 ↔ ∃ turns, written.size - last < turns * capacity ∧
      turns * capacity < written.size) := by
  have hLays := h.lays hCapacity
  have hStop := hLays.frameStop_lt hCapacity
  rw [hLays.capacity_eq] at hStop
  exact ⟨⟨hLays.frameStop_eq, hStop⟩, ⟨hLays.last_le, hLays.frameStart_eq⟩,
    ⟨hLays.capacity_eq, hLays.stored⟩, hLays.frameBytes_eq hCapacity, hLays.head_ne hCapacity⟩

def sixBytes : Cursor := .ofMedium (.ofBytes ⟨#[1, 2, 3, 4, 5, 6]⟩) 16

/-- A ring of four bytes with the first three bytes. -/
def threeTaken : FeedBuffer := (stateOf (fill ⟨0, 3⟩ (ofCapacity .ring 4 0, sixBytes))).1

/-- The ring with the other three bytes, which go over its end. -/
def sixTaken : FeedBuffer := (stateOf (fill ⟨3, 6⟩ (threeTaken, sixBytes))).1

theorem ring_layout_sixTaken :
    sixTaken.frameStop = 6 % 4 ∧ sixTaken.frameStart = (6 - 3) % 4 ∧
      sixTaken.frameBytes = ⟨#[4, 5, 6]⟩ ∧ sixTaken.segments.2.size ≠ 0 := by
  have hMade : Fed 4 (ofCapacity .ring 4 0) [] := .made (filled 0 4) 0 (size_filled 0 4)
  have hThree : Fed 4 threeTaken [⟨#[1, 2, 3]⟩] :=
    hMade.taken_of_ok (by decide +kernel) (by decide +kernel)
  have hSix : Fed 4 sixTaken [⟨#[1, 2, 3]⟩, ⟨#[4, 5, 6]⟩] :=
    hThree.taken_of_ok (by decide +kernel) (by decide +kernel)
  obtain ⟨⟨hStop, -⟩, ⟨-, hStart⟩, -, hBytes, hHead⟩ := ring_layout hSix (by decide)
  exact ⟨hStop, hStart, hBytes.trans (by decide +kernel), hHead.mpr ⟨1, by decide +kernel⟩⟩

end Lays

end FeedBuffer

end FrameFeed
