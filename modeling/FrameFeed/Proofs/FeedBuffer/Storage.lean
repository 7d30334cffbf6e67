import FrameFeed.FeedBuffer
import FrameFeed.Proofs.Bytes

/-! What the storage of a feed buffer holds after bytes have been written into it, and where the two
parts of a frame are. -/

namespace FrameFeed.FeedBuffer

/-! ### Writing -/

theorem size_filled (byte : UInt8) (count : Nat) : (filled byte count).size = count := by
  rw [← ByteArray.size_data, data_filled, Array.size_replicate]

section Growing

variable {buffer : FeedBuffer} {required : Nat}

theorem grow_of_le (h : required ≤ buffer.capacity) : buffer.grow required = buffer := if_pos h

/-- A buffer that has to grow holds no frame afterwards. -/
theorem grow_of_lt (h : buffer.capacity < required) :
    buffer.grow required =
      { storage := buffer.storage ++ filled 0 (required - buffer.capacity)
        mode := buffer.mode
        address := buffer.address } :=
  if_neg (Nat.not_le.mpr h)

theorem capacity_grow (buffer : FeedBuffer) (required : Nat) :
    (buffer.grow required).capacity = max buffer.capacity required := by
  by_cases h : required ≤ buffer.capacity
  · rw [grow_of_le h, Nat.max_eq_left h]
  · rw [grow_of_lt (Nat.not_le.mp h)]
    simp only [capacity, ByteArray.size_append, size_filled] at h ⊢
    omega

end Growing

section Overlay

variable {storage bytes : ByteArray} {index start stop : Nat}

theorem overlay_eq (storage : ByteArray) (index : Nat) (bytes : ByteArray) :
    overlay storage index bytes = storage.extract 0 index ++ bytes ++
      storage.extract (index + bytes.size) storage.size := by
  unfold overlay
  rw [ByteArray.copySlice_eq_append]
  simp

theorem size_overlay (h : index + bytes.size ≤ storage.size) :
    (overlay storage index bytes).size = storage.size := by
  rw [overlay_eq]
  simp only [ByteArray.size_append, ByteArray.size_extract]
  omega

theorem extract_overlay (h : index + bytes.size ≤ storage.size) :
    (overlay storage index bytes).extract index (index + bytes.size) = bytes := by
  have hBefore : (storage.extract 0 index).size = index := by
    rw [ByteArray.size_extract]
    omega
  rw [overlay_eq, ByteArray.append_assoc]
  apply ByteArray.ext_getElem
  · simp only [ByteArray.size_extract, ByteArray.size_append]
    omega
  · intro place hLeft hRight
    rw [ByteArray.getElem_extract, ByteArray.getElem_append_right (by omega),
      ByteArray.getElem_append_left (by omega)]
    congr 1
    omega

theorem extract_overlay_before (hIndex : index ≤ storage.size) (hBefore : stop ≤ index) :
    (overlay storage index bytes).extract start stop = storage.extract start stop := by
  have hSize : (storage.extract 0 index).size = index := by
    rw [ByteArray.size_extract]
    omega
  rw [overlay_eq, ByteArray.append_assoc, ByteArray.extract_append, hSize,
    Nat.sub_eq_zero_of_le hBefore, ByteArray.extract_extract, Nat.zero_add, Nat.zero_add,
    Nat.min_eq_left hBefore, ByteArray.extract_eq_empty_iff.mpr (show min 0 _ ≤ _ by omega),
    ByteArray.append_empty]

theorem extract_overlay_after (h : index + bytes.size ≤ storage.size)
    (hAfter : index + bytes.size ≤ start) (hStop : start ≤ stop) :
    (overlay storage index bytes).extract start stop = storage.extract start stop := by
  have hSize : (storage.extract 0 index ++ bytes).size = index + bytes.size := by
    rw [ByteArray.size_append, ByteArray.size_extract]
    omega
  rw [overlay_eq, ByteArray.extract_append, extract_past (by omega), ByteArray.empty_append, hSize,
    ByteArray.extract_extract, Nat.add_sub_of_le hAfter,
    Nat.add_sub_of_le (Nat.le_trans hAfter hStop), extract_min]

/-- Inside, a write leaves the bytes that were written. -/
theorem getElem?_overlay_inside (h : index + bytes.size ≤ storage.size) {place : Nat}
    (hPlace : place < bytes.size) :
    (overlay storage index bytes)[index + place]? = bytes[place]? := by
  rw [← getElem?_extract (show index + place < index + bytes.size by omega), extract_overlay h]

theorem getElem?_overlay_start (h : bytes.size ≤ storage.size) {place : Nat}
    (hPlace : place < bytes.size) : (overlay storage 0 bytes)[place]? = bytes[place]? := by
  have hInside := getElem?_overlay_inside (show 0 + bytes.size ≤ storage.size by omega) hPlace
  rwa [Nat.zero_add] at hInside

/-- Outside, a write leaves what was there. -/
theorem getElem?_overlay_outside (h : index + bytes.size ≤ storage.size) {place : Nat}
    (hPlace : place < index ∨ index + bytes.size ≤ place) :
    (overlay storage index bytes)[place]? = storage[place]? := by
  have hByte : ∀ data : ByteArray, data[place]? = (data.extract place (place + 1))[0]? := by
    intro data
    exact (getElem?_extract (show place + 0 < place + 1 by omega)).symm
  rw [hByte, hByte storage]
  rcases hPlace with hBefore | hAfter
  · rw [extract_overlay_before (by omega) (Nat.succ_le_of_lt hBefore)]
  · rw [extract_overlay_after h hAfter (Nat.le_succ place)]

end Overlay

/-! ### Writing round the end -/

section LaidFrom

variable {before piece tail head : ByteArray} {start place capacity index : Nat}

/-- An index counted from another one round the end is past that one or, after the end, before
it. -/
theorem index_cases (hStart : start ≤ capacity) (hPlace : place < capacity) :
    (start + place < capacity ∧ (start + place) % capacity = start + place) ∨
      (capacity ≤ start + place ∧ (start + place) % capacity = start + place - capacity) := by
  by_cases hBefore : start + place < capacity
  · exact .inl ⟨hBefore, Nat.mod_eq_of_lt hBefore⟩
  · refine .inr ⟨Nat.not_lt.mp hBefore, ?_⟩
    rw [Nat.mod_eq_sub_mod (Nat.not_lt.mp hBefore), Nat.mod_eq_of_lt (by omega)]

theorem exists_place (hStart : start ≤ capacity) (hIndex : index < capacity) :
    ∃ place < capacity, (start + place) % capacity = index := by
  by_cases hBehind : start ≤ index
  · exact ⟨index - start, by omega, by rw [Nat.add_sub_of_le hBehind, Nat.mod_eq_of_lt hIndex]⟩
  · refine ⟨index + capacity - start, by omega, ?_⟩
    rw [Nat.add_sub_of_le (by omega), Nat.add_mod_right, Nat.mod_eq_of_lt hIndex]

/-- Storage into which a piece has been written from an index on and, past the end, from the start
on. What lies behind the piece on the way round is what was there before. -/
structure LaidFrom (before : ByteArray) (start : Nat) (piece after : ByteArray) : Prop where
  size_eq : after.size = before.size
  inside : ∀ place < piece.size, after[(start + place) % before.size]? = piece[place]?
  outside : ∀ place < before.size, piece.size ≤ place →
    after[(start + place) % before.size]? = before[(start + place) % before.size]?

theorem laidFrom_empty (before : ByteArray) (start : Nat) :
    LaidFrom before start ByteArray.empty before where
  size_eq := rfl
  inside _ hPlace := absurd hPlace (Nat.not_lt_zero _)
  outside _ _ _ := rfl

/-- A piece that ends before the storage does is written in one part. -/
theorem laidFrom_within (h : start + piece.size ≤ before.size) :
    LaidFrom before start piece (overlay before start piece) where
  size_eq := size_overlay h
  inside place hPlace := by
    rw [Nat.mod_eq_of_lt (by omega)]
    exact getElem?_overlay_inside h hPlace
  outside place hPlace hBehind := by
    have hIndex := index_cases (show start ≤ before.size by omega) hPlace
    exact getElem?_overlay_outside h (by omega)

/-- A piece that reaches the end of the storage is written in two parts. -/
theorem laidFrom_over (hTail : start + tail.size = before.size) (hHead : head.size ≤ start) :
    LaidFrom before start (tail ++ head) (overlay (overlay before start tail) 0 head) := by
  have hFirst : (overlay before start tail).size = before.size := size_overlay (Nat.le_of_eq hTail)
  have hFits : 0 + head.size ≤ (overlay before start tail).size := by omega
  refine ⟨(size_overlay hFits).trans hFirst, fun place hPlace => ?_, fun place hPlace hBehind => ?_⟩
  · rw [ByteArray.size_append] at hPlace
    have hIndex :=
      index_cases (show start ≤ before.size by omega) (show place < before.size by omega)
    by_cases hBefore : place < tail.size
    -- In the tail: the head, which is written later, ends before it.
    · rw [Nat.mod_eq_of_lt (by omega), getElem?_overlay_outside hFits (.inr (by omega)),
        getElem?_overlay_inside (Nat.le_of_eq hTail) hBefore, getElem?_append_left hBefore]
    · obtain ⟨rest, rfl⟩ := Nat.exists_eq_add_of_le (Nat.not_lt.mp hBefore)
      rw [getElem?_append_right, ← Nat.add_assoc, hTail, Nat.add_mod_left,
        Nat.mod_eq_of_lt (by omega)]
      exact getElem?_overlay_start (by omega) (by omega)
  · rw [ByteArray.size_append] at hBehind
    have hIndex := index_cases (show start ≤ before.size by omega) hPlace
    rw [getElem?_overlay_outside hFits (by omega),
      getElem?_overlay_outside (Nat.le_of_eq hTail) (by omega)]

end LaidFrom

/-! ### The two parts of a frame -/

variable {buffer : FeedBuffer}

theorem segments_within (h : buffer.frameStart + buffer.lastSize ≤ buffer.capacity) :
    buffer.segments = (buffer.storage.extract buffer.frameStart
      (buffer.frameStart + buffer.lastSize), ByteArray.empty) := by
  unfold segments
  rw [Nat.min_eq_left h]
  simp

/-- A frame that reaches the end of the buffer goes on at its start. -/
theorem segments_over (h : buffer.capacity ≤ buffer.frameStart + buffer.lastSize) :
    buffer.segments = (buffer.storage.extract buffer.frameStart buffer.capacity,
      buffer.storage.extract 0 (buffer.lastSize - (buffer.capacity - buffer.frameStart))) := by
  unfold segments
  rw [Nat.min_eq_right h]

/-- The bytes of the last frame, its two parts one after the other. -/
def frameBytes (buffer : FeedBuffer) : ByteArray := buffer.segments.1 ++ buffer.segments.2

/-- A buffer of a capacity whose last frame is known and whose next frame begins inside it. -/
structure Holds (buffer : FeedBuffer) (capacity : Nat) (bytes : ByteArray) : Prop where
  capacity_eq : buffer.capacity = capacity
  frameStop_le : buffer.frameStop ≤ capacity
  frameBytes_eq : buffer.frameBytes = bytes

/-- A frame that has been written within the storage. -/
theorem holds_within {storage bytes : ByteArray} {index : Nat}
    (h : index + bytes.size ≤ storage.size) (mode : FeedMode) (address : Nat) :
    Holds ⟨overlay storage index bytes, mode, address, index, index + bytes.size, bytes.size⟩
      storage.size bytes where
  capacity_eq := size_overlay h
  frameStop_le := h
  frameBytes_eq := by
    unfold frameBytes
    rw [segments_within (by simpa only [capacity, size_overlay h] using h)]
    rw [extract_overlay h, ByteArray.append_empty]

/-- A frame that has been written over the end of the storage. -/
theorem holds_over {storage tail head : ByteArray} {index : Nat}
    (hTail : index + tail.size = storage.size) (hHead : head.size ≤ index) (mode : FeedMode)
    (address : Nat) :
    Holds ⟨overlay (overlay storage index tail) 0 head, mode, address, index, head.size,
      tail.size + head.size⟩ storage.size (tail ++ head) := by
  have hFirst : (overlay storage index tail).size = storage.size :=
    size_overlay (Nat.le_of_eq hTail)
  have hFits : 0 + head.size ≤ (overlay storage index tail).size := by omega
  have hSize : (overlay (overlay storage index tail) 0 head).size = storage.size :=
    (size_overlay hFits).trans hFirst
  refine ⟨hSize, by show head.size ≤ _; omega, ?_⟩
  unfold frameBytes
  rw [segments_over (by simp only [capacity, hSize]; omega)]
  simp only [capacity, hSize]
  -- The head was written last, and it ends before the tail begins.
  rw [← hTail, extract_overlay_after hFits (by omega) (by omega),
    extract_overlay (Nat.le_of_eq hTail),
    show tail.size + head.size - (index + tail.size - index) = 0 + head.size by omega,
    extract_overlay hFits]

end FrameFeed.FeedBuffer
