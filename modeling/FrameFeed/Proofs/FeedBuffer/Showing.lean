import FrameFeed.Proofs.FeedBuffer.Writing
import Mathlib.Data.List.Forall2

/-! What a buffer shows of its last frame. A filling that fails leaves the frame on record, but may
have written over it before it failed: over the beginning of the frame in a linear buffer, and in a
ring once it has gone round the bytes that lie between the frames. -/

namespace FrameFeed.FeedBuffer

open EStateM (Result)

/-! ### Writing over a frame -/

section Overwrite

variable {gap place : Nat} {frame piece : ByteArray}

/-- A frame over which a piece has been written that begins `gap` bytes before the frame does. -/
def overwrite (gap : Nat) (frame piece : ByteArray) : ByteArray :=
  piece.extract gap (gap + frame.size) ++ frame.extract (piece.size - gap) frame.size

theorem size_overwrite (gap : Nat) (frame piece : ByteArray) :
    (overwrite gap frame piece).size = frame.size := by
  simp only [overwrite, ByteArray.size_append, ByteArray.size_extract]
  omega

/-- A piece that does not reach the frame leaves it as it is. -/
theorem overwrite_of_le (h : piece.size ≤ gap) : overwrite gap frame piece = frame := by
  rw [overwrite, extract_past h, ByteArray.empty_append, Nat.sub_eq_zero_of_le h,
    ByteArray.extract_zero_size]

theorem getElem?_overwrite (hPlace : place < frame.size) :
    (overwrite gap frame piece)[place]? =
      if gap + place < piece.size then piece[gap + place]? else frame[place]? := by
  have hSize : (piece.extract gap (gap + frame.size)).size =
      min frame.size (piece.size - gap) := by
    rw [ByteArray.size_extract]
    omega
  unfold overwrite
  split
  · rw [getElem?_append_left (by omega), getElem?_extract (by omega)]
  · rename_i hPast
    have hIndex : place =
        (piece.extract gap (gap + frame.size)).size + (place - (piece.size - gap)) := by
      omega
    rw [hIndex, getElem?_append_right, ← hIndex, getElem?_rest, Nat.add_sub_of_le (by omega)]

end Overwrite

/-! ### The last frame -/

variable {buffer left filled : FeedBuffer} {bytes frame : ByteArray} {failed : List Attempt}

/-- The storage has some bytes in the place of the last frame. -/
structure Shows (buffer : FeedBuffer) (bytes : ByteArray) : Prop where
  lastSize_eq : buffer.lastSize = bytes.size
  stored : ∀ place < bytes.size,
    buffer.storage[(buffer.origin + (buffer.gap + place)) % buffer.capacity]? = bytes[place]?

theorem shows_empty (hLast : buffer.lastSize = 0) : buffer.Shows ByteArray.empty where
  lastSize_eq := hLast
  stored _ hPlace := absurd hPlace (Nat.not_lt_zero _)

theorem Shows.frameBytes_eq (h : buffer.Shows bytes) (hPlaced : buffer.Placed) :
    buffer.frameBytes = bytes := by
  have hStart := hPlaced.frameStart_eq
  have hLast := hPlaced.lastSize_le
  by_cases hNone : buffer.capacity = 0
  · have hEmpty : bytes.size = 0 := by rw [← h.lastSize_eq]; omega
    rw [ByteArray.size_eq_zero_iff.mp hEmpty, ← ByteArray.size_eq_zero_iff]
    simp only [frameBytes, segments, ByteArray.size_append, ByteArray.size_extract, hNone]
    simp only [capacity] at hNone
    omega
  · apply frameBytes_eq_of_storage (hStart ▸ Nat.mod_lt _ (Nat.pos_of_ne_zero hNone)) hLast
      h.lastSize_eq.symm
    intro place hPlace
    rw [h.lastSize_eq] at hPlace
    rw [hStart, Nat.mod_add_mod, Nat.add_assoc]
    exact h.stored place hPlace

/-- After a filling that succeeds, the last frame is the one that has been taken. -/
theorem Placed.shows {span : Span} {count : Nat} {cursor after : Cursor} (h : buffer.Placed)
    (hFill : fill span (buffer, cursor) = .ok count (filled, after)) :
    filled.Shows (span.bytes cursor.source.medium.data) := by
  obtain ⟨hPlaced, hLaid, -, hLast, hStart, -⟩ := h.taken hFill
  have hCapacity : filled.capacity = buffer.capacity := hLaid.size_eq
  refine ⟨hLast, fun place hPlace => ?_⟩
  rw [← Nat.add_assoc, ← Nat.mod_add_mod, ← hPlaced.frameStart_eq, hStart, hCapacity]
  exact hLaid.inside place hPlace

/-- Where only stored bytes have changed, the frames have their places where they were. -/
theorem places_eq (hCapacity : left.capacity = buffer.capacity)
    (hLeft : left = { buffer with storage := left.storage }) :
    left.origin = buffer.origin ∧ left.gap = buffer.gap ∧ left.lastSize = buffer.lastSize := by
  rw [hLeft] at hCapacity ⊢
  exact ⟨rfl, by simp only [gap, hCapacity], rfl⟩

/-- A piece that is written from the place for the next frame on is written over the last one as far
as it reaches. -/
theorem Shows.overwrite {piece : ByteArray} (h : buffer.Shows bytes) (hPlaced : buffer.Placed)
    (hLaid : LaidFrom buffer.storage buffer.origin piece left.storage)
    (hLeft : left = { buffer with storage := left.storage }) :
    left.Shows (overwrite buffer.gap bytes piece) := by
  have hCapacity : left.capacity = buffer.capacity := hLaid.size_eq
  have hLast := hPlaced.lastSize_le
  have hGap : ∀ place < bytes.size, buffer.gap + place < buffer.capacity := by
    intro place hPlace
    rw [← h.lastSize_eq] at hPlace
    unfold gap
    split <;> omega
  obtain ⟨hOrigin, hGapSame, hLastSame⟩ := places_eq hCapacity hLeft
  refine ⟨by rw [hLastSame, h.lastSize_eq, size_overwrite], fun place hPlace => ?_⟩
  rw [size_overwrite] at hPlace
  rw [hOrigin, hGapSame, hCapacity, getElem?_overwrite hPlace]
  split
  · rename_i hReached
    exact hLaid.inside _ hReached
  · rename_i hReached
    rw [← h.stored place hPlace]
    exact hLaid.outside _ (hGap place hPlace) (Nat.not_lt.mp hReached)

/-- What has been taken off the streams by attempts that failed, one piece for each. -/
def PiecesOf (buffer : FeedBuffer) (failed : List Attempt) (pieces : List ByteArray) : Prop :=
  List.Forall₂ (fun attempt piece => TakenOff buffer.capacity attempt.span attempt.data piece)
    failed pieces

/-- The place of the last frame holds the frame that was taken, with the pieces that attempts have
taken since then written over it in turn. -/
theorem Past.shows (h : Past buffer frame failed) :
    ∃ pieces, buffer.PiecesOf failed pieces ∧
      buffer.Shows (pieces.foldl (overwrite buffer.gap) frame) := by
  induction h with
  | made => exact ⟨[], .nil, shows_empty rfl⟩
  | addressed address _ ih =>
    obtain ⟨pieces, hPieces, hShows⟩ := ih
    exact ⟨pieces, hPieces, hShows.lastSize_eq, hShows.stored⟩
  | emptied => exact ⟨[], .nil, shows_empty rfl⟩
  | grown _ hLarger =>
    refine ⟨[], .nil, shows_empty ?_⟩
    rw [grow_of_lt hLarger]
  | roomy _ hEnough ih =>
    rw [grow_of_le hEnough]
    exact ih
  | taken hPast hFill => exact ⟨[], .nil, hPast.placed.shows hFill⟩
  | @failed buffer left frame failed span fault cursor after hPast hFill ih =>
    obtain ⟨pieces, hPieces, hShows⟩ := ih
    obtain ⟨piece, hTaken, hLaid, hLeft⟩ := fill_left hPast.placed.origin_le hFill
    have hCapacity : left.capacity = buffer.capacity := hLaid.size_eq
    obtain ⟨-, hGap, -⟩ := places_eq hCapacity hLeft
    refine ⟨pieces ++ [piece], ?_, ?_⟩
    · rw [PiecesOf, hCapacity]
      exact List.rel_append hPieces (.cons hTaken .nil)
    · rw [hGap, List.foldl_append]
      exact hShows.overwrite hPast.placed hLaid hLeft

/-- Attempts that have not reached the last frame leave it as it is. -/
theorem PiecesOf.foldl_overwrite {gap : Nat} {pieces : List ByteArray}
    (h : buffer.PiecesOf failed pieces)
    (hShort : ∀ attempt ∈ failed,
      attempt.span.size ≤ gap ∨ buffer.capacity < attempt.span.size) :
    pieces.foldl (FeedBuffer.overwrite gap) frame = frame := by
  induction h with
  | nil => rfl
  | cons hTaken _ ih =>
    rw [List.forall_mem_cons] at hShort
    obtain ⟨hFirst, hRest⟩ := hShort
    have hReach := hTaken.size_le
    rw [List.foldl_cons, overwrite_of_le, ih hRest]
    rcases hFirst with hGap | hRefused
    · omega
    · rw [hTaken.refused hRefused]
      exact Nat.zero_le _

/-- What a buffer shows is the last frame that it has taken, with what attempts have taken off their
streams since then written over it in turn, from `gap` bytes before the frame on. It is the frame as
it was taken if each of the attempts was no larger than that gap or was refused for want of room. -/
theorem frame_shown (h : Past buffer frame failed) :
    (∃ pieces, buffer.PiecesOf failed pieces ∧
      buffer.frameBytes = pieces.foldl (overwrite buffer.gap) frame) ∧
    ((∀ attempt ∈ failed,
        attempt.span.size ≤ buffer.gap ∨ buffer.capacity < attempt.span.size) →
      buffer.frameBytes = frame) := by
  obtain ⟨pieces, hPieces, hShows⟩ := h.shows
  have hBytes := hShows.frameBytes_eq h.placed
  exact ⟨⟨pieces, hPieces, hBytes⟩, fun hShort => hBytes.trans (hPieces.foldl_overwrite hShort)⟩

/-- The bytes from 0 up to 15. -/
def sixteenBytes : ByteArray := ⟨#[0, 1, 2, 3, 4, 5, 6, 7, 8, 9, 10, 11, 12, 13, 14, 15]⟩

/-- A buffer of eight bytes that has taken the first four bytes of a stream. -/
def fourTaken (mode : FeedMode) : FeedBuffer × Cursor :=
  stateOf (fill ⟨0, 4⟩ (ofCapacity mode 8 0, .ofMedium (.ofBytes sixteenBytes) 16))

/-- After that, four more should have come, of which the stream has two. -/
def endedEarly (mode : FeedMode) : FeedBuffer :=
  (stateOf (fill ⟨14, 18⟩ (fourTaken mode))).1

theorem past_endedEarly (mode : FeedMode) :
    Past (endedEarly mode) ⟨#[0, 1, 2, 3]⟩ [⟨⟨14, 18⟩, sixteenBytes⟩] := by
  have hTaken : Past (fourTaken mode).1 ⟨#[0, 1, 2, 3]⟩ [] :=
    (Past.made (filled 0 8) mode 0).taken_of_ok (by cases mode <;> decide +kernel)
      (by decide +kernel)
  exact hTaken.failed_of_not_ok (by cases mode <;> decide +kernel)
    (by cases mode <;> decide +kernel)

/-- The two bytes lie in the ring behind the frame, which is shown as it was taken. -/
theorem frame_shown_endedEarly : (endedEarly .ring).frameBytes = ⟨#[0, 1, 2, 3]⟩ :=
  (frame_shown (past_endedEarly .ring)).2 (by decide +kernel)

/-- In a linear buffer the two bytes have been written over the first ones of the frame, which is
on record still. -/
theorem frame_overwritten :
    Past (endedEarly .linear) ⟨#[0, 1, 2, 3]⟩ [⟨⟨14, 18⟩, sixteenBytes⟩] ∧
      (endedEarly .linear).lastSize = 4 ∧
      (endedEarly .linear).frameBytes = ⟨#[14, 15, 2, 3]⟩ :=
  ⟨past_endedEarly .linear, by decide +kernel, by decide +kernel⟩

end FrameFeed.FeedBuffer
