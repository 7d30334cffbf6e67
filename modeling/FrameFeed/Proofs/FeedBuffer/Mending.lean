import FrameFeed.Proofs.Cursor.Mending
import FrameFeed.Proofs.FeedBuffer.Feeding
import FrameFeed.Proofs.FeedBuffer.Ring

/-! Feeding that succeeds over a medium that may fail. It has fed the bytes of the data. -/

namespace FrameFeed.FeedBuffer

open EStateM (Result)

/-- The state of a feeding over the mended medium. -/
def mend {Storage : Type} : Storage × Cursor → Storage × Cursor := Prod.map id Cursor.mended

theorem carriesOver_writeSegment (index count : Nat) :
    CarriesOver mend (writeSegment index count) := by
  rintro ⟨storage, cursor⟩ _ after h
  simp only [writeSegment] at h
  split at h
  · cases h
  · rename_i hNone
    split at h
    · cases h
    · rename_i hEnough
      cases h
      simp only [mend, Prod.map, id, writeSegment, Cursor.gather_mended hNone, hNone,
        if_neg hEnough]

theorem carriesOver_writeFrame (mode : FeedMode) (start capacity size : Nat) :
    CarriesOver mend (writeFrame mode start capacity size) := by
  cases mode with
  | linear => exact (carriesOver_writeSegment 0 size).bind fun _ => carriesOver_pure _
  | ring =>
    simp only [writeFrame]
    split
    · exact (carriesOver_writeSegment start size).bind fun _ => carriesOver_pure _
    · exact (carriesOver_writeSegment start _).bind fun _ =>
        (carriesOver_writeSegment 0 _).bind fun _ => carriesOver_pure _

theorem carriesOver_fill (span : Span) : CarriesOver mend (fill span) := by
  rintro ⟨⟨storage, mode, address, frameStart, frameStop, lastSize⟩, cursor⟩ count after h
  simp only [fill] at h
  split at h
  · cases h
  · rename_i hFits
    split at h
    · cases h
    · rename_i hSeek
      split at h
      · rename_i hWrite
        cases h
        have hMoved := Cursor.carriesOver_seek _ hSeek
        have hWritten := carriesOver_writeFrame _ _ _ _ hWrite
        simp only [mend, Prod.map, id] at hWritten
        simp only [mend, Prod.map, id, fill, if_neg hFits, hMoved, hWritten]
      · cases h

variable {medium : Medium} {reach offset : Nat} {cursor : Cursor} {buffer : FeedBuffer}
  {span : Span}

/-- A span that has been fed fits in, and its bytes are in the buffer. -/
theorem fill_holds (h : cursor.mended.StandsAt medium reach offset)
    (hPlace : buffer.frameStop ≤ buffer.capacity) (hSpan : span.start ≤ span.stop)
    (hStop : span.stop ≤ medium.data.size) {count : Nat} {filled : FeedBuffer} {after : Cursor}
    (hFill : fill span (buffer, cursor) = .ok count (filled, after)) :
    filled.Holds buffer.capacity (span.bytes medium.data) ∧
      after.mended.StandsAt medium reach span.stop := by
  obtain ⟨hFits, -⟩ := fill_ok_steps hFill
  obtain ⟨filled', after', hMended, hAfter, hHolds⟩ := fill_standsAt h hPlace hFits hSpan hStop
  cases (carriesOver_fill span hFill).symm.trans hMended
  exact ⟨hHolds, hAfter⟩

theorem fill_needLarger {required capacity : Nat} {left : FeedBuffer} {after : Cursor}
    (h : fill span (buffer, cursor) = .error (.needLargerBuffer required capacity) (left, after)) :
    left = buffer ∧ after = cursor ∧ required = span.size ∧ buffer.capacity < required := by
  rcases fill_error_cases h with ⟨hLarge, hFault, rfl, rfl⟩ | ⟨-, hIo, -⟩
  · cases hFault
    exact ⟨rfl, rfl, rfl, hLarge⟩
  · cases hIo

end FrameFeed.FeedBuffer
