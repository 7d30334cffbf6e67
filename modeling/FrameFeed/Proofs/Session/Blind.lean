import FrameFeed.Catalog
import FrameFeed.FeedBuffer
import FrameFeed.Proofs.Splitter.Frames

/-! Steps of the stream and of the feed buffer that do not depend on windows. Each of them comes to
the same from any two places that stand at one offset of the same data. -/

namespace FrameFeed

open EStateM (Result)

variable {medium medium' : Medium} {reach offset : Nat}

/-! ### Steps of the stream -/

theorem Medium.Alike.roomy (h : medium.Alike medium') (hRoom : medium.Roomy reach) :
    medium'.Roomy reach where
  reported size hSize := by
    rw [h.data_eq]
    exact hRoom.reported size (h.reportedSize_eq ▸ hSize)
  peeked := h.data_eq ▸ hRoom.peeked
  jumped hNone := h.data_eq ▸ hRoom.jumped (h.reportedSize_eq ▸ hNone)

namespace Reading

/-- Readings whose cursors stand at one offset. -/
def Alike (medium medium' : Medium) (reach : Nat) (left right : Reading) : Prop :=
  Cursor.Alike medium medium' reach left.cursor right.cursor

theorem resultOf_onCursor {Value : Type} (step : Cursor.Action Value) (reading : Reading) :
    resultOf (onCursor step reading) = resultOf (step reading.cursor) := by
  simp only [onCursor]
  cases step reading.cursor <;> rfl

theorem stateOf_onCursor {Value : Type} (step : Cursor.Action Value) (reading : Reading) :
    stateOf (onCursor step reading) =
      { reading with cursor := stateOf (step reading.cursor) } := by
  simp only [onCursor]
  cases step reading.cursor <;> rfl

theorem blind_onCursor {Value : Type} {step : Cursor.Action Value}
    (h : Blind (Cursor.Alike medium medium' reach) step) :
    Blind (Alike medium medium' reach) (onCursor step) := by
  intro left right hAlike
  rw [resultOf_onCursor, resultOf_onCursor, stateOf_onCursor, stateOf_onCursor]
  exact h left.cursor right.cursor hAlike

theorem blind_position : Blind (Alike medium medium' reach) position := by
  intro left right hAlike
  refine ⟨?_, hAlike⟩
  simp only [position_ok, resultOf, hAlike.position_eq]

theorem blind_remark (note : Note) : Blind (Alike medium medium' reach) (remark note) :=
  fun _ _ hAlike => ⟨rfl, hAlike⟩

end Reading

theorem StartCode.blind_scan (hMedia : medium.Alike medium') :
    Blind (Cursor.Alike medium medium' reach) scan := by
  rintro left right ⟨offset, hLeft, hRight⟩
  obtain ⟨after, hScan, hAfter⟩ := scan_standsAt hLeft
  obtain ⟨after', hScan', hAfter'⟩ := scan_standsAt hRight
  rw [hMedia.data_eq] at hScan' hAfter'
  rw [hScan, hScan']
  exact ⟨rfl, _, hAfter, hAfter'⟩

theorem NalClass.blind_peek (hMedia : medium.Alike medium') (format : Format) {target : Nat}
    (hTarget : target ≤ reach) :
    Blind (Cursor.Alike medium medium' reach) (peek format target) := by
  cases format with
  | mjpeg => exact blind_throw _
  | nal coding =>
    have hPeek? : Blind (Cursor.Alike medium medium' reach) (peek? coding target) := by
      intro left right hAlike
      have hPeek := Cursor.blind_peekAt hMedia hTarget (coding.headerSize + 1) left right hAlike
      simp only [peek?]
      revert hPeek
      cases left.peekAt target (coding.headerSize + 1) <;>
        cases right.peekAt target (coding.headerSize + 1) <;>
        rintro ⟨hResult, hAfter⟩ <;> cases hResult <;> exact ⟨rfl, hAfter⟩
    refine hPeek?.bind fun unitClass? => ?_
    cases unitClass? with
    | none => exact blind_throw _
    | some unitClass => exact blind_pure _

/-- Reading that is not cancelled comes to what it comes to along the data, which both media
share. -/
theorem Splitter.blind_readOn (hMedia : medium.Alike medium') (method : Method)
    (hRoom : method = .images → medium.Roomy reach) :
    Blind (Reading.Alike medium medium' reach) (read method false) := by
  rintro left right ⟨offset, hLeft, hRight⟩
  have hAgrees := read_agrees (fun hMethod => hMedia.roomy (hRoom hMethod)) hRight
  rw [outcome_alike hMedia] at hAgrees
  exact (read_agrees hRoom hLeft).alike hAgrees

theorem Splitter.blind_read (hMedia : medium.Alike medium') (method : Method) (cancelled : Bool)
    (hRoom : method = .images → medium.Roomy reach) :
    Blind (Reading.Alike medium medium' reach) (read method cancelled) := by
  have hReadOn := blind_readOn hMedia method hRoom
  cases method with
  | images => exact hReadOn
  | accessUnits coding cancellable =>
    simp only [read, Bool.and_false] at hReadOn ⊢
    cases cancellable && cancelled with
    | false => exact hReadOn
    | true =>
      -- Reading that is cancelled looks for one start code and then fails.
      unfold AccessUnit.next
      refine Reading.blind_position.bind fun origin => ?_
      refine (Reading.blind_onCursor (StartCode.blind_scan hMedia)).bind fun code? => ?_
      cases code? with
      | none =>
        refine Reading.blind_position.bind fun stop => ?_
        split
        · exact (blind_throw _).bind fun _ => blind_pure _
        · exact (blind_pure _).bind fun _ => blind_pure _
      | some first =>
        simp only [if_true]
        split
        · exact (Reading.blind_remark _).bind fun _ => blind_throw_bind _ _
        · exact blind_throw_bind _ _

theorem Splitter.blind_next (hMedia : medium.Alike medium') (splitter : Splitter)
    (cancelled : Bool) (hRoom : splitter.method = .images → medium.Roomy reach) :
    Blind (Reading.Alike medium medium' reach) (splitter.next cancelled) := by
  refine (blind_read hMedia splitter.method cancelled hRoom).bind fun span? => ?_
  cases span? with
  | none => exact blind_pure _
  | some span => exact (Reading.blind_remark _).bind fun _ => blind_pure _

theorem Catalog.blind_recognise (hMedia : medium.Alike medium') (catalog : Catalog)
    (path : Option String) :
    Blind (Reading.Alike medium medium' reach) (catalog.recognise path) := by
  intro left right hAlike
  have hSize : right.cursor.size = left.cursor.size := by
    obtain ⟨offset, hLeft, hRight⟩ := hAlike
    simp only [Cursor.size, hLeft.medium_eq, hRight.medium_eq, hMedia.reportedSize_eq]
  have hGet : ∀ reading, (get : Reading.Action Reading) reading = .ok reading reading :=
    fun _ => rfl
  simp only [recognise, bind_of_ok (hGet _), hSize]
  refine Blind.bind (Reading.blind_onCursor
    (Cursor.blind_peekAt hMedia (Nat.zero_le _) _)) (fun bytes => ?_) left right hAlike
  cases catalog.probe? bytes path with
  | none => exact blind_throw _
  | some probe => exact (Reading.blind_remark _).bind fun _ => blind_pure _

namespace FeedBuffer

/-- Storage with the same bytes, written from cursors that stand at one offset. -/
def Feeding.Alike (medium medium' : Medium) (reach : Nat) (left right : Feeding) : Prop :=
  left.1 = right.1 ∧ Cursor.Alike medium medium' reach left.2 right.2

/-- Buffers that are equal, fed from cursors that stand at one offset. -/
def Alike (medium medium' : Medium) (reach : Nat) (left right : FeedBuffer × Cursor) : Prop :=
  left.1 = right.1 ∧ Cursor.Alike medium medium' reach left.2 right.2

theorem blind_writeSegment (hMedia : medium.Alike medium') (index count : Nat) :
    Blind (Feeding.Alike medium medium' reach) (writeSegment index count) := by
  rintro ⟨storage, left⟩ ⟨_, right⟩ ⟨rfl, offset, hLeft, hRight⟩
  obtain ⟨after, hGather, hAfter⟩ := hLeft.gather count ByteArray.empty
  obtain ⟨after', hGather', hAfter'⟩ := hRight.gather count ByteArray.empty
  rw [hMedia.data_eq] at hGather' hAfter'
  simp only [writeSegment, hGather, hGather']
  split <;> exact ⟨rfl, rfl, _, hAfter, hAfter'⟩

theorem blind_writeFrame (hMedia : medium.Alike medium') (mode : FeedMode)
    (start capacity size : Nat) :
    Blind (Feeding.Alike medium medium' reach) (writeFrame mode start capacity size) := by
  cases mode with
  | linear => exact (blind_writeSegment hMedia 0 size).bind fun _ => blind_pure _
  | ring =>
    simp only [writeFrame]
    split
    · exact (blind_writeSegment hMedia start size).bind fun _ => blind_pure _
    · exact (blind_writeSegment hMedia start _).bind fun _ =>
        (blind_writeSegment hMedia 0 _).bind fun _ => blind_pure _

theorem blind_fill (hMedia : medium.Alike medium') {span : Span} (hSpan : span.start ≤ reach) :
    Blind (Alike medium medium' reach) (fill span) := by
  rintro ⟨buffer, left⟩ ⟨_, right⟩ ⟨rfl, hAlike⟩
  obtain ⟨storage, mode, address, frameStart, frameStop, lastSize⟩ := buffer
  simp only [fill]
  split
  · exact ⟨rfl, rfl, hAlike⟩
  · obtain ⟨offset, hLeft, hRight⟩ := hAlike
    obtain ⟨moved, hSeek, hMoved⟩ := hLeft.seekStart hSpan
    obtain ⟨moved', hSeek', hMoved'⟩ := hRight.seekStart hSpan
    have hWrite := blind_writeFrame hMedia mode frameStop storage.size span.size (storage, moved)
      (storage, moved') ⟨rfl, span.start, hMoved, hMoved'⟩
    simp only [hSeek, hSeek']
    revert hWrite
    rcases writeFrame mode frameStop storage.size span.size (storage, moved) with
      ⟨_, _, _⟩ | ⟨_, _, _⟩ <;>
    rcases writeFrame mode frameStop storage.size span.size (storage, moved') with
      ⟨_, _, _⟩ | ⟨_, _, _⟩ <;>
    rintro ⟨⟨⟩, ⟨⟩, hAfter⟩ <;>
    exact ⟨rfl, rfl, hAfter⟩

end FeedBuffer

end FrameFeed
