import FrameFeed.Proofs.FeedBuffer.Storage
import FrameFeed.Proofs.Splitter.Calls

/-! Feeding frames through a buffer. A frame that fits is written whole, in one part or in two, and
the cursor stands at its end afterwards, where the splitter has left it. Reading and feeding in
turn therefore gives the frames that reading alone gives, and hands over the bytes of each. -/

namespace FrameFeed.FeedBuffer

open EStateM (Result)

variable {medium : Medium} {reach offset : Nat} {cursor : Cursor}

/-! ### One frame -/

theorem writeSegment_standsAt (h : cursor.StandsAt medium reach offset) (storage : ByteArray)
    (index : Nat) {count : Nat} (hLeft : offset + count ≤ medium.data.size) :
    ∃ after, writeSegment index count (storage, cursor) =
        .ok () (overlay storage index (medium.data.extract offset (offset + count)), after) ∧
      after.StandsAt medium reach (offset + count) := by
  obtain ⟨after, hGather, hAfter⟩ := h.gather count ByteArray.empty
  rw [Nat.min_eq_left (by omega)] at hAfter
  have hSize : ¬(medium.data.extract offset (offset + count)).size < count := by
    rw [ByteArray.size_extract]
    omega
  refine ⟨after, ?_, hAfter⟩
  simp only [writeSegment, hGather, ByteArray.empty_append, if_neg hSize]

/-- A frame is written in one part where there is room for it. -/
theorem writeSegment_holds (h : cursor.StandsAt medium reach offset) (mode : FeedMode)
    (address : Nat) {storage : ByteArray} {index size : Nat} (hIndex : index + size ≤ storage.size)
    (hLeft : offset + size ≤ medium.data.size) :
    ∃ written after, writeSegment index size (storage, cursor) = .ok () (written, after) ∧
      after.StandsAt medium reach (offset + size) ∧
      Holds ⟨written, mode, address, index, index + size, size⟩ storage.size
        (medium.data.extract offset (offset + size)) := by
  have hBytes : (medium.data.extract offset (offset + size)).size = size := by
    rw [ByteArray.size_extract]
    omega
  obtain ⟨after, hWrite, hAfter⟩ := writeSegment_standsAt h storage index hLeft
  rw [← hBytes] at hIndex
  have hHolds := holds_within hIndex mode address
  rw [hBytes] at hHolds
  exact ⟨_, after, hWrite, hAfter, hHolds⟩

/-- A frame that reaches the end of a ring is written in two parts. -/
theorem writeFrame_over (h : cursor.StandsAt medium reach offset) (address : Nat)
    {storage : ByteArray} {start tail head : Nat} (hTail : start + tail = storage.size)
    (hHead : head ≤ start) (hLeft : offset + (tail + head) ≤ medium.data.size) :
    ∃ written after, writeFrame .ring start storage.size (tail + head) (storage, cursor) =
        .ok (start, head) (written, after) ∧
      after.StandsAt medium reach (offset + (tail + head)) ∧
      Holds ⟨written, .ring, address, start, head, tail + head⟩ storage.size
        (medium.data.extract offset (offset + (tail + head))) := by
  obtain ⟨middle, hFirst, hMiddle⟩ := writeSegment_standsAt h storage start
    (show offset + tail ≤ medium.data.size by omega)
  obtain ⟨after, hSecond, hAfter⟩ := writeSegment_standsAt hMiddle
    (overlay storage start (medium.data.extract offset (offset + tail))) 0
    (show offset + tail + head ≤ medium.data.size by omega)
  have hTailSize : (medium.data.extract offset (offset + tail)).size = tail := by
    rw [ByteArray.size_extract]
    omega
  have hHeadSize : (medium.data.extract (offset + tail) (offset + tail + head)).size = head := by
    rw [ByteArray.size_extract]
    omega
  rw [← hTailSize] at hTail
  rw [← hHeadSize] at hHead
  have hHolds := holds_over hTail hHead .ring address
  rw [hTailSize] at hTail
  rw [hTailSize, hHeadSize, ← ByteArray.extract_eq_extract_append_extract _ (Nat.le_add_right _ _)
    (Nat.le_add_right _ _), Nat.add_assoc] at hHolds
  rw [Nat.add_assoc] at hSecond hAfter
  refine ⟨_, after, ?_, hAfter, hHolds⟩
  unfold writeFrame
  rw [if_neg (by omega), show storage.size - start = tail by omega, Nat.add_sub_cancel_left]
  simp only [bind_of_ok hFirst, bind_of_ok hSecond]
  rfl

/-- A frame of the data that fits in is fed: its bytes are in the buffer afterwards, and the cursor
is at its end. -/
theorem fill_standsAt (h : cursor.StandsAt medium reach offset) {buffer : FeedBuffer} {span : Span}
    (hPlace : buffer.frameStop ≤ buffer.capacity) (hFits : span.size ≤ buffer.capacity)
    (hSpan : span.start ≤ span.stop) (hStop : span.stop ≤ medium.data.size) :
    ∃ filled after, fill span (buffer, cursor) = .ok span.size (filled, after) ∧
      after.StandsAt medium reach span.stop ∧
      filled.Holds buffer.capacity (span.bytes medium.data) := by
  obtain ⟨moved, hSeek, hMoved⟩ := h.seekStart
    (Nat.le_trans hSpan (Nat.le_trans hStop h.steady.size_le))
  have hEnd : span.start + span.size = span.stop := by
    unfold Span.size
    omega
  rw [← hEnd] at hStop
  simp only [fill, if_neg (Nat.not_lt.mpr hFits), hSeek]
  obtain ⟨storage, mode, address, frameStart, frameStop, lastSize⟩ := buffer
  unfold Span.bytes
  rw [← hEnd]
  cases mode with
  | linear =>
    obtain ⟨written, after, hWrite, hAfter, hHolds⟩ := writeSegment_holds hMoved .linear address
      (show 0 + span.size ≤ storage.size by rw [Nat.zero_add]; exact hFits) hStop
    rw [Nat.zero_add] at hHolds
    simp only [writeFrame, bind_of_ok hWrite]
    exact ⟨_, after, rfl, hAfter, hHolds⟩
  | ring =>
    by_cases hRoom : frameStop + span.size < storage.size
    · obtain ⟨written, after, hWrite, hAfter, hHolds⟩ := writeSegment_holds hMoved .ring address
        (Nat.le_of_lt hRoom) hStop
      simp only [writeFrame, if_pos hRoom, bind_of_ok hWrite]
      exact ⟨_, after, rfl, hAfter, hHolds⟩
    -- A frame that ends with the ring comes here too; its second part is empty.
    · simp only [capacity] at hPlace hFits
      have hParts : storage.size - frameStop + (span.size - (storage.size - frameStop)) = span.size
        := by omega
      obtain ⟨written, after, hWrite, hAfter, hHolds⟩ := writeFrame_over hMoved address
        (show frameStop + (storage.size - frameStop) = storage.size by omega)
        (show span.size - (storage.size - frameStop) ≤ frameStop by omega) (by rwa [hParts])
      rw [hParts] at hWrite hAfter hHolds
      simp only [hWrite]
      exact ⟨_, after, rfl, hAfter, hHolds⟩

/-! ### One frame after another -/

/-- A turn of reading and feeding: the result of the call for a frame and of feeding it if there is
one, and what the turn leaves. -/
structure Turn where
  result : Except Fault (Option Span)
  fed : Option (Except Fault Nat)
  splitter : Splitter
  reading : Reading
  buffer : FeedBuffer

/-- Reads the next frame and feeds it. -/
def turn (splitter : Splitter) (reading : Reading) (buffer : FeedBuffer) : Turn :=
  let call := splitter.call reading
  match call.result with
  | .ok (some span) =>
    let feeding := fill span (buffer, call.reading.cursor)
    let (buffer, cursor) := stateOf feeding
    { result := call.result, fed := some (resultOf feeding), splitter := call.splitter,
      reading := { call.reading with cursor }, buffer }
  | result =>
    { result, fed := none, splitter := call.splitter, reading := call.reading, buffer }

def nthTurn (splitter : Splitter) (reading : Reading) (buffer : FeedBuffer) : Nat → Turn
  | 0 => turn splitter reading buffer
  | index + 1 =>
    let first := turn splitter reading buffer
    nthTurn first.splitter first.reading first.buffer index

/-- The bytes that the first turns leave in the buffer, each time one frame. -/
def delivered (turns : Nat → Turn) : Nat → ByteArray
  | 0 => ByteArray.empty
  | count + 1 => (turns 0).buffer.frameBytes ++ delivered (fun index => turns (index + 1)) count

/-- A turn gives what a call gives that only reads. A frame is fed whole, the cursor is at its end,
and its bytes are in the buffer; where no frame is read, none is fed. -/
structure Turn.Follows (turn : Turn) (call : Splitter.Call) (data : ByteArray) : Prop where
  result_eq : turn.result = call.result
  splitter_eq : turn.splitter = call.splitter
  whole : ∀ span, call.result = .ok (some span) → turn.fed = some (.ok span.size) ∧
    turn.reading.cursor.position = span.stop ∧ turn.buffer.frameBytes = span.bytes data
  unfed : (∀ span, call.result ≠ .ok (some span)) → turn.fed = none

variable {splitter : Splitter} {reading reading' : Reading} {buffer : FeedBuffer}

theorem turn_fed {span : Span} {filled : FeedBuffer} {after : Cursor}
    (hCall : (splitter.call reading).result = .ok (some span))
    (hFill : fill span (buffer, (splitter.call reading).reading.cursor) =
      .ok span.size (filled, after)) :
    turn splitter reading buffer =
      { result := .ok (some span), fed := some (.ok span.size),
        splitter := (splitter.call reading).splitter,
        reading := { (splitter.call reading).reading with cursor := after },
        buffer := filled } := by
  simp only [turn, hCall, hFill]
  rfl

theorem turn_unfed (hCall : ∀ span, (splitter.call reading).result ≠ .ok (some span)) :
    turn splitter reading buffer =
      { result := (splitter.call reading).result, fed := none,
        splitter := (splitter.call reading).splitter,
        reading := (splitter.call reading).reading, buffer } := by
  simp only [turn]

/-- One turn from a place gives what a call from there gives, and both leave off at one place. -/
theorem turn_follows (hRoom : splitter.method = .images → medium.Roomy reach)
    (h : reading.cursor.StandsAt medium reach offset)
    (h' : reading'.cursor.StandsAt medium reach offset)
    (hPlace : buffer.frameStop ≤ buffer.capacity)
    (hFits : ∀ span, (splitter.call reading').result = .ok (some span) →
      span.size ≤ buffer.capacity) :
    (turn splitter reading buffer).Follows (splitter.call reading') medium.data ∧
      (turn splitter reading buffer).buffer.capacity = buffer.capacity ∧
      (turn splitter reading buffer).buffer.frameStop ≤ buffer.capacity ∧
      ∃ place, (turn splitter reading buffer).reading.cursor.StandsAt medium reach place ∧
        (splitter.call reading').reading.cursor.StandsAt medium reach place := by
  obtain ⟨hResult, hSplitter, hAfter⟩ := Splitter.call_standsAt hRoom h rfl
  obtain ⟨hResult', hSplitter', hAfter'⟩ := Splitter.call_standsAt hRoom h' rfl
  rw [← hResult'] at hResult
  rw [← hSplitter'] at hSplitter
  -- The two calls come to the same along the data, so that the turn feeds what the other reads.
  by_cases hFrame : ∃ span, (splitter.call reading').result = .ok (some span)
  · obtain ⟨span, hSpan⟩ := hFrame
    obtain ⟨hPlain, -, hEnd⟩ := Splitter.call_some hRoom h' hSpan
    obtain ⟨-, hStart, hStop⟩ := Splitter.outcome_some hPlain
    obtain ⟨filled, after, hFill, hFilled, hHolds⟩ :=
      fill_standsAt hAfter hPlace (hFits span hSpan) (Nat.le_of_lt hStart) hStop
    rw [turn_fed (hResult.trans hSpan) hFill]
    refine ⟨⟨hSpan.symm, hSplitter, ?_, ?_⟩, hHolds.capacity_eq, hHolds.frameStop_le,
      span.stop, hFilled, hEnd⟩
    · intro other hOther
      cases hSpan.symm.trans hOther
      exact ⟨rfl, hFilled.position_eq, hHolds.frameBytes_eq⟩
    · intro hNone
      exact absurd hSpan (hNone span)
  · have hNone : ∀ span, (splitter.call reading').result ≠ .ok (some span) := by
      intro span hSpan
      exact hFrame ⟨span, hSpan⟩
    rw [turn_unfed (hResult ▸ hNone)]
    refine ⟨⟨hResult, hSplitter, ?_, fun _ => rfl⟩, rfl, hPlace, _, hAfter, hAfter'⟩
    intro span hSpan
    exact absurd hSpan (hNone span)

/-- A turn gives what the call at its index gives if the frames up to there fit in. The induction is
on the index; the two readings part only in their windows. -/
theorem nthTurn_follows (hRoom : splitter.method = .images → medium.Roomy reach)
    (h : reading.cursor.StandsAt medium reach offset)
    (h' : reading'.cursor.StandsAt medium reach offset)
    (hPlace : buffer.frameStop ≤ buffer.capacity) {index : Nat}
    (hFits : ∀ earlier ≤ index, ∀ span,
      (splitter.nthCall reading' earlier).result = .ok (some span) →
      span.size ≤ buffer.capacity) :
    (nthTurn splitter reading buffer index).Follows (splitter.nthCall reading' index)
      medium.data := by
  induction index generalizing splitter reading reading' buffer offset with
  | zero => exact (turn_follows hRoom h h' hPlace (hFits 0 (Nat.le_refl _))).1
  | succ index ih =>
    obtain ⟨hFollows, hCapacity, hStop, place, hTurn, hCall⟩ :=
      turn_follows hRoom h h' hPlace (hFits 0 (Nat.zero_le _))
    have hSplitter := hFollows.splitter_eq
    have hMethod : (splitter.call reading').splitter.method = splitter.method := by
      rw [(Splitter.call_standsAt hRoom h' rfl).2.1, Splitter.method_counted]
    unfold nthTurn Splitter.nthCall
    simp only [hSplitter]
    apply ih (hMethod ▸ hRoom) hTurn hCall (hCapacity ▸ hStop)
    intro earlier hEarlier span hSpan
    rw [hCapacity]
    exact hFits (earlier + 1) (Nat.succ_le_succ hEarlier) span hSpan

theorem delivered_eq {turns : Nat → Turn} {spans : List Span} {data : ByteArray}
    (h : ∀ index span, spans[index]? = some span →
      (turns index).buffer.frameBytes = span.bytes data) :
    delivered turns spans.length = Span.joined data spans := by
  induction spans generalizing turns with
  | nil => rfl
  | cons span rest ih =>
    have hRest := ih fun index other hOther => h (index + 1) other hOther
    simp only [List.length_cons, delivered, Span.joined, h 0 span rfl, hRest]

/-- Reading and feeding in turn loses nothing and disturbs nothing, whatever the mode of the buffer
and however it was used before. As long as the frames fit in, every turn gives what reading alone
gives, also at the end of the stream and at a fault; each frame is fed whole and read back from the
two parts of the buffer. What has been delivered up to a frame is the data from the first frame's
start to that frame's end. -/
theorem feed_lossless (hRoom : splitter.method = .images → medium.Roomy reach)
    (h : reading.cursor.StandsAt medium reach offset)
    (hPlace : buffer.frameStop ≤ buffer.capacity) :
    (∀ index, (∀ earlier ≤ index, ∀ span,
        (splitter.nthCall reading earlier).result = .ok (some span) →
        span.size ≤ buffer.capacity) →
      (nthTurn splitter reading buffer index).Follows (splitter.nthCall reading index)
        medium.data) ∧
    ∀ (spans : List Span) (first last : Span),
      spans.head? = some first → spans.getLast? = some last →
      (∀ index span, spans[index]? = some span →
        (splitter.nthCall reading index).result = .ok (some span)) →
      (∀ span ∈ spans, span.size ≤ buffer.capacity) →
      delivered (nthTurn splitter reading buffer) spans.length =
        medium.data.extract first.start last.stop := by
  refine ⟨fun index hFits => nthTurn_follows hRoom h h hPlace hFits, ?_⟩
  intro spans first last hFirst hLast hCalls hFits
  have hTile := Splitter.tile_of_calls hRoom h hFirst hLast hCalls
  rw [← hTile.joined_eq]
  apply delivered_eq
  intro index span hSpan
  obtain ⟨hIndex, -⟩ := List.getElem?_eq_some_iff.mp hSpan
  have hEarlier : ∀ earlier ≤ index, ∀ other,
      (splitter.nthCall reading earlier).result = .ok (some other) →
      other.size ≤ buffer.capacity := by
    intro earlier hLe other hOther
    have hGiven := hCalls earlier _ (List.getElem?_eq_getElem (Nat.lt_of_le_of_lt hLe hIndex))
    cases hGiven.symm.trans hOther
    exact hFits _ (List.getElem_mem _)
  exact ((nthTurn_follows hRoom h h hPlace hEarlier).whole span (hCalls index span hSpan)).2.2

/-- Two images of four bytes. -/
def twoImages : ByteArray := ⟨#[0xff, 0xd8, 0xff, 0xd9, 0xff, 0xd8, 0xff, 0xd9]⟩

def twoImagesStart : Reading where
  cursor := .ofMedium (.ofBytes twoImages) 16

/-- The second image goes over the end of the ring. -/
theorem feed_lossless_twoImages :
    delivered (nthTurn (Splitter.ofFormat .mjpeg) twoImagesStart (ofCapacity .ring 7 0)) 2 =
      twoImages := by
  have hRoom : (Medium.ofBytes twoImages).Roomy 0x7fff_ffff_ffff_ffff :=
    Medium.roomy_ofBytes (by decide)
  have hStands : twoImagesStart.cursor.StandsAt (.ofBytes twoImages) 0x7fff_ffff_ffff_ffff 0 :=
    Cursor.standsAt_ofMedium (Medium.steady_ofBytes (by decide)) 16
  have hDelivered :
      delivered (nthTurn (Splitter.ofFormat .mjpeg) twoImagesStart (ofCapacity .ring 7 0)) 2 =
        twoImages.extract 0 8 := by
    apply (feed_lossless (fun _ => hRoom) hStands (Nat.zero_le _)).2 [⟨0, 4⟩, ⟨4, 8⟩] ⟨0, 4⟩ ⟨4, 8⟩
      rfl rfl
    · intro index span hSpan
      match index with
      | 0 => cases hSpan; exact ok_of_toOption (by decide +kernel)
      | 1 => cases hSpan; exact ok_of_toOption (by decide +kernel)
      | index + 2 => cases hSpan
    · intro span hSpan
      have hCapacity : (ofCapacity .ring 7 0).capacity = 7 := by decide +kernel
      rw [hCapacity]
      simp only [List.mem_cons, List.not_mem_nil, or_false] at hSpan
      rcases hSpan with rfl | rfl <;> decide
  exact hDelivered.trans (by decide +kernel)

end FrameFeed.FeedBuffer
