import FrameFeed.Image
import FrameFeed.Proofs.Cursor.Standing
import FrameFeed.Proofs.Steps

/-! The walk along the markers of an image, over data held in memory. Over a steady medium the
reading of an image is that walk, whatever windows it is read through. -/

namespace FrameFeed

/-- A medium with room after its data for what the reading of images looks at and jumps to: a size
that is reported is the true one, and otherwise the longest segment stays within reach. -/
structure Medium.Roomy (medium : Medium) (reach : Nat) : Prop where
  reported : ∀ size, medium.reportedSize = some size → size = medium.data.size
  peeked : medium.data.size + 2 ≤ reach
  jumped : medium.reportedSize = none → medium.data.size + 65536 ≤ reach

theorem Medium.roomy_ofBytes {data : ByteArray} (h : data.size + 2 < 0x8000_0000_0000_0000) :
    (Medium.ofBytes data).Roomy 0x7fff_ffff_ffff_ffff where
  reported _ hSize := (Option.some.inj hSize).symm
  peeked := Nat.le_pred_of_lt h
  jumped hNone := by cases hNone

namespace Image

open EStateM (Result)

/-- The code of a marker and the offset after it. -/
structure Marker where
  code : UInt8
  stop : Nat
  deriving DecidableEq, Repr

/-- The marker whose bytes 255 go on at an offset. -/
def codeFrom? (data : ByteArray) (offset : Nat) : Option Marker :=
  if h : offset < data.size then
    if data[offset] = 0xff then codeFrom? data (offset + 1) else some ⟨data[offset], offset + 1⟩
  else
    none
termination_by data.size - offset

/-- The next marker at or after an offset. -/
def markerFrom? (data : ByteArray) (offset : Nat) : Option Marker :=
  match findMark? data offset with
  | some index => codeFrom? data (index + 1)
  | none => none

/-- Jumps over the segment whose length is at an offset. A size that is reported rules out
segments that go over it. -/
def jumpFrom (marker : UInt8) (data : ByteArray) (size : Option Nat) (offset : Nat) :
    Result Fault Nat Unit :=
  if data.size - offset < 2 then
    .error (.segmentCut marker (offset - 2)) (offset + (data.size - offset))
  else if pairAt data offset < 2 then
    .error (.segmentLength marker (pairAt data offset) (offset - 2)) (offset + 2)
  else if size.any (· < offset + pairAt data offset) then
    .error (.segmentCut marker (offset - 2)) (offset + 2)
  else
    .ok () (offset + pairAt data offset)

def announcesThumbnail (data : ByteArray) (offset : Nat) : Bool :=
  listed (data.extract offset (offset + thumbnailBytes.length)) = thumbnailBytes

/-! ### Bounds -/

variable {data : ByteArray} {offset : Nat}

theorem findMark?_bounds {index place : Nat} (h : findMark? data index = some place) :
    index ≤ place ∧ place < data.size := by
  fun_induction findMark? data index with
  | case1 index hSize =>
    cases h
    exact ⟨Nat.le_refl _, hSize⟩
  | case2 index hSize _ ih =>
    have := ih h
    omega
  | case3 => cases h

theorem codeFrom?_bounds {marker : Marker} (h : codeFrom? data offset = some marker) :
    offset < marker.stop ∧ marker.stop ≤ data.size := by
  fun_induction codeFrom? data offset with
  | case1 offset hSize _ ih =>
    have := ih h
    omega
  | case2 offset hSize =>
    cases h
    exact ⟨Nat.lt_succ_self _, hSize⟩
  | case3 => cases h

/-- A marker that is found ends in the data, two bytes or more after the offset. -/
theorem markerFrom?_bounds {marker : Marker} (h : markerFrom? data offset = some marker) :
    offset + 2 ≤ marker.stop ∧ marker.stop ≤ data.size := by
  simp only [markerFrom?] at h
  split at h
  · rename_i index hMark
    have := findMark?_bounds hMark
    have := codeFrom?_bounds h
    omega
  · cases h

theorem jumpFrom_le {marker : UInt8} {size : Option Nat} {landed : Nat}
    (h : jumpFrom marker data size offset = .ok () landed) : offset + 2 ≤ landed := by
  simp only [jumpFrom] at h
  split at h
  · cases h
  · split at h
    · cases h
    · split at h
      · cases h
      · cases h
        omega

theorem left_lt_of_markerFrom? {marker : Marker} (h : markerFrom? data offset = some marker) :
    data.size - marker.stop < data.size - offset := by
  have := markerFrom?_bounds h
  omega

theorem left_lt_of_jumpFrom {code : UInt8} {size : Option Nat} {marker : Marker} {landed : Nat}
    (hMarker : markerFrom? data offset = some marker)
    (hJump : jumpFrom code data size marker.stop = .ok () landed) :
    data.size - landed < data.size - offset := by
  have := markerFrom?_bounds hMarker
  have := jumpFrom_le hJump
  omega

/-- Walks from marker to marker to the end of an image that starts at `start`, and gives the offset
of that end. Inside a thumbnail an end marker only ends the thumbnail. -/
def walk (data : ByteArray) (size : Option Nat) (start : Nat) (thumbnail : Bool) (offset : Nat) :
    Result Fault Nat Nat :=
  match hMarker : markerFrom? data offset with
  | none => .error (.noImageEnd start) (max offset data.size)
  | some marker =>
    have : data.size - marker.stop < data.size - offset := left_lt_of_markerFrom? hMarker
    if marker.code = endMarker then
      if thumbnail then walk data size start false marker.stop else .ok marker.stop marker.stop
    else if marker.code = applicationMarker then
      walk data size start (thumbnail || announcesThumbnail data (marker.stop + 2)) marker.stop
    else if isJumped marker.code then
      match hJump : jumpFrom marker.code data size marker.stop with
      | .error fault place => .error fault place
      | .ok _ landed =>
        have : data.size - landed < data.size - offset := left_lt_of_jumpFrom hMarker hJump
        walk data size start thumbnail landed
    else
      walk data size start thumbnail marker.stop
termination_by data.size - offset

section Walk

variable {size : Option Nat} {start : Nat} {thumbnail : Bool}

theorem walk_none (h : markerFrom? data offset = none) :
    walk data size start thumbnail offset = .error (.noImageEnd start) (max offset data.size) := by
  rw [walk]
  split
  · rfl
  · rename_i hSome
    cases h.symm.trans hSome

theorem walk_some {marker : Marker} (h : markerFrom? data offset = some marker) :
    walk data size start thumbnail offset =
      if marker.code = endMarker then
        if thumbnail then walk data size start false marker.stop else .ok marker.stop marker.stop
      else if marker.code = applicationMarker then
        walk data size start (thumbnail || announcesThumbnail data (marker.stop + 2)) marker.stop
      else if isJumped marker.code then
        match jumpFrom marker.code data size marker.stop with
        | .error fault place => .error fault place
        | .ok _ landed => walk data size start thumbnail landed
      else
        walk data size start thumbnail marker.stop := by
  rw [walk]
  split
  · rename_i hNone
    cases h.symm.trans hNone
  · rename_i hSome
    cases h.symm.trans hSome
    split
    · rfl
    · split
      · rfl
      · split
        · split <;> rename_i hJump <;> simp only [hJump]
        · rfl

/-- An image that ends does so inside the data, after the offset the walk began at. -/
theorem walk_bounds {stop place : Nat}
    (h : walk data size start thumbnail offset = .ok stop place) :
    place = stop ∧ offset < stop ∧ stop ≤ data.size := by
  fun_induction walk data size start thumbnail offset with
  | case1 => cases h
  | case2 offset marker hMarker hLess hEnd ih =>
    have := markerFrom?_bounds hMarker
    have := ih h
    omega
  | case3 thumbnail offset marker hMarker hLess hEnd hThumbnail =>
    have := markerFrom?_bounds hMarker
    cases h
    omega
  | case4 thumbnail offset marker hMarker hLess hEnd hApplication ih =>
    have := markerFrom?_bounds hMarker
    have := ih h
    omega
  | case5 => cases h
  | case6 thumbnail offset marker hMarker hLess hEnd hApplication hJumped _ landed hJump _ ih =>
    have := markerFrom?_bounds hMarker
    have := jumpFrom_le hJump
    have := ih h
    omega
  | case7 thumbnail offset marker hMarker hLess hEnd hApplication hJumped ih =>
    have := markerFrom?_bounds hMarker
    have := ih h
    omega

end Walk

/-! ### Reading -/

/-- A search for a byte 255 in a piece of the data goes on after the piece. -/
theorem findMark?_extract {first last index : Nat} (hLast : last ≤ data.size)
    (hIndex : first + index ≤ last) :
    findMark? data (first + index) =
      match findMark? (data.extract first last) index with
      | some place => some (first + place)
      | none => findMark? data last := by
  have hSize : (data.extract first last).size = last - first := by
    rw [ByteArray.size_extract]; omega
  fun_induction findMark? (data.extract first last) index with
  | case1 index hIn hMark =>
    rw [ByteArray.getElem_extract] at hMark
    rw [findMark?, dif_pos (by omega), if_pos hMark]
  | case2 index hIn hMark ih =>
    rw [ByteArray.getElem_extract] at hMark
    rw [findMark?, dif_pos (by omega), if_neg hMark]
    exact ih (by omega)
  | case3 index hIn =>
    rw [show first + index = last by omega]

variable {medium : Medium} {reach : Nat} {cursor : Cursor}

/-- Moving past the next byte 255 moves past the one that a search in memory finds, or to the
end. -/
theorem skipToMark_standsAt (h : cursor.StandsAt medium reach offset) :
    ∃ after, skipToMark cursor = .ok (findMark? medium.data offset).isSome after ∧
      after.StandsAt medium reach (match findMark? medium.data offset with
        | some index => index + 1
        | none => max offset medium.data.size) := by
  fun_induction skipToMark cursor generalizing offset with
  | case1 cursor fault failed hFill =>
    obtain ⟨_, hOk, -⟩ := h.fill
    cases hFill.symm.trans hOk
  | case2 cursor _ filled hFill hEmpty =>
    obtain ⟨_, hOk, hFilled, hEnd⟩ := h.fill
    cases hFill.symm.trans hOk
    have hPast := hEnd.mp hEmpty
    rw [findMark?, dif_neg (by omega)]
    refine ⟨filled, rfl, ?_⟩
    rwa [← Nat.max_eq_left hPast] at hFilled
  | case3 cursor _ filled hFill hSome index hMark =>
    obtain ⟨_, hOk, hFilled, -⟩ := h.fill
    cases hFill.symm.trans hOk
    obtain ⟨first, rfl, hWindow⟩ := hFilled.window_eq
    obtain ⟨hLow, hHigh⟩ := findMark?_bounds hMark
    rw [findMark?_extract (hFilled.buffered_le hSome) (Nat.le_add_right _ _), ← hWindow, hMark]
    refine ⟨_, rfl, ?_⟩
    have hStands := hFilled.advance (index - filled.used + 1)
    rwa [Nat.min_eq_left (by simp only [Cursor.buffered]; omega),
      show first + filled.used + (index - filled.used + 1) = first + index + 1 by omega]
      at hStands
  | case4 cursor _ filled hFill hSome hMark _ ih =>
    obtain ⟨_, hOk, hFilled, -⟩ := h.fill
    cases hFill.symm.trans hOk
    have hStands := hFilled.advance filled.buffered
    rw [Nat.min_self] at hStands
    obtain ⟨after, hSkip, hAfter⟩ := ih hStands
    have hSize := hFilled.buffered_le hSome
    obtain ⟨first, rfl, hWindow⟩ := hFilled.window_eq
    rw [findMark?_extract hSize (Nat.le_add_right _ _), ← hWindow, hMark]
    refine ⟨after, hSkip, ?_⟩
    rwa [Nat.max_eq_right hSize, ← Nat.max_eq_right (Nat.le_of_add_right_le hSize)] at hAfter

theorem readCode_standsAt (h : cursor.StandsAt medium reach offset) :
    ∃ after, readCode cursor = .ok ((codeFrom? medium.data offset).map Marker.code) after ∧
      after.StandsAt medium reach (match codeFrom? medium.data offset with
        | some marker => marker.stop
        | none => max offset medium.data.size) := by
  fun_induction readCode cursor generalizing offset with
  | case1 cursor fault failed hFill =>
    obtain ⟨_, hOk, -⟩ := h.fill
    cases hFill.symm.trans hOk
  | case2 cursor _ filled hFill hIn hLess hMark ih =>
    obtain ⟨_, hOk, hFilled, -⟩ := h.fill
    cases hFill.symm.trans hOk
    obtain ⟨hOffset, hByte⟩ := hFilled.getElem_window hIn
    have hStands := hFilled.advance 1
    rw [Nat.min_eq_left (by simp only [Cursor.buffered]; omega)] at hStands
    rw [codeFrom?, dif_pos hOffset, if_pos (hByte ▸ hMark)]
    obtain ⟨after, hCode, hAfter⟩ := ih hStands
    refine ⟨after, hCode, ?_⟩
    rwa [Nat.max_eq_right hOffset, ← Nat.max_eq_right (Nat.le_of_lt hOffset)] at hAfter
  | case3 cursor _ filled hFill hIn hLess hMark =>
    obtain ⟨_, hOk, hFilled, -⟩ := h.fill
    cases hFill.symm.trans hOk
    obtain ⟨hOffset, hByte⟩ := hFilled.getElem_window hIn
    have hStands := hFilled.advance 1
    rw [Nat.min_eq_left (by simp only [Cursor.buffered]; omega)] at hStands
    rw [codeFrom?, dif_pos hOffset, if_neg (hByte ▸ hMark), hByte]
    exact ⟨_, rfl, hStands⟩
  | case4 cursor _ filled hFill hIn =>
    obtain ⟨_, hOk, hFilled, hEnd⟩ := h.fill
    cases hFill.symm.trans hOk
    have hPast := hEnd.mp (by simp only [Cursor.buffered]; omega)
    rw [codeFrom?, dif_neg (by omega)]
    refine ⟨filled, rfl, ?_⟩
    rwa [← Nat.max_eq_left hPast] at hFilled

/-- The next marker is the one that is found in memory; the cursor is past it afterwards, or at the
end if there is none. -/
theorem nextMarker?_standsAt (h : cursor.StandsAt medium reach offset) :
    ∃ after, nextMarker? cursor = .ok ((markerFrom? medium.data offset).map Marker.code) after ∧
      after.StandsAt medium reach (match markerFrom? medium.data offset with
        | some marker => marker.stop
        | none => max offset medium.data.size) := by
  obtain ⟨marked, hSkip, hMarked⟩ := skipToMark_standsAt h
  cases hMark : findMark? medium.data offset with
  | none =>
    rw [hMark] at hSkip hMarked
    simp only [nextMarker?, hSkip, Option.isSome_none, markerFrom?, hMark]
    exact ⟨marked, rfl, hMarked⟩
  | some index =>
    rw [hMark] at hSkip hMarked
    have hBounds := findMark?_bounds hMark
    obtain ⟨after, hCode, hAfter⟩ := readCode_standsAt hMarked
    simp only [nextMarker?, hSkip, Option.isSome_some, markerFrom?, hMark]
    refine ⟨after, hCode, ?_⟩
    have hInside : offset ≤ medium.data.size := by omega
    rwa [Nat.max_eq_right hBounds.2, ← Nat.max_eq_right hInside] at hAfter

theorem nextMarker?_some (h : cursor.StandsAt medium reach offset) {marked : Cursor} {code : UInt8}
    (hMarker : nextMarker? cursor = .ok (some code) marked) :
    ∃ marker, markerFrom? medium.data offset = some marker ∧ marker.code = code ∧
      marked.StandsAt medium reach marker.stop := by
  obtain ⟨_, hOk, hMarked⟩ := nextMarker?_standsAt h
  obtain ⟨hCode, rfl⟩ := Result.ok.inj (hMarker.symm.trans hOk)
  cases hFound : markerFrom? medium.data offset with
  | none => rw [hFound] at hCode; cases hCode
  | some marker =>
    rw [hFound] at hCode hMarked
    exact ⟨marker, rfl, (Option.some.inj hCode).symm, hMarked⟩

/-- Jumping over a segment comes to what it comes to along the data. -/
theorem jump_agrees (marker : UInt8) (hRoom : medium.Roomy reach)
    (h : cursor.StandsAt medium reach offset) (hOffset : offset ≤ medium.data.size) :
    Cursor.Agrees id medium reach (jump marker cursor.size (offset - 2) cursor)
      (jumpFrom marker medium.data medium.reportedSize offset) := by
  have hPair := pairAt_lt medium.data offset
  have hReported : cursor.size = medium.reportedSize := by rw [Cursor.size, h.medium_eq]
  by_cases hCut : medium.data.size - offset < 2
  · obtain ⟨after, hRead, hAfter⟩ := h.readPair_short hCut
    simp only [jump, hRead, jumpFrom, if_pos hCut]
    exact .error hAfter
  obtain ⟨after, hRead, hAfter⟩ := h.readPair (Nat.not_lt.mp hCut)
  simp only [jump, hRead, jumpFrom, if_neg hCut, h.position_eq, hReported]
  by_cases hLength : pairAt medium.data offset < 2
  · simp only [if_pos hLength]
    exact .error hAfter
  simp only [if_neg hLength]
  by_cases hPast : medium.reportedSize.any (· < offset + pairAt medium.data offset) = true
  · simp only [if_pos hPast]
    exact .error hAfter
  simp only [if_neg hPast]
  have hTarget : offset + 2 + (pairAt medium.data offset - 2) ≤ reach := by
    cases hSize : medium.reportedSize with
    | none =>
      have := hRoom.jumped hSize
      omega
    | some size =>
      rw [hSize, Option.any_some, decide_eq_true_eq, hRoom.reported size hSize] at hPast
      have := h.steady.size_le
      omega
  obtain ⟨landed, hSkip, hLanded⟩ := hAfter.skip hTarget
  rw [hSkip]
  rw [show offset + 2 + (pairAt medium.data offset - 2) = offset + pairAt medium.data offset
    by omega] at hLanded
  exact .ok hLanded

/-- Reading an image to its end comes to what the walk comes to. The induction is on the steps of
the reading, which passes one marker in each. -/
theorem stopFrom_agrees (start : Nat) (thumbnail : Bool) (hRoom : medium.Roomy reach)
    (h : cursor.StandsAt medium reach offset) :
    Cursor.Agrees id medium reach (stopFrom start thumbnail cursor)
      (walk medium.data medium.reportedSize start thumbnail offset) := by
  fun_induction stopFrom start thumbnail cursor generalizing offset with
  | case1 thumbnail cursor fault failed hMarker =>
    obtain ⟨_, hOk, -⟩ := nextMarker?_standsAt h
    cases hMarker.symm.trans hOk
  | case2 thumbnail cursor after hMarker =>
    obtain ⟨_, hOk, hAfter⟩ := nextMarker?_standsAt h
    obtain ⟨hNone, rfl⟩ := Result.ok.inj (hMarker.symm.trans hOk)
    have hFound := Option.map_eq_none_iff.mp hNone.symm
    rw [hFound] at hAfter
    rw [walk_none hFound]
    exact .error hAfter
  | case3 cursor marked hMarker _ ih =>
    obtain ⟨marker, hFound, hCode, hMarked⟩ := nextMarker?_some h hMarker
    rw [walk_some hFound, if_pos hCode, if_pos rfl]
    exact ih hMarked
  | case4 thumbnail cursor marked hThumbnail hMarker =>
    obtain ⟨marker, hFound, hCode, hMarked⟩ := nextMarker?_some h hMarker
    rw [walk_some hFound, if_pos hCode, if_neg hThumbnail, hMarked.position_eq]
    exact .ok hMarked
  | case5 thumbnail cursor marked fault failed hPeek hMarker =>
    obtain ⟨marker, hFound, hCode, hMarked⟩ := nextMarker?_some h hMarker
    have hTarget : marker.stop + 2 ≤ reach :=
      Nat.le_trans (Nat.add_le_add_right (markerFrom?_bounds hFound).2 2) hRoom.peeked
    obtain ⟨_, hOk, -⟩ := hMarked.peekAt hTarget thumbnailBytes.length
    rw [hMarked.position_eq] at hPeek
    cases hPeek.symm.trans hOk
  | case6 thumbnail cursor marked bytes peeked hPeek hMarker hLess hEnd _ ih =>
    obtain ⟨marker, hFound, hCode, hMarked⟩ := nextMarker?_some h hMarker
    have hTarget : marker.stop + 2 ≤ reach :=
      Nat.le_trans (Nat.add_le_add_right (markerFrom?_bounds hFound).2 2) hRoom.peeked
    obtain ⟨_, hOk, hPeeked⟩ := hMarked.peekAt hTarget thumbnailBytes.length
    rw [hMarked.position_eq] at hPeek
    cases hPeek.symm.trans hOk
    rw [walk_some hFound, hCode, if_neg hEnd, if_pos rfl]
    exact ih hPeeked
  | case7 thumbnail cursor code marked hMarker hLess hEnd hApplication hJumped fault failed hJump =>
    obtain ⟨marker, hFound, rfl, hMarked⟩ := nextMarker?_some h hMarker
    have hAgrees := jump_agrees marker.code hRoom hMarked (markerFrom?_bounds hFound).2
    rw [hMarked.position_eq] at hJump
    rw [hJump] at hAgrees
    obtain ⟨place, hPlain, hFailed⟩ := hAgrees.of_error
    rw [walk_some hFound, if_neg hEnd, if_neg hApplication, if_pos hJumped]
    simp only [hPlain]
    exact .error hFailed
  | case8 thumbnail cursor code marked hMarker hLess hEnd hApplication hJumped _ jumped hJump _
      ih =>
    obtain ⟨marker, hFound, rfl, hMarked⟩ := nextMarker?_some h hMarker
    have hAgrees := jump_agrees marker.code hRoom hMarked (markerFrom?_bounds hFound).2
    rw [hMarked.position_eq] at hJump
    rw [hJump] at hAgrees
    obtain ⟨landed, hPlain, hLanded⟩ := hAgrees.of_ok
    rw [walk_some hFound, if_neg hEnd, if_neg hApplication, if_pos hJumped]
    simp only [hPlain]
    exact ih hLanded
  | case9 thumbnail cursor code marked hMarker hLess hEnd hApplication hJumped ih =>
    obtain ⟨marker, hFound, rfl, hMarked⟩ := nextMarker?_some h hMarker
    rw [walk_some hFound, if_neg hEnd, if_neg hApplication, if_neg hJumped]
    exact ih hMarked

/-- What the reading of an image comes to along the data. -/
def outcome (medium : Medium) (offset : Nat) : Result Fault Nat (Option Span) :=
  if medium.data.size ≤ offset then
    .ok none offset
  else
    match walk medium.data medium.reportedSize offset false offset with
    | .ok stop place => .ok (some ⟨offset, stop⟩) place
    | .error fault place => .error fault place

/-- Reading an image comes to what it comes to along the data. -/
theorem next_agrees {reading : Reading} (hRoom : medium.Roomy reach)
    (h : reading.cursor.StandsAt medium reach offset) :
    Cursor.Agrees Reading.cursor medium reach (next reading) (outcome medium offset) := by
  obtain ⟨asked, hEnd, hAsked⟩ := h.atEnd hRoom.reported
  rw [next, bind_of_ok (Reading.onCursor_ok hEnd)]
  by_cases hPast : medium.data.size ≤ offset
  · rw [if_pos (decide_eq_true hPast), outcome, if_pos hPast]
    exact .ok hAsked
  obtain ⟨peeked, hPeek, hPeeked⟩ := hAsked.peekAt h.le_reach startBytes.length
  rw [if_neg (by simpa using hPast), bind_of_ok Reading.position_ok, hAsked.position_eq,
    bind_of_ok (Reading.onCursor_ok hPeek)]
  -- The walk does not depend on the remark about the first bytes.
  have hTail : ∀ notes, Cursor.Agrees Reading.cursor medium reach
      ((do
        let stop ← Reading.onCursor (stopFrom offset false)
        return some ⟨offset, stop⟩ : Reading.Action (Option Span)) { cursor := peeked, notes })
      (outcome medium offset) := by
    intro notes
    have hAgrees := stopFrom_agrees offset false hRoom hPeeked
    simp only [outcome, if_neg hPast, bind, EStateM.bind, Reading.onCursor]
    cases hReal : stopFrom offset false peeked with
    | ok stop after =>
      obtain ⟨place, hPlain, hAfter⟩ := (hReal ▸ hAgrees).of_ok
      rw [hPlain]
      exact .ok hAfter
    | error fault after =>
      obtain ⟨place, hPlain, hAfter⟩ := (hReal ▸ hAgrees).of_error
      rw [hPlain]
      exact .error hAfter
  by_cases hStart : listed (medium.data.extract offset (offset + startBytes.length)) ≠ startBytes
  · rw [if_pos hStart]
    exact hTail _
  · rw [if_neg hStart]
    exact hTail _

end Image

end FrameFeed
