import FrameFeed.Proofs.Image.Walk

/-! The walk along the markers of an image as a relation on the data alone, without cursors and
windows, and the proof that reading an image follows it. -/

namespace FrameFeed.Image

open EStateM (Result)

/-! ### Markers -/

/-- The next marker from an offset on: the first byte 255, any more of them, and then the code,
which is another byte. -/
def IsNextMarker (data : ByteArray) (offset : Nat) (marker : Marker) : Prop :=
  ∃ mark, offset ≤ mark ∧ mark + 2 ≤ marker.stop ∧
    (∀ place, offset ≤ place → place < mark → data[place]? ≠ some 0xff) ∧
    (∀ place, mark ≤ place → place + 1 < marker.stop → data[place]? = some 0xff) ∧
    data[marker.stop - 1]? = some marker.code ∧ marker.code ≠ 0xff

variable {data : ByteArray} {offset : Nat} {marker : Marker}

theorem findMark?_eq_some_iff {mark : Nat} : findMark? data offset = some mark ↔
    offset ≤ mark ∧ data[mark]? = some 0xff ∧
      ∀ place, offset ≤ place → place < mark → data[place]? ≠ some 0xff := by
  fun_induction findMark? data offset with
  | case1 offset hSize hMark =>
    have hByte := (getElem?_eq_some_iff_getElem hSize).mpr hMark
    constructor
    · intro hEq
      cases hEq
      exact ⟨Nat.le_refl _, hByte, fun place hFrom hTo => by omega⟩
    · rintro ⟨hLe, -, hNone⟩
      by_cases hEq : offset = mark
      · rw [hEq]
      · exact absurd hByte (hNone offset (Nat.le_refl _) (by omega))
  | case2 offset hSize hMark ih =>
    have hByte : data[offset]? ≠ some 0xff := fun hSome =>
      hMark ((getElem?_eq_some_iff_getElem hSize).mp hSome)
    rw [ih]
    constructor
    · rintro ⟨hLe, hFound, hNone⟩
      refine ⟨by omega, hFound, fun place hFrom hTo => ?_⟩
      by_cases hEq : place = offset
      · rwa [hEq]
      · exact hNone place (by omega) hTo
    · rintro ⟨hLe, hFound, hNone⟩
      have hNe : mark ≠ offset := fun hEq => hByte (hEq ▸ hFound)
      exact ⟨by omega, hFound, fun place hFrom hTo => hNone place (by omega) hTo⟩
  | case3 offset hSize =>
    constructor
    · intro hEq
      cases hEq
    · rintro ⟨hLe, hFound, -⟩
      have := lt_size_of_getElem? hFound
      omega

theorem codeFrom?_eq_some_iff : codeFrom? data offset = some marker ↔
    offset < marker.stop ∧ data[marker.stop - 1]? = some marker.code ∧ marker.code ≠ 0xff ∧
      ∀ place, offset ≤ place → place + 1 < marker.stop → data[place]? = some 0xff := by
  fun_induction codeFrom? data offset with
  | case1 offset hSize hMark ih =>
    have hByte := (getElem?_eq_some_iff_getElem hSize).mpr hMark
    rw [ih]
    constructor
    · rintro ⟨hLt, hCode, hNe, hMarks⟩
      refine ⟨by omega, hCode, hNe, fun place hFrom hTo => ?_⟩
      by_cases hEq : place = offset
      · rwa [hEq]
      · exact hMarks place (by omega) hTo
    · rintro ⟨hLt, hCode, hNe, hMarks⟩
      have hLater : marker.stop ≠ offset + 1 := by
        intro hEq
        rw [hEq, Nat.add_sub_cancel, hByte] at hCode
        exact hNe (Option.some.inj hCode).symm
      exact ⟨by omega, hCode, hNe, fun place hFrom hTo => hMarks place (by omega) hTo⟩
  | case2 offset hSize hMark =>
    constructor
    · intro hEq
      cases hEq
      refine ⟨Nat.lt_succ_self _, ?_, hMark, fun place hFrom hTo => ?_⟩
      · exact (getElem?_eq_some_iff_getElem hSize).mpr rfl
      · simp only at hTo
        omega
    · rintro ⟨hLt, hCode, -, hMarks⟩
      have hStop : marker.stop ≤ offset + 1 := Nat.not_lt.mp fun hLater =>
        hMark ((getElem?_eq_some_iff_getElem hSize).mp (hMarks offset (Nat.le_refl _) hLater))
      rw [show marker.stop - 1 = offset by omega, getElem?_eq_some_iff_getElem hSize] at hCode
      rw [hCode, show offset + 1 = marker.stop by omega]
  | case3 offset hSize =>
    constructor
    · intro hEq
      cases hEq
    · rintro ⟨hLt, hCode, -, hMarks⟩
      have := lt_size_of_getElem? hCode
      omega

theorem markerFrom?_eq_some_iff : markerFrom? data offset = some marker ↔
    IsNextMarker data offset marker := by
  constructor
  · intro hMarker
    simp only [markerFrom?] at hMarker
    split at hMarker
    · rename_i mark hMark
      obtain ⟨hLe, hByte, hNone⟩ := findMark?_eq_some_iff.mp hMark
      obtain ⟨hLt, hCode, hNe, hMarks⟩ := codeFrom?_eq_some_iff.mp hMarker
      refine ⟨mark, hLe, by omega, hNone, fun place hFrom hTo => ?_, hCode, hNe⟩
      by_cases hEq : place = mark
      · rwa [hEq]
      · exact hMarks place (by omega) hTo
    · cases hMarker
  · rintro ⟨mark, hLe, hStop, hNone, hMarks, hCode, hNe⟩
    have hMark := findMark?_eq_some_iff.mpr ⟨hLe, hMarks mark (Nat.le_refl _) (by omega), hNone⟩
    simp only [markerFrom?, hMark]
    exact codeFrom?_eq_some_iff.mpr
      ⟨by omega, hCode, hNe, fun place hFrom hTo => hMarks place (by omega) hTo⟩

theorem markerFrom?_eq_none_iff : markerFrom? data offset = none ↔
    ∀ marker, ¬IsNextMarker data offset marker := by
  constructor
  · intro hNone marker hMarker
    cases hNone.symm.trans (markerFrom?_eq_some_iff.mpr hMarker)
  · intro hNone
    cases hFound : markerFrom? data offset with
    | none => rfl
    | some marker => exact absurd (markerFrom?_eq_some_iff.mp hFound) (hNone marker)

theorem IsNextMarker.lt {marker : Marker} (h : IsNextMarker data offset marker) :
    offset + 2 ≤ marker.stop ∧ marker.stop ≤ data.size :=
  markerFrom?_bounds (markerFrom?_eq_some_iff.mpr h)

/-! ### Images -/

/-- After the two bytes of its length, a segment announces a thumbnail. -/
def Announces (data : ByteArray) (offset : Nat) : Prop :=
  data.extract (offset + 2) (offset + 8) = ⟨#[0x4a, 0x46, 0x58, 0x58, 0x00, 0x10]⟩

/-- The codes of markers whose segments are jumped over. -/
def HasSegment (code : UInt8) : Prop :=
  (0xe1 ≤ code ∧ code ≤ 0xef) ∨ (0xc1 ≤ code ∧ code ≤ 0xc3) ∨ (0xc5 ≤ code ∧ code ≤ 0xcb)

/-- The segment whose length is at an offset lies inside the data. -/
structure Jumpable (data : ByteArray) (offset : Nat) : Prop where
  length_inside : offset + 2 ≤ data.size
  two_le : 2 ≤ pairAt data offset
  segment_inside : offset + pairAt data offset ≤ data.size

/-- The walk along the markers of an image from an offset on, inside a thumbnail or not. It comes
to the offset after the image's end marker, or to nothing. -/
inductive WalksTo (data : ByteArray) : (thumbnail : Bool) → (offset : Nat) → Option Nat → Prop
  | ended {offset : Nat} {marker : Marker} :
      IsNextMarker data offset marker → marker.code = 0xd9 →
      WalksTo data false offset (some marker.stop)
  | thumbnailEnded {offset : Nat} {marker : Marker} {stop? : Option Nat} :
      IsNextMarker data offset marker → marker.code = 0xd9 →
      WalksTo data false marker.stop stop? → WalksTo data true offset stop?
  | thumbnailBegun {thumbnail : Bool} {offset : Nat} {marker : Marker} {stop? : Option Nat} :
      IsNextMarker data offset marker → marker.code = 0xe0 →
      Announces data marker.stop → WalksTo data true marker.stop stop? →
      WalksTo data thumbnail offset stop?
  | noThumbnail {thumbnail : Bool} {offset : Nat} {marker : Marker} {stop? : Option Nat} :
      IsNextMarker data offset marker → marker.code = 0xe0 →
      ¬Announces data marker.stop → WalksTo data thumbnail marker.stop stop? →
      WalksTo data thumbnail offset stop?
  | jumped {thumbnail : Bool} {offset : Nat} {marker : Marker} {stop? : Option Nat} :
      IsNextMarker data offset marker → HasSegment marker.code → Jumpable data marker.stop →
      WalksTo data thumbnail (marker.stop + pairAt data marker.stop) stop? →
      WalksTo data thumbnail offset stop?
  | badSegment {thumbnail : Bool} {offset : Nat} {marker : Marker} :
      IsNextMarker data offset marker → HasSegment marker.code → ¬Jumpable data marker.stop →
      WalksTo data thumbnail offset none
  | passed {thumbnail : Bool} {offset : Nat} {marker : Marker} {stop? : Option Nat} :
      IsNextMarker data offset marker → marker.code ≠ 0xd9 → marker.code ≠ 0xe0 →
      ¬HasSegment marker.code → WalksTo data thumbnail marker.stop stop? →
      WalksTo data thumbnail offset stop?
  | unended {thumbnail : Bool} {offset : Nat} :
      (∀ marker, ¬IsNextMarker data offset marker) → WalksTo data thumbnail offset none

theorem announcesThumbnail_iff : announcesThumbnail data (offset + 2) = true ↔
    Announces data offset := by
  rw [announcesThumbnail, decide_eq_true_eq, Announces, ByteArray.ext_iff, ← Array.toList_inj]
  exact Iff.rfl

/-- A thumbnail is announced by six bytes, the first of them two bytes further on. -/
theorem announces_iff : Announces data offset ↔ ∀ index byte,
    thumbnailBytes[index]? = some byte → data[offset + 2 + index]? = some byte := by
  rw [← announcesThumbnail_iff, announcesThumbnail, decide_eq_true_eq, listed]
  constructor
  · intro hList index byte hByte
    have hIndex := (List.getElem?_eq_some_iff.mp hByte).1
    rwa [← hList, getElem?_toList, getElem?_extract (by omega)] at hByte
  · intro hBytes
    apply List.ext_getElem?
    intro index
    rw [getElem?_toList]
    by_cases hIndex : index < thumbnailBytes.length
    · have hByte := List.getElem?_eq_getElem hIndex
      rw [getElem?_extract (by omega), hByte]
      exact hBytes index _ hByte
    · rw [List.getElem?_eq_none (Nat.not_lt.mp hIndex),
        getElem?_neg _ index (by rw [ByteArray.size_extract]; omega)]

/-- A byte where an announcement stands is one of its bytes. -/
theorem Announces.mem (h : Announces data offset) {place : Nat} {byte : UInt8}
    (hFrom : offset + 2 ≤ place) (hTo : place < offset + 8) (hByte : data[place]? = some byte) :
    byte ∈ thumbnailBytes := by
  have hIndex : place - (offset + 2) < thumbnailBytes.length := by
    show _ < 6
    omega
  have hThere := announces_iff.mp h _ _ (List.getElem?_eq_getElem hIndex)
  rw [Nat.add_sub_cancel' hFrom, hByte] at hThere
  exact Option.some.inj hThere ▸ List.getElem_mem hIndex

theorem jumpFrom_jumpable {code : UInt8} {size : Option Nat}
    (hSize : ∀ reported, size = some reported → reported = data.size)
    (h : Jumpable data offset) :
    jumpFrom code data size offset = .ok () (offset + pairAt data offset) := by
  have hLength := h.length_inside
  have hPair := h.two_le
  have hSegment := h.segment_inside
  have hAny : ¬size.any (· < offset + pairAt data offset) = true := by
    cases size with
    | none => exact Bool.false_ne_true
    | some reported =>
      have hTrue := hSize reported rfl
      rw [Option.any_some, decide_eq_true_eq]
      omega
  rw [jumpFrom, if_neg (by omega), if_neg (by omega), if_neg hAny]

/-- A segment that does not lie inside the data is refused or, where no size is reported, comes out
behind the data. -/
theorem jumpFrom_not_jumpable (code : UInt8) (size : Option Nat) (h : ¬Jumpable data offset) :
    (∃ fault place, jumpFrom code data size offset = .error fault place ∧
        fault.kind = .invalidData) ∨
      ∃ landed, jumpFrom code data size offset = .ok () landed ∧ data.size < landed := by
  simp only [jumpFrom]
  split
  · exact .inl ⟨_, _, rfl, rfl⟩
  · split
    · exact .inl ⟨_, _, rfl, rfl⟩
    · split
      · exact .inl ⟨_, _, rfl, rfl⟩
      · have hPast : ¬offset + pairAt data offset ≤ data.size := fun hInside =>
          h ⟨by omega, by omega, hInside⟩
        exact .inr ⟨_, rfl, Nat.not_le.mp hPast⟩

/-- A result of a walk with an offset after the end marker, or with a fault for want of one. -/
def ResultsIn (result : Result Fault Nat Nat) (stop? : Option Nat) : Prop :=
  match stop? with
  | some stop => result = .ok stop stop
  | none => ∃ fault place, result = .error fault place ∧ fault.kind = .invalidData

variable {thumbnail : Bool} {stop? : Option Nat}

theorem isJumped_iff {code : UInt8} : isJumped code = true ↔ HasSegment code := by
  simp only [isJumped, HasSegment, Bool.or_eq_true, Bool.and_eq_true, decide_eq_true_eq, or_assoc]

theorem ne_of_isJumped {code : UInt8} (h : isJumped code = true) :
    code ≠ endMarker ∧ code ≠ applicationMarker := by
  constructor <;> rintro rfl <;> exact absurd h (by decide)

theorem markerFrom?_past (h : data.size ≤ offset) : markerFrom? data offset = none := by
  cases hMarker : markerFrom? data offset with
  | none => rfl
  | some marker =>
    have := markerFrom?_bounds hMarker
    omega

/-- The function follows the relation, whether the size of the data is reported or not. The
induction is on the walk, marker by marker. -/
theorem WalksTo.resultsIn {size : Option Nat} (h : WalksTo data thumbnail offset stop?)
    (hSize : ∀ reported, size = some reported → reported = data.size) (start : Nat) :
    ResultsIn (walk data size start thumbnail offset) stop? := by
  induction h with
  | @ended offset marker hMarker hCode =>
    have hEnd : marker.code = endMarker := hCode
    rw [walk_some (markerFrom?_eq_some_iff.mpr hMarker), if_pos hEnd]
    rfl
  | @thumbnailEnded offset marker stop? hMarker hCode _ ih =>
    have hEnd : marker.code = endMarker := hCode
    rwa [walk_some (markerFrom?_eq_some_iff.mpr hMarker), if_pos hEnd]
  | @thumbnailBegun thumbnail offset marker stop? hMarker hCode hAnnounces _ ih =>
    have hApplication : marker.code = applicationMarker := hCode
    rw [walk_some (markerFrom?_eq_some_iff.mpr hMarker), if_neg (hCode ▸ by decide),
      if_pos hApplication, announcesThumbnail_iff.mpr hAnnounces, Bool.or_true]
    exact ih
  | @noThumbnail thumbnail offset marker stop? hMarker hCode hAnnounces _ ih =>
    have hApplication : marker.code = applicationMarker := hCode
    rw [walk_some (markerFrom?_eq_some_iff.mpr hMarker), if_neg (hCode ▸ by decide),
      if_pos hApplication, Bool.eq_false_iff.mpr (mt announcesThumbnail_iff.mp hAnnounces),
      Bool.or_false]
    exact ih
  | jumped hMarker hSegment hJumpable _ ih =>
    have hJumped := isJumped_iff.mpr hSegment
    obtain ⟨hEnd, hApplication⟩ := ne_of_isJumped hJumped
    rw [walk_some (markerFrom?_eq_some_iff.mpr hMarker), if_neg hEnd, if_neg hApplication,
      if_pos hJumped, jumpFrom_jumpable hSize hJumpable]
    exact ih
  | badSegment hMarker hSegment hJumpable =>
    have hJumped := isJumped_iff.mpr hSegment
    obtain ⟨hEnd, hApplication⟩ := ne_of_isJumped hJumped
    rw [walk_some (markerFrom?_eq_some_iff.mpr hMarker), if_neg hEnd, if_neg hApplication,
      if_pos hJumped]
    rcases jumpFrom_not_jumpable _ size hJumpable with
      ⟨fault, place, hJump, hKind⟩ | ⟨landed, hJump, hPast⟩
    · rw [hJump]
      exact ⟨fault, place, rfl, hKind⟩
    · -- Behind the data there is no marker, so that the image has no end.
      simp only [hJump]
      rw [walk_none (markerFrom?_past (Nat.le_of_lt hPast))]
      exact ⟨_, _, rfl, rfl⟩
  | @passed thumbnail offset marker stop? hMarker hEnd hApplication hSegment _ ih =>
    have hNotEnd : marker.code ≠ endMarker := hEnd
    have hNotApplication : marker.code ≠ applicationMarker := hApplication
    rw [walk_some (markerFrom?_eq_some_iff.mpr hMarker), if_neg hNotEnd, if_neg hNotApplication,
      if_neg (mt isJumped_iff.mp hSegment)]
    exact ih
  | unended hNone =>
    rw [walk_none (markerFrom?_eq_none_iff.mpr hNone)]
    exact ⟨_, _, rfl, rfl⟩

/-- From everywhere a walk comes to something. The induction is on the data that is left. -/
theorem exists_walksTo (data : ByteArray) (thumbnail : Bool) (offset : Nat) :
    ∃ stop?, WalksTo data thumbnail offset stop? := by
  fun_induction walk data (some data.size) 0 thumbnail offset with
  | case1 thumbnail offset hNone => exact ⟨none, .unended (markerFrom?_eq_none_iff.mp hNone)⟩
  | case2 offset marker hMarker _ hEnd ih =>
    obtain ⟨stop?, hWalk⟩ := ih
    exact ⟨stop?, .thumbnailEnded (markerFrom?_eq_some_iff.mp hMarker) hEnd hWalk⟩
  | case3 thumbnail offset marker hMarker _ hEnd hThumbnail =>
    rw [Bool.eq_false_iff.mpr hThumbnail]
    exact ⟨_, .ended (markerFrom?_eq_some_iff.mp hMarker) hEnd⟩
  | case4 thumbnail offset marker hMarker _ hEnd hApplication ih =>
    obtain ⟨stop?, hWalk⟩ := ih
    have hNext := markerFrom?_eq_some_iff.mp hMarker
    by_cases hAnnounces : Announces data marker.stop
    · rw [announcesThumbnail_iff.mpr hAnnounces, Bool.or_true] at hWalk
      exact ⟨stop?, .thumbnailBegun hNext hApplication hAnnounces hWalk⟩
    · rw [Bool.eq_false_iff.mpr (mt announcesThumbnail_iff.mp hAnnounces), Bool.or_false] at hWalk
      exact ⟨stop?, .noThumbnail hNext hApplication hAnnounces hWalk⟩
  | case5 thumbnail offset marker hMarker _ hEnd hApplication hJumped fault place hJump =>
    refine ⟨none, .badSegment (markerFrom?_eq_some_iff.mp hMarker) (isJumped_iff.mp hJumped)
      fun hJumpable => ?_⟩
    cases hJump.symm.trans (jumpFrom_jumpable (by simp) hJumpable)
  | case6 thumbnail offset marker hMarker _ hEnd hApplication hJumped _ landed hJump _ ih =>
    have hNext := markerFrom?_eq_some_iff.mp hMarker
    by_cases hJumpable : Jumpable data marker.stop
    · obtain ⟨stop?, hWalk⟩ := ih
      cases hJump.symm.trans (jumpFrom_jumpable (by simp) hJumpable)
      exact ⟨stop?, .jumped hNext (isJumped_iff.mp hJumped) hJumpable hWalk⟩
    · exact ⟨none, .badSegment hNext (isJumped_iff.mp hJumped) hJumpable⟩
  | case7 thumbnail offset marker hMarker _ hEnd hApplication hJumped ih =>
    obtain ⟨stop?, hWalk⟩ := ih
    exact ⟨stop?, .passed (markerFrom?_eq_some_iff.mp hMarker) hEnd hApplication
      (mt isJumped_iff.mpr hJumped) hWalk⟩

theorem walksTo_iff (start : Nat) : WalksTo data thumbnail offset stop? ↔
    (resultOf (walk data (some data.size) start thumbnail offset)).toOption = stop? := by
  have hResult : ∀ other, WalksTo data thumbnail offset other →
      (resultOf (walk data (some data.size) start thumbnail offset)).toOption = other := by
    intro other hWalk
    have hResults : ResultsIn (walk data (some data.size) start thumbnail offset) other :=
      hWalk.resultsIn (by simp) start
    cases other with
    | none =>
      obtain ⟨_, _, hError, -⟩ := hResults
      rw [hError]
      rfl
    | some stop =>
      rw [show walk _ _ _ _ _ = _ from hResults]
      rfl
  refine ⟨hResult stop?, fun hOption => ?_⟩
  obtain ⟨other, hWalk⟩ := exists_walksTo data thumbnail offset
  rwa [← hResult other hWalk, hOption] at hWalk

instance : Decidable (WalksTo data thumbnail offset stop?) :=
  decidable_of_iff _ (walksTo_iff 0).symm

/-- An image that a walk ends has an end marker at its end. -/
theorem WalksTo.endMarker_before {stop : Nat} (h : WalksTo data thumbnail offset (some stop)) :
    ∃ mark, stop = mark + 2 ∧ data[mark]? = some 0xff ∧ data[mark + 1]? = some 0xd9 := by
  generalize hStop : some stop = stop? at h
  induction h with
  | @ended offset marker hMarker hCode =>
    cases hStop
    obtain ⟨mark, -, hTwo, -, hMarks, hByte, -⟩ := hMarker
    refine ⟨marker.stop - 2, by omega, hMarks _ (by omega) (by omega), ?_⟩
    rw [show marker.stop - 2 + 1 = marker.stop - 1 by omega, hByte, hCode]
  | thumbnailEnded _ _ _ ih => exact ih hStop
  | thumbnailBegun _ _ _ _ ih => exact ih hStop
  | noThumbnail _ _ _ _ ih => exact ih hStop
  | jumped _ _ _ _ ih => exact ih hStop
  | badSegment => cases hStop
  | passed _ _ _ _ _ ih => exact ih hStop
  | unended => cases hStop

end FrameFeed.Image
