import FrameFeed.Proofs.Image.Images
import Mathlib.Tactic.MkIffOfInductiveProp

/-! The layout of an image: marker segments, the last of which begins a scan, then coded bytes, then
the end marker. The reading of an image knows only some kinds of segments and jumps over those; in
the others it looks at every byte, so that it can take two of them for a marker. Where it takes none
for one that leads it elsewhere, an image ends behind the first end marker in such a segment or, if
there is none, behind its own. -/

namespace FrameFeed.Image

/-- A segment in data: the code of its marker, and the offsets of its first byte and behind it. -/
structure Segment where
  code : UInt8
  start : Nat
  stop : Nat
  deriving DecidableEq, Repr

/-- The codes of markers that begin a segment. The others stand alone or stand for no marker. -/
def BeginsSegment (code : UInt8) : Prop :=
  code ≠ 0x00 ∧ code ≠ 0x01 ∧ code ≠ 0xff ∧ ¬(0xd0 ≤ code ∧ code ≤ 0xd9)

/-- A segment is a marker, a length that counts itself and what comes behind it, and that many
bytes. It announces no thumbnail. -/
@[mk_iff]
structure Segment.LiesIn (data : ByteArray) (segment : Segment) : Prop where
  mark : data[segment.start]? = some 0xff
  code : data[segment.start + 1]? = some segment.code
  begins : BeginsSegment segment.code
  two_le : 2 ≤ pairAt data (segment.start + 2)
  stop_eq : segment.stop = segment.start + 2 + pairAt data (segment.start + 2)
  stop_le : segment.stop ≤ data.size
  no_thumbnail : segment.code = 0xe0 → segment.start + 10 ≤ segment.stop →
    ¬Announces data (segment.start + 2)

/-- Segments one behind another, from one offset to another. -/
inductive SegmentsTo (data : ByteArray) : Nat → List Segment → Nat → Prop
  | nil (offset : Nat) : SegmentsTo data offset [] offset
  | cons {segment : Segment} {rest : List Segment} {stop : Nat} :
      segment.LiesIn data → SegmentsTo data segment.stop rest stop →
      SegmentsTo data segment.start (segment :: rest) stop

/-- An image from `start` on: its start marker, segments of which the last one begins a scan, coded
bytes from `coded` on in which a byte 255 comes only before a zero or the code of a restart, and its
end marker at `finish`. -/
@[mk_iff]
structure IsLaidOut (data : ByteArray) (start : Nat) (segments : List Segment)
    (coded finish : Nat) : Prop where
  start_mark : data[start]? = some 0xff
  start_code : data[start + 1]? = some 0xd8
  segmentsTo : SegmentsTo data (start + 2) segments coded
  scan_last : ∃ scan ∈ segments.getLast?, scan.code = 0xda
  coded_le : coded ≤ finish
  stuffed : ∀ place < finish, coded ≤ place → data[place]? = some 0xff →
    ∃ code ∈ data[place + 1]?, code = 0x00 ∨ 0xd0 ≤ code ∧ code ≤ 0xd7
  end_mark : data[finish]? = some 0xff
  end_code : data[finish + 1]? = some 0xd9

/-- The place lies in a segment that is not jumped over, behind its marker. -/
def IsWalked (segments : List Segment) (place : Nat) : Prop :=
  ∃ segment ∈ segments, ¬HasSegment segment.code ∧ segment.start + 2 ≤ place ∧ place < segment.stop

/-- Two bytes that are taken for an end marker. -/
def EndsAt (data : ByteArray) (place : Nat) : Prop :=
  data[place]? = some 0xff ∧ data[place + 1]? = some 0xd9

/-- Two bytes that are taken for a marker that leads elsewhere: over a segment or into a
thumbnail. -/
def DivertsAt (data : ByteArray) (place : Nat) : Prop :=
  data[place]? = some 0xff ∧ ∃ code ∈ data[place + 1]?,
    HasSegment code ∨ code = 0xe0 ∧ Announces data (place + 2)

/-- The walk goes on behind the place as if there were no marker at it. -/
def IsQuiet (data : ByteArray) (place : Nat) : Prop :=
  ¬EndsAt data place ∧ ¬DivertsAt data place

variable {data : ByteArray} {offset place stop : Nat} {stop? : Option Nat} {segment : Segment}
  {segments : List Segment}

/-! ### Layouts can be decided -/

instance : DecidablePred HasSegment := fun _ => decidable_of_iff _ isJumped_iff

instance : Decidable (Announces data offset) := decidable_of_iff _ announcesThumbnail_iff

instance : DecidablePred BeginsSegment := fun code =>
  inferInstanceAs (Decidable
    (code ≠ 0x00 ∧ code ≠ 0x01 ∧ code ≠ 0xff ∧ ¬(0xd0 ≤ code ∧ code ≤ 0xd9)))

instance : Decidable (segment.LiesIn data) :=
  decidable_of_iff _ (segment.liesIn_iff data).symm

theorem segmentsTo_nil_iff : SegmentsTo data offset [] stop ↔ offset = stop :=
  ⟨fun | .nil _ => rfl, fun hEq => hEq ▸ .nil offset⟩

theorem segmentsTo_cons_iff : SegmentsTo data offset (segment :: segments) stop ↔
    offset = segment.start ∧ segment.LiesIn data ∧ SegmentsTo data segment.stop segments stop :=
  ⟨fun | .cons hSegment hRest => ⟨rfl, hSegment, hRest⟩,
    fun ⟨hEq, hSegment, hRest⟩ => hEq ▸ .cons hSegment hRest⟩

instance decidableSegmentsTo (data : ByteArray) :
    ∀ offset segments stop, Decidable (SegmentsTo data offset segments stop)
  | _, [], _ => decidable_of_iff _ segmentsTo_nil_iff.symm
  | _, segment :: segments, stop =>
    have := decidableSegmentsTo data segment.stop segments stop
    decidable_of_iff _ segmentsTo_cons_iff.symm

instance {start coded finish : Nat} : Decidable (IsLaidOut data start segments coded finish) :=
  decidable_of_iff _ (isLaidOut_iff data start segments coded finish).symm

instance : DecidablePred (IsWalked segments) := fun place =>
  inferInstanceAs (Decidable (∃ segment ∈ segments,
    ¬HasSegment segment.code ∧ segment.start + 2 ≤ place ∧ place < segment.stop))

instance : DecidablePred (EndsAt data) := fun place =>
  inferInstanceAs (Decidable (data[place]? = some 0xff ∧ data[place + 1]? = some 0xd9))

instance : DecidablePred (DivertsAt data) := fun place =>
  inferInstanceAs (Decidable (data[place]? = some 0xff ∧ ∃ code ∈ data[place + 1]?,
    HasSegment code ∨ code = 0xe0 ∧ Announces data (place + 2)))

instance : DecidablePred (IsQuiet data) := fun place =>
  inferInstanceAs (Decidable (¬EndsAt data place ∧ ¬DivertsAt data place))

/-! ### Bytes that the walk goes past -/

/-- Only the next marker matters to a walk. -/
theorem WalksTo.congr {offset' : Nat} (h : WalksTo data false offset stop?)
    (hSame : markerFrom? data offset = markerFrom? data offset') :
    WalksTo data false offset' stop? := by
  have hNext {marker : Marker} (hMarker : IsNextMarker data offset marker) :
      IsNextMarker data offset' marker := by
    rwa [← markerFrom?_eq_some_iff, ← hSame, markerFrom?_eq_some_iff]
  cases h with
  | ended hMarker hCode => exact .ended (hNext hMarker) hCode
  | thumbnailBegun hMarker hCode hAnnounces hWalk =>
    exact .thumbnailBegun (hNext hMarker) hCode hAnnounces hWalk
  | noThumbnail hMarker hCode hAnnounces hWalk =>
    exact .noThumbnail (hNext hMarker) hCode hAnnounces hWalk
  | jumped hMarker hSegment hJumpable hWalk =>
    exact .jumped (hNext hMarker) hSegment hJumpable hWalk
  | badSegment hMarker hSegment hJumpable => exact .badSegment (hNext hMarker) hSegment hJumpable
  | passed hMarker hEnd hApplication hSegment hWalk =>
    exact .passed (hNext hMarker) hEnd hApplication hSegment hWalk
  | unended hNone =>
    exact .unended (markerFrom?_eq_none_iff.mp (hSame ▸ markerFrom?_eq_none_iff.mpr hNone))

theorem markerFrom?_unmarked (h : data[offset]? ≠ some 0xff) :
    markerFrom? data (offset + 1) = markerFrom? data offset := by
  have hMark : findMark? data offset = findMark? data (offset + 1) := by
    rcases Nat.lt_or_ge offset data.size with hIn | hOut
    · rw [findMark?, dif_pos hIn, if_neg (mt (getElem?_eq_some_iff_getElem hIn).mpr h)]
    · rw [findMark?, dif_neg (by omega), findMark?, dif_neg (by omega)]
  simp only [markerFrom?, hMark]

theorem markerFrom?_marked (h : data[offset]? = some 0xff) :
    markerFrom? data offset = codeFrom? data (offset + 1) := by
  have hIn := lt_size_of_getElem? h
  rw [markerFrom?, findMark?, dif_pos hIn, if_pos ((getElem?_eq_some_iff_getElem hIn).mp h)]

theorem codeFrom?_marked (h : data[offset]? = some 0xff) :
    codeFrom? data offset = codeFrom? data (offset + 1) := by
  have hIn := lt_size_of_getElem? h
  rw [codeFrom?, dif_pos hIn, if_pos ((getElem?_eq_some_iff_getElem hIn).mp h)]

/-- A byte 255 and a code are a marker. -/
theorem markerFrom?_code {code : UInt8} (hMark : data[offset]? = some 0xff)
    (hCode : data[offset + 1]? = some code) (hNe : code ≠ 0xff) :
    markerFrom? data offset = some ⟨code, offset + 2⟩ := by
  have hIn := lt_size_of_getElem? hCode
  have hByte := (getElem?_eq_some_iff_getElem hIn).mp hCode
  rw [markerFrom?_marked hMark, codeFrom?, dif_pos hIn, hByte, if_neg hNe]

theorem walksTo_of_endsAt (h : EndsAt data place) : WalksTo data false place (some (place + 2)) :=
  .ended (markerFrom?_eq_some_iff.mp (markerFrom?_code h.1 h.2 (by decide))) rfl

/-- A walk that would come to something from the next byte on comes to the same from a byte at which
no marker ends it or diverts it. -/
theorem WalksTo.step_back (h : WalksTo data false (offset + 1) stop?)
    (hQuiet : IsQuiet data offset) : WalksTo data false offset stop? := by
  obtain ⟨hEnds, hDiverts⟩ := hQuiet
  by_cases hMark : data[offset]? = some 0xff
  · have hIn := lt_size_of_getElem? hMark
    cases hCode : data[offset + 1]? with
    | none =>
      have hPast : data.size ≤ offset + 1 := by
        rw [getElem?_eq_none_iff] at hCode
        omega
      refine h.congr ?_
      rw [markerFrom?_past hPast, markerFrom?_marked hMark, codeFrom?, dif_neg (by omega)]
    | some code =>
      by_cases hAgain : code = 0xff
      · subst hAgain
        refine h.congr ?_
        rw [markerFrom?_marked hCode, markerFrom?_marked hMark, codeFrom?_marked hCode]
      · have hNext := markerFrom?_eq_some_iff.mp (markerFrom?_code hMark hCode hAgain)
        have hLater : WalksTo data false (offset + 2) stop? :=
          h.congr (markerFrom?_unmarked (by simp [hCode, hAgain])).symm
        have hNotEnd : code ≠ 0xd9 := fun hEq => hEnds ⟨hMark, hEq ▸ hCode⟩
        have hNoSegment : ¬HasSegment code := fun hSegment =>
          hDiverts ⟨hMark, code, hCode, .inl hSegment⟩
        by_cases hApplication : code = 0xe0
        · have hNoThumbnail : ¬Announces data (offset + 2) := fun hAnnounces =>
            hDiverts ⟨hMark, code, hCode, .inr ⟨hApplication, hAnnounces⟩⟩
          exact .noThumbnail hNext hApplication hNoThumbnail hLater
        · exact .passed hNext hNotEnd hApplication hNoSegment hLater
  · exact h.congr (markerFrom?_unmarked hMark)

/-- A walk goes past a stretch of bytes at which no marker ends it or diverts it. -/
theorem WalksTo.stretch_back (h : WalksTo data false stop stop?) (hLe : offset ≤ stop)
    (hQuiet : ∀ place, offset ≤ place → place < stop → IsQuiet data place) :
    WalksTo data false offset stop? := by
  induction hLe with
  | refl => exact h
  | step hLe ih =>
    exact ih (h.step_back (hQuiet _ hLe (Nat.lt_succ_self _))) fun place hFrom hTo =>
      hQuiet place hFrom (Nat.lt_succ_of_lt hTo)

/-! ### Segments -/

/-- The announcement of a thumbnail has no byte 255, so that it cannot go on from a segment into the
next marker. -/
theorem Segment.LiesIn.not_announces (h : segment.LiesIn data) (hCode : segment.code = 0xe0)
    (hNext : data[segment.stop]? = some 0xff) : ¬Announces data (segment.start + 2) := by
  intro hAnnounces
  have hLength := h.two_le
  have hStop := h.stop_eq
  rcases Nat.lt_or_ge segment.stop (segment.start + 10) with hShort | hLong
  · have hMem : 0xff ∈ thumbnailBytes := hAnnounces.mem (by omega) (by omega) hNext
    exact absurd hMem (by decide)
  · exact h.no_thumbnail hCode hLong hAnnounces

/-- The marker of a segment that is not jumped over neither ends a walk nor diverts it. -/
theorem Segment.LiesIn.quiet (h : segment.LiesIn data) (hWalked : ¬HasSegment segment.code)
    (hNext : segment.code = 0xe0 → data[segment.stop]? = some 0xff) (hFrom : segment.start ≤ place)
    (hTo : place < segment.start + 2) : IsQuiet data place := by
  obtain ⟨-, -, hNotMark, hNotAlone⟩ := h.begins
  obtain rfl | rfl : place = segment.start ∨ place = segment.start + 1 := by omega
  · constructor
    · rintro ⟨-, hEnd⟩
      rw [Option.some.inj (h.code.symm.trans hEnd)] at hNotAlone
      exact hNotAlone (by decide)
    · rintro ⟨-, code, hCode, hSegment | ⟨hApplication, hAnnounces⟩⟩
      · cases h.code.symm.trans hCode
        exact hWalked hSegment
      · cases h.code.symm.trans hCode
        exact h.not_announces hApplication (hNext hApplication) hAnnounces
  · have hOther : data[segment.start + 1]? ≠ some 0xff := by simp [h.code, hNotMark]
    exact ⟨fun hEnds => hOther hEnds.1, fun hDiverts => hOther hDiverts.1⟩

/-- A walk goes past a segment: it jumps over it, or takes nothing in it for a marker. -/
theorem Segment.LiesIn.walk_back (h : segment.LiesIn data)
    (hNext : segment.code = 0xe0 → data[segment.stop]? = some 0xff)
    (hQuiet : ∀ place, IsWalked [segment] place → IsQuiet data place)
    (hWalk : WalksTo data false segment.stop stop?) :
    WalksTo data false segment.start stop? := by
  have hLength := h.two_le
  have hStop := h.stop_eq
  have hSize := h.stop_le
  by_cases hSegment : HasSegment segment.code
  · have hMarker := markerFrom?_code h.mark h.code h.begins.2.2.1
    refine .jumped (markerFrom?_eq_some_iff.mp hMarker) hSegment ⟨?_, hLength, ?_⟩ ?_
    · show segment.start + 2 + 2 ≤ data.size
      omega
    · show segment.start + 2 + pairAt data (segment.start + 2) ≤ data.size
      omega
    · rwa [← hStop]
  · refine hWalk.stretch_back (by omega) fun place hFrom hTo => ?_
    rcases Nat.lt_or_ge place (segment.start + 2) with hMarker | hBody
    · exact h.quiet hSegment hNext hFrom hMarker
    · exact hQuiet place ⟨segment, List.mem_singleton_self _, hSegment, hBody, hTo⟩

/-- Where a walked segment holds an end marker and nothing before it is taken for a marker, the walk
ends with it. -/
theorem Segment.LiesIn.walk_ends (h : segment.LiesIn data)
    (hNext : segment.code = 0xe0 → data[segment.stop]? = some 0xff)
    (hPlace : IsWalked [segment] place) (hEnds : EndsAt data place)
    (hQuiet : ∀ earlier < place, IsWalked [segment] earlier →
      IsQuiet data earlier) :
    WalksTo data false segment.start (some (place + 2)) := by
  obtain ⟨_, hMem, hSegment, hLow, hHigh⟩ := hPlace
  cases List.mem_singleton.mp hMem
  refine (walksTo_of_endsAt hEnds).stretch_back (by omega) fun earlier hFrom hTo => ?_
  rcases Nat.lt_or_ge earlier (segment.start + 2) with hMarker | hBody
  · exact h.quiet hSegment hNext hFrom hMarker
  · exact hQuiet earlier hTo
      ⟨segment, List.mem_singleton_self _, hSegment, hBody, Nat.lt_trans hTo hHigh⟩

theorem IsWalked.mono {others : List Segment} (h : IsWalked segments place)
    (hSub : ∀ segment ∈ segments, segment ∈ others) : IsWalked others place := by
  obtain ⟨segment, hMem, hPlace⟩ := h
  exact ⟨segment, hSub segment hMem, hPlace⟩

namespace SegmentsTo

theorem le (h : SegmentsTo data offset segments stop) : offset ≤ stop := by
  induction h with
  | nil => exact Nat.le_refl _
  | cons hSegment _ ih =>
    have := hSegment.stop_eq
    omega

theorem of_isWalked (h : SegmentsTo data offset segments stop) (hPlace : IsWalked segments place) :
    offset ≤ place ∧ place < stop := by
  induction h with
  | nil =>
    obtain ⟨_, hMem, -⟩ := hPlace
    cases hMem
  | cons hSegment hRest ih =>
    obtain ⟨other, hMem, hWalked⟩ := hPlace
    have := hRest.le
    have := hSegment.stop_eq
    rcases List.mem_cons.mp hMem with rfl | hLater
    · omega
    · have := ih ⟨other, hLater, hWalked⟩
      omega

theorem forall_isWalked {claim : Nat → Prop} (h : SegmentsTo data offset segments stop)
    (hAll : ∀ place < stop, IsWalked segments place → claim place) :
    ∀ place, IsWalked segments place → claim place :=
  fun place hPlace => hAll place (h.of_isWalked hPlace).2 hPlace

theorem mark (h : SegmentsTo data offset segments stop) (hSome : segments ≠ []) :
    data[offset]? = some 0xff := by
  cases h with
  | nil => exact absurd rfl hSome
  | cons hSegment => exact hSegment.mark

/-- The last segment begins a scan, so that a marker follows each JFIF segment. -/
theorem next_mark (h : SegmentsTo data offset segments stop)
    (hLast : ∃ scan ∈ segments.getLast?, scan.code = 0xda) :
    ∀ segment ∈ segments, segment.code = 0xe0 → data[segment.stop]? = some 0xff := by
  induction h with
  | nil => exact fun _ hMem => absurd hMem List.not_mem_nil
  | @cons segment rest stop hSegment hRest ih =>
    intro other hMem hCode
    cases rest with
    | nil =>
      obtain ⟨scan, hScan, hScanCode⟩ := hLast
      have hSame : segment = scan := Option.some.inj hScan
      rw [List.mem_singleton.mp hMem, hSame, hScanCode] at hCode
      exact absurd hCode (by decide)
    | cons next later =>
      rcases List.mem_cons.mp hMem with rfl | hLater
      · exact hRest.mark (List.cons_ne_nil _ _)
      · exact ih hLast other hLater hCode

variable (hNext : ∀ segment ∈ segments, segment.code = 0xe0 → data[segment.stop]? = some 0xff)

include hNext

theorem walk_back (h : SegmentsTo data offset segments stop)
    (hQuiet : ∀ place, IsWalked segments place → IsQuiet data place)
    (hWalk : WalksTo data false stop stop?) : WalksTo data false offset stop? := by
  induction h with
  | nil => exact hWalk
  | @cons segment rest stop hSegment hRest ih =>
    have hLater := ih (fun other hMem => hNext other (List.mem_cons_of_mem _ hMem))
      (fun place hPlace => hQuiet place (hPlace.mono fun _ => List.mem_cons_of_mem _)) hWalk
    exact hSegment.walk_back (hNext segment List.mem_cons_self)
      (fun place hPlace => hQuiet place (hPlace.mono (by simp))) hLater

/-- The first end marker in a walked segment ends the walk. The induction is on the segments; the
walk goes past those before the one that holds it. -/
theorem walk_ends (h : SegmentsTo data offset segments stop) (hPlace : IsWalked segments place)
    (hEnds : EndsAt data place) (hQuiet : ∀ earlier < place, IsWalked segments earlier →
      IsQuiet data earlier) :
    WalksTo data false offset (some (place + 2)) := by
  induction h with
  | nil =>
    obtain ⟨_, hMem, -⟩ := hPlace
    cases hMem
  | @cons segment rest stop hSegment hRest ih =>
    have hHere : ∀ earlier < place, IsWalked [segment] earlier →
        IsQuiet data earlier := fun earlier hEarlier hWalked =>
      hQuiet earlier hEarlier (hWalked.mono (by simp))
    have hFollowed := hNext segment List.mem_cons_self
    obtain ⟨other, hMem, hWalked⟩ := hPlace
    rcases List.mem_cons.mp hMem with rfl | hLater
    · exact hSegment.walk_ends hFollowed ⟨other, List.mem_singleton_self _, hWalked⟩ hEnds hHere
    · have hPlace : IsWalked rest place := ⟨other, hLater, hWalked⟩
      have hBehind := (hRest.of_isWalked hPlace).1
      refine hSegment.walk_back hFollowed (fun earlier hEarlier => ?_) (ih ?_ hPlace ?_)
      · obtain ⟨_, hSame, -, -, hInside⟩ := id hEarlier
        cases List.mem_singleton.mp hSame
        exact hHere earlier (Nat.lt_of_lt_of_le hInside hBehind) hEarlier
      · exact fun other hMem => hNext other (List.mem_cons_of_mem _ hMem)
      · exact fun earlier hEarlier hWalked =>
          hQuiet earlier hEarlier (hWalked.mono fun _ => List.mem_cons_of_mem _)

end SegmentsTo

/-! ### Images -/

variable {start coded finish : Nat}

/-- The start marker of an image is gone past. -/
theorem IsLaidOut.begin_back (h : IsLaidOut data start segments coded finish)
    (hWalk : WalksTo data false (start + 2) stop?) : WalksTo data false start stop? := by
  refine hWalk.stretch_back (Nat.le_add_right _ _) fun place hFrom hTo => ?_
  have hMark := h.start_mark
  have hCode := h.start_code
  obtain rfl | rfl : place = start ∨ place = start + 1 := by omega
  · refine ⟨fun hEnds => absurd (hCode.symm.trans hEnds.2) (by decide), ?_⟩
    rintro ⟨-, code, hOther, hSegment | ⟨rfl, -⟩⟩
    · cases hCode.symm.trans hOther
      exact absurd (isJumped_iff.mpr hSegment) (by decide)
    · exact absurd (hCode.symm.trans hOther) (by decide)
  · have hOther : data[start + 1]? ≠ some 0xff := by simp [hCode]
    exact ⟨fun hEnds => hOther hEnds.1, fun hDiverts => hOther hDiverts.1⟩

theorem quiet_of_stuffed {code : UInt8} (h : code = 0x00 ∨ 0xd0 ≤ code ∧ code ≤ 0xd7) :
    code ≠ 0xd9 ∧ ¬HasSegment code ∧ code ≠ 0xe0 := by
  unfold HasSegment
  grind

/-- The coded bytes are gone past. -/
theorem IsLaidOut.walksTo_coded (h : IsLaidOut data start segments coded finish) :
    WalksTo data false coded (some (finish + 2)) := by
  refine (walksTo_of_endsAt ⟨h.end_mark, h.end_code⟩).stretch_back h.coded_le
    fun place hFrom hTo => ⟨?_, ?_⟩
  · rintro ⟨hMark, hEnd⟩
    obtain ⟨code, hCode, hStuffed⟩ := h.stuffed place hTo hFrom hMark
    exact (quiet_of_stuffed hStuffed).1 (Option.some.inj (hCode.symm.trans hEnd))
  · rintro ⟨hMark, other, hOther, hDiverts⟩
    obtain ⟨code, hCode, hStuffed⟩ := h.stuffed place hTo hFrom hMark
    obtain ⟨-, hNoSegment, hNoApplication⟩ := quiet_of_stuffed hStuffed
    cases hCode.symm.trans hOther
    exact hDiverts.elim hNoSegment fun hBoth => hNoApplication hBoth.1

theorem IsLaidOut.walksTo_own (h : IsLaidOut data start segments coded finish)
    (hQuiet : ∀ place, IsWalked segments place → IsQuiet data place) :
    WalksTo data false start (some (finish + 2)) :=
  h.begin_back (h.segmentsTo.walk_back (h.segmentsTo.next_mark h.scan_last) hQuiet h.walksTo_coded)

theorem IsLaidOut.walksTo_first (h : IsLaidOut data start segments coded finish)
    (hPlace : IsWalked segments place) (hEnds : EndsAt data place)
    (hQuiet : ∀ earlier < place, IsWalked segments earlier → IsQuiet data earlier) :
    WalksTo data false start (some (place + 2)) :=
  h.begin_back (h.segmentsTo.walk_ends (h.segmentsTo.next_mark h.scan_last) hPlace hEnds hQuiet)

theorem IsLaidOut.lt_size (h : IsLaidOut data start segments coded finish) : start < data.size :=
  lt_size_of_getElem? h.start_mark

variable {splitter : Splitter} {reading : Reading} {medium : Medium} {reach : Nat}

/-- An image is read up to its own end marker if nothing in the segments that are walked through is
taken for a marker, and up to an end marker there if that is the first thing so taken. What the
segments that are jumped over hold and what comes behind the image does not matter. -/
theorem image_ends (hMethod : splitter.method = .images) (hRoom : medium.Roomy reach)
    (h : reading.cursor.StandsAt medium reach start)
    (hLaid : IsLaidOut medium.data start segments coded finish) :
    ((∀ place, IsWalked segments place → IsQuiet medium.data place) →
      (splitter.call reading).result = .ok (some ⟨start, finish + 2⟩) ∧
        (splitter.call reading).reading.cursor.position = finish + 2) ∧
    ∀ place, IsWalked segments place → EndsAt medium.data place →
      (∀ earlier < place, IsWalked segments earlier → IsQuiet medium.data earlier) →
      (splitter.call reading).result = .ok (some ⟨start, place + 2⟩) ∧
        (splitter.call reading).reading.cursor.position = place + 2 := by
  constructor
  · intro hQuiet
    obtain ⟨hResult, -, hAfter⟩ :=
      call_ended hMethod hRoom h hLaid.lt_size (hLaid.walksTo_own hQuiet)
    exact ⟨hResult, hAfter.position_eq⟩
  · intro place hPlace hEnds hQuiet
    obtain ⟨hResult, -, hAfter⟩ :=
      call_ended hMethod hRoom h hLaid.lt_size (hLaid.walksTo_first hPlace hEnds hQuiet)
    exact ⟨hResult, hAfter.position_eq⟩

/-- The start of a medium that is no more than the data. -/
def plainStart (data : ByteArray) : Reading where
  cursor := .ofMedium (.ofBytes data) 16

theorem plainStart_standsAt (h : data.size < 0x8000_0000_0000_0000) :
    (plainStart data).cursor.StandsAt (.ofBytes data) 0x7fff_ffff_ffff_ffff 0 :=
  Cursor.standsAt_ofMedium (Medium.steady_ofBytes h) 16

theorem plainStart_unended (hSize : data.size + 2 < 0x8000_0000_0000_0000) (hSome : 0 < data.size)
    (hWalk : WalksTo data false 0 none) :
    ∃ fault, ((Splitter.ofFormat .mjpeg).call (plainStart data)).result = .error fault := by
  obtain ⟨fault, hFault, -⟩ :=
    call_unended (show (Splitter.ofFormat .mjpeg).method = .images from rfl)
      (Medium.roomy_ofBytes hSize) (plainStart_standsAt (by omega)) hSome hWalk
  exact ⟨fault, hFault⟩

/-- An image with markers in a segment that is jumped over, and a byte behind it. -/
def previewed : ByteArray :=
  ⟨#[0xff, 0xd8, 0xff, 0xe1, 0, 6, 0xff, 0xd9, 0xff, 0xe1, 0xff, 0xfe, 0, 4, 0xff, 0,
    0xff, 0xda, 0, 2, 0x12, 0xff, 0, 0xff, 0xd9, 0xff]⟩

def previewedSegments : List Segment := [⟨0xe1, 2, 10⟩, ⟨0xfe, 10, 16⟩, ⟨0xda, 16, 20⟩]

/-- An image with a comment, and with nothing between its scan's header and its end marker. -/
def commented (comment : Array UInt8) : ByteArray :=
  ⟨#[0xff, 0xd8, 0xff, 0xfe, 0, (comment.size + 2).toUInt8] ++ comment ++
    #[0xff, 0xda, 0, 2, 0xff, 0xd9]⟩

def commentedSegments (comment : Array UInt8) : List Segment :=
  [⟨0xfe, 2, comment.size + 6⟩, ⟨0xda, comment.size + 6, comment.size + 10⟩]

theorem image_ends_previewed :
    ((Splitter.ofFormat .mjpeg).call (plainStart previewed)).result = .ok (some ⟨0, 25⟩) ∧
      ((Splitter.ofFormat .mjpeg).call (plainStart (commented #[0xff, 0xd9]))).result =
        .ok (some ⟨0, 8⟩) := by
  have hMethod : (Splitter.ofFormat .mjpeg).method = .images := rfl
  have hOwn : IsLaidOut previewed 0 previewedSegments 20 23 := by decide
  have hCut : IsLaidOut (commented #[0xff, 0xd9]) 0 (commentedSegments #[0xff, 0xd9]) 12 12 := by
    decide
  constructor
  · exact ((image_ends hMethod (Medium.roomy_ofBytes (by decide)) (plainStart_standsAt (by decide))
      hOwn).1 (hOwn.segmentsTo.forall_isWalked (by decide))).1
  · exact ((image_ends hMethod (Medium.roomy_ofBytes (by decide)) (plainStart_standsAt (by decide))
      hCut).2 6 (by decide) (by decide) (by decide)).1

/-- An end marker in a comment ends the image. A marker there that begins a segment or a thumbnail
leaves the image without an end. -/
theorem image_cut_commented :
    (IsLaidOut (commented #[0xff, 0xd9]) 0 (commentedSegments #[0xff, 0xd9]) 12 12 ∧
      ((Splitter.ofFormat .mjpeg).call (plainStart (commented #[0xff, 0xd9]))).result =
        .ok (some ⟨0, 8⟩)) ∧
    ∀ comment ∈ [#[0xff, 0xe1], #[0xff, 0xe0, 0, 16, 0x4a, 0x46, 0x58, 0x58, 0, 16]],
      IsLaidOut (commented comment) 0 (commentedSegments comment) (comment.size + 10)
        (comment.size + 10) ∧
      ∃ fault, ((Splitter.ofFormat .mjpeg).call (plainStart (commented comment))).result =
        .error fault := by
  have hMethod : (Splitter.ofFormat .mjpeg).method = .images := rfl
  refine ⟨⟨by decide, ?_⟩, ?_⟩
  · exact (call_ended hMethod (Medium.roomy_ofBytes (by decide)) (plainStart_standsAt (by decide))
      (by decide) (by decide +kernel)).1
  · simp only [List.forall_mem_cons, List.not_mem_nil, false_implies, implies_true, and_true]
    constructor
    · exact ⟨by decide, plainStart_unended (by decide) (by decide) (by decide +kernel)⟩
    · exact ⟨by decide, plainStart_unended (by decide) (by decide) (by decide +kernel)⟩

end FrameFeed.Image
