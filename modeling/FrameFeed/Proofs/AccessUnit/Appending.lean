import FrameFeed.Proofs.AccessUnit.Frames

/-! More data behind a stream. The start codes of the stream stay where they are, and their units
keep their classes, except the last unit when the end of the data has cut off its header. Such a
unit counts as no slice and brings about no cut. So the access units of the stream begin where they
did, and all but the last one end where they did. -/

namespace FrameFeed

open StartCode (Begins findFrom?)

variable {data : ByteArray} {index : Nat}

/-! ### Start codes -/

theorem StartCode.Begins.append (h : Begins data index) (more : ByteArray) :
    Begins (data ++ more) index := by
  obtain ⟨hFirst, hSecond, hThird⟩ := h
  refine ⟨getElem?_append_of_some hFirst more, getElem?_append_of_some hSecond more, ?_⟩
  rcases hThird with hOne | ⟨hZero, hOne⟩
  · exact .inl (getElem?_append_of_some hOne more)
  · exact .inr ⟨getElem?_append_of_some hZero more, getElem?_append_of_some hOne more⟩

/-- A start code that lies in the data as a whole began there before more data came. -/
theorem StartCode.begins_of_append {more : ByteArray} (h : Begins (data ++ more) index)
    (hInside : index + 3 < data.size) : Begins data index := by
  obtain ⟨hFirst, hSecond, hThird⟩ := h
  have hSame {place : Nat} (hPlace : place ≤ index + 3) :
      (data ++ more)[place]? = data[place]? := getElem?_append_left (by omega)
  rw [hSame (by omega)] at hFirst hSecond hThird
  rw [hSame (Nat.le_refl _)] at hThird
  exact ⟨hFirst, hSecond, hThird⟩

/-- A search finds the same start code when more data follows. A place before that code has the code
behind it, so that no start code can begin there with the help of what follows. -/
theorem StartCode.findFrom?_append {code : StartCode} (h : findFrom? data index = some code)
    (more : ByteArray) : findFrom? (data ++ more) index = some code := by
  obtain ⟨hLow, hBegins, hBefore⟩ := findFrom?_sound h
  have hSize := hBegins.lt_size
  have hHere := findFrom?_between h hLow (Nat.le_refl _)
  rw [findFrom?_begins hBegins] at hHere
  rw [findFrom?_skip hLow fun place hPlace hEarly hThere =>
      hBefore place hPlace hEarly (begins_of_append hThere (by omega)),
    findFrom?_begins (hBegins.append more), getElem?_append_left hSize]
  exact hHere

/-! ### Units -/

/-- A class that the first bytes of a unit tell is told by more bytes of it too. -/
theorem NalClass.ofBytes?_append {coding : NalCoding} {bytes : ByteArray} {unitClass : NalClass}
    (h : ofBytes? coding bytes = some unitClass) (rest : ByteArray) :
    ofBytes? coding (bytes ++ rest) = some unitClass := by
  cases coding with
  | h264 =>
    simp only [ofBytes?, ofH264?] at h ⊢
    cases hHeader : bytes[0]? with
    | none => rw [hHeader] at h; cases h
    | some header =>
      rw [hHeader] at h
      rw [getElem?_append_of_some hHeader rest]
      simp only at h ⊢
      split at h <;> rename_i hNumber
      · rwa [if_pos hNumber]
      · rw [if_neg hNumber]
        split at h <;> rename_i hPartition
        · rwa [if_pos hPartition]
        · obtain ⟨byte, hByte, hClass⟩ := Option.map_eq_some_iff.mp h
          rw [if_neg hPartition, getElem?_append_of_some hByte rest, Option.map_some, hClass]
  | hevc =>
    simp only [ofBytes?, ofHevc?] at h ⊢
    cases hFirst : bytes[0]? with
    | none => rw [hFirst] at h; cases h
    | some first =>
      cases hSecond : bytes[1]? with
      | none => rw [hFirst, hSecond] at h; cases h
      | some second =>
        rw [hFirst, hSecond] at h
        rw [getElem?_append_of_some hFirst rest, getElem?_append_of_some hSecond rest]
        simp only at h ⊢
        split at h <;> rename_i hNumber
        · rwa [if_pos hNumber]
        · obtain ⟨byte, hByte, hClass⟩ := Option.map_eq_some_iff.mp h
          rw [if_neg hNumber, getElem?_append_of_some hByte rest, Option.map_some, hClass]

namespace NalUnit

variable {coding : NalCoding}

/-- More data behind a unit leaves its class alone, unless the header was cut off. -/
theorem classAt_append (coding : NalCoding) (data more : ByteArray) (offset : Nat) :
    classAt coding (data ++ more) offset = classAt coding data offset ∨
      classAt coding data offset = .nonSlice ∧
        data.size < offset + (coding.headerSize + 1) := by
  rcases Nat.lt_or_ge data.size (offset + (coding.headerSize + 1)) with hCut | hWhole
  · cases hClass : NalClass.ofBytes? coding
        (data.extract offset (offset + (coding.headerSize + 1))) with
    | none => exact .inr ⟨by simp only [classAt, hClass, Option.getD_none], hCut⟩
    | some unitClass =>
      refine .inl ?_
      simp only [classAt, ByteArray.extract_append, NalClass.ofBytes?_append hClass, hClass]
  · have hRest : more.extract (offset - data.size)
        (offset + (coding.headerSize + 1) - data.size) = ByteArray.empty :=
      ByteArray.extract_eq_empty_iff.mpr (by omega)
    refine .inl ?_
    simp only [classAt, ByteArray.extract_append, hRest, ByteArray.append_empty]

end NalUnit

namespace AccessUnit

variable {coding : NalCoding} {phase : Phase}

theorem Phase.cuts_nonSlice {unit : NalUnit} (h : unit.unitClass = .nonSlice) :
    phase.cuts [unit] = [] := by
  cases phase <;> simp only [cuts, next, h]

theorem headerSize_le (coding : NalCoding) : coding.headerSize ≤ 2 := by
  cases coding <;> decide

/-- The cuts among the units of a stream are the first ones when more data follows. The induction is
on the units; the one whose header is cut off can only be the last. -/
theorem Phase.cuts_listFrom_append (phase : Phase) (coding : NalCoding) (data more : ByteArray)
    (offset : Nat) : phase.cuts (NalUnit.listFrom coding data offset) <+:
      phase.cuts (NalUnit.listFrom coding (data ++ more) offset) := by
  fun_induction NalUnit.listFrom coding data offset generalizing phase with
  | case1 => exact List.nil_prefix
  | case2 offset code hCode _ ih =>
    rw [NalUnit.listFrom_some (StartCode.findFrom?_append hCode more)]
    rcases NalUnit.classAt_append coding data more code.nalOffset with hSame | ⟨hNone, hCut⟩
    · have hUnit : NalUnit.ofCode coding (data ++ more) code = NalUnit.ofCode coding data code := by
        simp only [NalUnit.ofCode, hSame]
      rw [hUnit]
      cases hNext : phase.next (NalUnit.ofCode coding data code).offset
          (NalUnit.ofCode coding data code).unitClass with
      | cut stop =>
        simp only [cuts, hNext]
        exact (List.prefix_cons_inj stop).mpr (ih .picture)
      | goOn later =>
        simp only [cuts, hNext]
        exact ih later
    · have hLast : NalUnit.listFrom coding data code.nalOffset = [] := by
        cases hLater : findFrom? data code.nalOffset with
        | none => exact NalUnit.listFrom_none hLater
        | some later =>
          obtain ⟨hLow, hBegins, -⟩ := StartCode.findFrom?_sound hLater
          have hSize := hBegins.lt_size
          have hHeader := headerSize_le coding
          omega
      rw [hLast, cuts_nonSlice hNone]
      exact List.nil_prefix

/-! ### Access units -/

/-- The access units of a stream begin where the first ones do when more data follows. -/
theorem starts_append {offset : Nat} {first : StartCode} (h : findFrom? data offset = some first)
    (more : ByteArray) : (spansFrom coding data offset).map Span.start <+:
      (spansFrom coding (data ++ more) offset).map Span.start := by
  rw [starts_spansFrom h, starts_spansFrom (StartCode.findFrom?_append h more)]
  exact (List.prefix_cons_inj first.offset).mpr
    (Phase.cuts_listFrom_append .leading coding data more offset)

variable {splitter : Splitter} {reading longReading : Reading} {cancellable : Bool}
  {medium longer : Medium} {reach longReach offset : Nat}

/-- Access units that are finished stay as they are when more data follows, whatever it is. From an
offset with a start code at or behind it, the calls give access units over the data and over the
longer data. All of the first ones but the last are given over the longer data too, one by one and
before any others, and the last one begins there where it did. -/
theorem finished_stay (hMethod : splitter.method = .accessUnits coding cancellable)
    (h : reading.cursor.StandsAt medium reach offset)
    (hLonger : longReading.cursor.StandsAt longer longReach offset) {more : ByteArray}
    (hData : longer.data = medium.data ++ more) {first : StartCode}
    (hFirst : findFrom? medium.data offset = some first) :
    ∃ spans longSpans, splitter.Gives reading spans medium.data.size ∧
      splitter.Gives longReading longSpans longer.data.size ∧ spans ≠ [] ∧
      spans.dropLast <+: longSpans ∧ spans.map Span.start <+: longSpans.map Span.start := by
  have hFirst' : findFrom? longer.data offset = some first := by
    rw [hData]
    exact StartCode.findFrom?_append hFirst more
  have hStarts : (spansFrom coding medium.data offset).map Span.start <+:
      (spansFrom coding longer.data offset).map Span.start := by
    rw [hData]
    exact starts_append hFirst more
  refine ⟨_, _, gives_spansFrom hMethod h hFirst, gives_spansFrom hMethod hLonger hFirst', ?_,
    (tile_spansFrom hFirst).dropLast_prefix_of_starts (tile_spansFrom hFirst') hStarts, hStarts⟩
  intro hNone
  have hSome : (spansFrom coding medium.data offset).map Span.start = _ := starts_spansFrom hFirst
  rw [hNone] at hSome
  cases hSome

/-- The start of bytes in memory. -/
def startOf (data : ByteArray) : Reading where
  cursor := .ofMedium (.ofBytes data) 16

theorem startOf_standsAt {data : ByteArray} (h : data.size < 0x8000_0000_0000_0000) :
    (startOf data).cursor.StandsAt (.ofBytes data) 0x7fff_ffff_ffff_ffff 0 :=
  Cursor.standsAt_ofMedium (Medium.steady_ofBytes h) 16

/-- Two pictures and the header of a third unit, which the end of the data cuts off. -/
def twoPicturesCut : ByteArray :=
  ⟨#[0, 0, 1, 0x65, 0x88, 0, 0, 1, 0x65, 0x88, 0, 0, 1, 0x65]⟩

/-- The third unit turns out to be a picture of its own when the next byte comes. -/
theorem finished_stay_twoPicturesCut :
    ∃ spans longSpans,
      (Splitter.ofFormat (.nal .h264)).Gives (startOf twoPicturesCut) spans 14 ∧
      (Splitter.ofFormat (.nal .h264)).Gives (startOf (twoPicturesCut ++ ⟨#[0x88]⟩)) longSpans 15 ∧
      spans ≠ [] ∧ spans.dropLast <+: longSpans ∧
      spans.map Span.start <+: longSpans.map Span.start := by
  have hFirst : findFrom? (Medium.ofBytes twoPicturesCut).data 0 = some ⟨0, 2⟩ :=
    StartCode.findFrom?_begins (by decide)
  exact finished_stay (show (Splitter.ofFormat (.nal .h264)).method = _ from rfl)
    (startOf_standsAt (by decide)) (startOf_standsAt (by decide)) rfl hFirst

end AccessUnit

end FrameFeed
