import FrameFeed.Proofs.AccessUnit.Appending
import FrameFeed.Proofs.StartCode.Agreement

/-! An access unit on its own. Its bytes, cut out of the stream, are one access unit and nothing
else. What comes before it only shifts the offsets. What comes after it can have been looked at for
the class of its last unit, but a cut brought about without it would be one with it too. -/

namespace FrameFeed

open StartCode (Begins findFrom?)

/-- A start code that lies in the data as a whole is found there without what follows the data. -/
theorem StartCode.findFrom?_of_append {data more : ByteArray} {index : Nat} {code : StartCode}
    (h : findFrom? (data ++ more) index = some code) (hInside : code.nalOffset ≤ data.size) :
    findFrom? data index = some code := by
  obtain ⟨hLow, ⟨hFirst, hSecond, hThird⟩, hBefore⟩ := findFrom?_sound h
  have hHere := findFrom?_between h hLow (Nat.le_refl _)
  rw [findFrom?_begins ⟨hFirst, hSecond, hThird⟩] at hHere
  have hZeros : (if (data ++ more)[code.offset + 2]? = some 1 then 2 else 3) = code.zeros :=
    congrArg StartCode.zeros (Option.some.inj hHere)
  have hSame {place : Nat} (hPlace : place < code.nalOffset) :
      (data ++ more)[place]? = data[place]? := getElem?_append_left (by omega)
  have hBegins : Begins data code.offset := by
    simp only [nalOffset] at hSame
    rw [hSame (by omega)] at hFirst
    rw [hSame (by split at hZeros <;> omega)] at hSecond
    by_cases hOne : (data ++ more)[code.offset + 2]? = some 1
    · rw [if_pos hOne] at hZeros
      rw [hSame (by omega)] at hOne
      exact ⟨hFirst, hSecond, .inl hOne⟩
    · obtain ⟨hZero, hOne'⟩ := hThird.resolve_left hOne
      rw [if_neg hOne] at hZeros
      rw [hSame (by omega)] at hZero hOne'
      exact ⟨hFirst, hSecond, .inr ⟨hZero, hOne'⟩⟩
  have hFound := findFrom?_begins hBegins
  rw [← findFrom?_skip hLow fun place hPlace hEarly hThere =>
    hBefore place hPlace hEarly (hThere.append more)] at hFound
  rw [← (findFrom?_append hFound more).symm.trans h]
  exact hFound

/-! ### Without the bytes before -/

namespace NalUnit

variable {coding : NalCoding} {data : ByteArray}

/-- A unit as it stands in data that some bytes come before. -/
def shift (start : Nat) (unit : NalUnit) : NalUnit := ⟨start + unit.offset, unit.unitClass⟩

theorem classAt_rest (coding : NalCoding) (data : ByteArray) (start offset : Nat) :
    classAt coding (data.extract start data.size) offset = classAt coding data (start + offset) := by
  simp only [classAt, ByteArray.extract_extract, extract_min, Nat.add_assoc]

theorem ofCode_rest (coding : NalCoding) (data : ByteArray) (start : Nat) (code : StartCode) :
    ofCode coding data (code.shift start) =
      (ofCode coding (data.extract start data.size) code).shift start := by
  have hOffset : (code.shift start).nalOffset = start + code.nalOffset := by
    simp only [StartCode.nalOffset, StartCode.shift, Nat.add_assoc]
  simp only [ofCode, shift, hOffset, classAt_rest]
  rfl

/-- The units of the rest of the data are those of the data from where the rest begins. -/
theorem listFrom_rest (coding : NalCoding) (data : ByteArray) (start offset : Nat) :
    listFrom coding data (start + offset) =
      (listFrom coding (data.extract start data.size) offset).map (shift start) := by
  have hCodes := StartCode.findFrom?_rest data start
  fun_induction listFrom coding (data.extract start data.size) offset with
  | case1 offset hNone =>
    rw [listFrom_none (by rw [hCodes, hNone, Option.map_none])]
    rfl
  | case2 offset code hCode _ ih =>
    have hNext : (code.shift start).nalOffset = start + code.nalOffset := by
      simp only [StartCode.nalOffset, StartCode.shift, Nat.add_assoc]
    rw [listFrom_some (by rw [hCodes, hCode, Option.map_some]), hNext, ih, ofCode_rest]
    rfl

end NalUnit

namespace AccessUnit

variable {coding : NalCoding} {data : ByteArray} {offset : Nat}

def Phase.shift (start : Nat) : Phase → Phase
  | leading => leading
  | picture => picture
  | trailing run => trailing (start + run)

/-- Units that stand further back are cut off as much further back. -/
theorem Phase.cuts_shift (start : Nat) (phase : Phase) (units : List NalUnit) :
    (phase.shift start).cuts (units.map (NalUnit.shift start)) =
      (phase.cuts units).map (start + ·) := by
  induction units generalizing phase with
  | nil => rfl
  | cons unit rest ih =>
    have hLeading := ih .leading
    have hPicture := ih .picture
    have hTrailing := fun run => ih (.trailing run)
    simp only [shift] at hLeading hPicture hTrailing
    cases phase <;> cases hClass : unit.unitClass <;>
      simp [cuts, next, shift, NalUnit.shift, hClass, hLeading, hPicture, hTrailing]

/-- The access unit that is found in the rest of the data is the one that is found in the data from
there on. -/
theorem spanFrom?_rest (coding : NalCoding) {data : ByteArray} {start : Nat}
    (hStart : start ≤ data.size) (offset : Nat) :
    spanFrom? coding data (start + offset) =
      (spanFrom? coding (data.extract start data.size) offset).map
        fun span => ⟨start + span.start, start + span.stop⟩ := by
  have hCodes := StartCode.findFrom?_rest data start offset
  cases hCode : findFrom? (data.extract start data.size) offset with
  | none =>
    rw [spanFrom?_none hCode, spanFrom?_none (by rw [hCodes, hCode, Option.map_none])]
    rfl
  | some code =>
    rw [hCode, Option.map_some] at hCodes
    have hSize : start + (data.extract start data.size).size = data.size := by
      rw [ByteArray.size_extract]
      omega
    have hCuts : Phase.leading.cuts ((NalUnit.listFrom coding _ offset).map _) = _ :=
      Phase.cuts_shift start .leading (NalUnit.listFrom coding (data.extract start data.size) offset)
    have hStop := calc
      (Phase.leading.cuts (NalUnit.listFrom coding data (start + offset))).headD data.size
      _ = ((Phase.leading.cuts (NalUnit.listFrom coding (data.extract start data.size)
            offset)).map (start + ·)).headD (start + (data.extract start data.size).size) := by
        rw [NalUnit.listFrom_rest, hCuts, hSize]
      _ = start + (Phase.leading.cuts (NalUnit.listFrom coding (data.extract start data.size)
            offset)).headD (data.extract start data.size).size := List.headD_map
    rw [spanFrom?_some hCode, spanFrom?_some hCodes, hStop]
    rfl

/-- The access unit that is found from its own start on is the same. -/
theorem spanFrom?_start {span : Span} (h : spanFrom? coding data offset = some span) :
    spanFrom? coding data span.start = some span := by
  cases hCode : findFrom? data offset with
  | none => rw [spanFrom?_none hCode] at h; cases h
  | some first =>
    have hLow := (StartCode.findFrom?_sound hCode).1
    have hHere := StartCode.findFrom?_between hCode hLow (Nat.le_refl _)
    have hUnits : NalUnit.listFrom coding data first.offset =
        NalUnit.listFrom coding data offset := by
      rw [NalUnit.listFrom_some hCode, NalUnit.listFrom_some hHere]
    rw [spanFrom?_some hCode] at h
    cases h
    rw [spanFrom?_some hHere, hUnits]

/-! ### Without the bytes behind -/

/-- An access unit that ends where the data ends is found without what follows the data. A cut
inside the data would be the first one with what follows too, and there the first one comes only at
the end of the data. -/
theorem spanFrom?_of_append {more : ByteArray} {span : Span}
    (h : spanFrom? coding (data ++ more) offset = some span) (hStop : span.stop = data.size) :
    spanFrom? coding data offset = some span := by
  cases hLonger : findFrom? (data ++ more) offset with
  | none => rw [spanFrom?_none hLonger] at h; cases h
  | some first =>
    have hInside : first.nalOffset ≤ data.size := hStop ▸ nalOffset_le_stop hLonger h
    have hFirst := StartCode.findFrom?_of_append hLonger hInside
    rw [spanFrom?_some hLonger] at h
    cases h
    replace hStop : (Phase.leading.cuts (NalUnit.listFrom coding (data ++ more) offset)).headD
        (data ++ more).size = data.size := hStop
    have hCuts := Phase.cuts_listFrom_append .leading coding data more offset
    cases hHere : Phase.leading.cuts (NalUnit.listFrom coding data offset) with
    | nil => rw [spanFrom?_some hFirst, hHere, hStop, List.headD_nil]
    | cons stop stops =>
      obtain ⟨-, ⟨code, hCode, rfl⟩, -⟩ := cuts_stop hFirst hHere
      have hBefore := (StartCode.findFrom?_sound hCode).2.1.lt_size
      obtain ⟨rest, hRest⟩ := hCuts
      rw [hHere] at hRest
      rw [← hRest] at hStop
      replace hStop : code.offset = data.size := hStop
      omega

/-- The bytes of an access unit are an access unit from their first one to their last one. -/
theorem spanFrom?_bytes {span : Span} (h : spanFrom? coding data offset = some span) :
    spanFrom? coding (span.bytes data) 0 = some ⟨0, span.size⟩ := by
  have hStart := (spanFrom?_sound h).2.2.1
  have hStop := spanFrom?_stop_le h
  have hRest : data.extract span.start data.size =
      span.bytes data ++ data.extract span.stop data.size :=
    ByteArray.extract_eq_extract_append_extract _ (Nat.le_of_lt hStart) hStop
  have hShifted := spanFrom?_rest coding (by omega : span.start ≤ data.size) 0
  rw [Nat.add_zero, spanFrom?_start h] at hShifted
  obtain ⟨found, hFound, hSpan⟩ := Option.map_eq_some_iff.mp hShifted.symm
  have hZero : found.start = 0 := by
    have := congrArg Span.start hSpan
    simp only at this
    omega
  have hSize : found.stop = span.size := by
    have := congrArg Span.stop hSpan
    simp only [Span.size] at this ⊢
    omega
  have hFound' : found = ⟨0, span.size⟩ := by rw [← hZero, ← hSize]
  rw [hFound'] at hFound
  refine spanFrom?_of_append (hRest ▸ hFound) ?_
  simp only [Span.bytes, Span.size, ByteArray.size_extract]
  omega

/-! ### Calls -/

theorem exists_spanFrom?_of_mem {span : Span} (h : span ∈ spansFrom coding data offset) :
    ∃ place, spanFrom? coding data place = some span := by
  fun_induction spansFrom coding data offset with
  | case1 => cases h
  | case2 offset first hFirst _ ih =>
    rcases List.mem_cons.mp h with rfl | hLater
    · exact ⟨offset, hFirst⟩
    · exact ih hLater

section Calls

variable {splitter : Splitter} {reading : Reading} {cancellable : Bool} {medium : Medium}
  {reach offset : Nat}

/-- Whatever a call gives is one of the access units. -/
theorem mem_spansFrom_of_nthCall (hMethod : splitter.method = .accessUnits coding cancellable)
    (h : reading.cursor.StandsAt medium reach offset) {index : Nat} {span : Span}
    (hGiven : (splitter.nthCall reading index).result = .ok (some span)) :
    span ∈ spansFrom coding medium.data offset := by
  cases hFirst : findFrom? medium.data offset with
  | some first =>
    exact List.mem_of_getElem? ((gives_spansFrom hMethod h hFirst).result_iff.mp hGiven)
  | none =>
    obtain ⟨hCall, stop, hLater⟩ := call_of_none hMethod h hFirst
    cases index with
    | zero =>
      have hNone : (splitter.call reading).result = .ok (some span) := hGiven
      rw [hCall] at hNone
      split at hNone <;> cases hNone
    | succ index => cases hLater.result_iff.mp hGiven

/-- Every access unit stands on its own. Whatever call gave it, its bytes alone are read as one
access unit from the first to the last of them, by the same coding and through any windows, and
from then on no call gives another. -/
theorem unit_alone (hMethod : splitter.method = .accessUnits coding cancellable)
    (h : reading.cursor.StandsAt medium reach offset) {index : Nat} {span : Span}
    (hGiven : (splitter.nthCall reading index).result = .ok (some span))
    {splitter' : Splitter} {cancellable' : Bool}
    (hMethod' : splitter'.method = .accessUnits coding cancellable') {reading' : Reading}
    {alone : Medium} {reach' : Nat} (h' : reading'.cursor.StandsAt alone reach' 0)
    (hAlone : alone.data = span.bytes medium.data) :
    splitter'.Gives reading' [⟨0, span.size⟩] span.size := by
  obtain ⟨place, hSpan⟩ := exists_spanFrom?_of_mem (mem_spansFrom_of_nthCall hMethod h hGiven)
  have hUnit := spanFrom?_bytes hSpan
  rw [← hAlone] at hUnit
  have hSize : alone.data.size = span.size := by
    have := spanFrom?_stop_le hSpan
    rw [hAlone, Span.bytes, ByteArray.size_extract, Span.size]
    omega
  cases hFirst : findFrom? alone.data 0 with
  | none => rw [spanFrom?_none hFirst] at hUnit; cases hUnit
  | some first =>
    have hGives := gives_spansFrom hMethod' h' hFirst
    have hOne : spansFrom coding alone.data 0 = [⟨0, span.size⟩] := by
      rw [spansFrom_some hUnit, ← hSize, spansFrom_size]
    rwa [hOne, hSize] at hGives

/-- Two pictures, the first one with a second slice whose header the cut takes the second byte
from. -/
def headerBeforeCut : ByteArray :=
  ⟨#[0, 0, 1, 0x65, 0x88, 0, 0, 1, 0x41, 0, 0, 1, 0x65, 0x88]⟩

/-- On its own the second slice counts as no slice, and the access unit is the same. -/
theorem unit_alone_headerBeforeCut :
    ((Splitter.ofFormat (.nal .h264)).nthCall (startOf headerBeforeCut) 0).result =
        .ok (some ⟨0, 9⟩) ∧
      NalUnit.listFrom .h264 headerBeforeCut 0 =
        [⟨0, .firstSlice⟩, ⟨5, .laterSlice⟩, ⟨9, .firstSlice⟩] ∧
      NalUnit.listFrom .h264 (headerBeforeCut.extract 0 9) 0 =
        [⟨0, .firstSlice⟩, ⟨5, .nonSlice⟩] ∧
      (Splitter.ofFormat (.nal .h264)).Gives (startOf (headerBeforeCut.extract 0 9)) [⟨0, 9⟩] 9 := by
  have hFirst : findFrom? (Medium.ofBytes headerBeforeCut).data 0 = some ⟨0, 2⟩ :=
    StartCode.findFrom?_begins (by decide)
  have hStands : (startOf headerBeforeCut).cursor.StandsAt (.ofBytes headerBeforeCut)
      0x7fff_ffff_ffff_ffff 0 := startOf_standsAt (by decide)
  have hMethod : (Splitter.ofFormat (.nal .h264)).method = .accessUnits .h264 false := rfl
  have hSpans : spansFrom .h264 (Medium.ofBytes headerBeforeCut).data 0 = [⟨0, 9⟩, ⟨9, 14⟩] := by
    decide +kernel
  have hGives := gives_spansFrom hMethod hStands hFirst
  rw [hSpans] at hGives
  have hGiven : ((Splitter.ofFormat (.nal .h264)).nthCall (startOf headerBeforeCut) 0).result =
      .ok (some ⟨0, 9⟩) := hGives.result_iff.mpr rfl
  exact ⟨hGiven, by decide +kernel, by decide +kernel,
    unit_alone hMethod hStands hGiven hMethod (startOf_standsAt (by decide)) rfl⟩

end Calls

end AccessUnit

end FrameFeed
