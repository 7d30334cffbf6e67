import FrameFeed.Proofs.Splitter.Calls

/-! The access units that the calls of a splitter give. They tile the data from its first start
code to its end, and they are cut off where a picture ends. -/

namespace FrameFeed.AccessUnit

open StartCode (Begins findFrom?)

variable {splitter : Splitter} {reading : Reading} {coding : NalCoding} {cancellable : Bool}
  {medium : Medium} {reach offset : Nat}

/-- Only the reading of images asks for room after the data. -/
theorem roomy_of_accessUnits (hMethod : splitter.method = .accessUnits coding cancellable) :
    splitter.method = .images → medium.Roomy reach := by
  intro hImages
  cases hMethod.symm.trans hImages

/-- Where a start code is found, the calls give the access units from there on. The induction is on
the access units; each call leaves the cursor where the next one finds its start code. -/
theorem gives_spansFrom (hMethod : splitter.method = .accessUnits coding cancellable)
    (h : reading.cursor.StandsAt medium reach offset) {first : StartCode}
    (hFirst : findFrom? medium.data offset = some first) :
    splitter.Gives reading (spansFrom coding medium.data offset) medium.data.size := by
  fun_induction spansFrom coding medium.data offset generalizing splitter reading first with
  | case1 offset hNone => rw [spanFrom?_some hFirst] at hNone; cases hNone
  | case2 offset span hSpan _ ih =>
    have hPlain : Splitter.outcome splitter.method medium offset = .ok (some span) span.stop := by
      simp only [hMethod, Splitter.outcome, outcome, hSpan]
    obtain ⟨hResult, hSplitter, hAfter⟩ :=
      Splitter.call_standsAt (roomy_of_accessUnits hMethod) h hPlain
    have hMethod' := (congrArg Splitter.method hSplitter).trans hMethod
    refine .cons hResult hAfter.position_eq (congrArg Splitter.frames hSplitter) ?_
    rcases (spanFrom?_sound hSpan).2.2.2 with hStop | ⟨code, hNext, -⟩
    · rw [hStop, spansFrom_size]
      exact Splitter.gives_past (roomy_of_accessUnits hMethod')
        (hStop ▸ hAfter) (Nat.le_refl _)
    · exact ih hMethod' hAfter hNext

/-- A call that finds no start code gives no access unit, and fails in front of bytes. No later
call gives one. -/
theorem call_of_none (hMethod : splitter.method = .accessUnits coding cancellable)
    (h : reading.cursor.StandsAt medium reach offset)
    (hFirst : findFrom? medium.data offset = none) :
    (splitter.call reading).result = (if medium.data.size ≤ offset then .ok none
        else .error (.noStartCode coding (medium.data.size - offset) offset)) ∧
      ∃ stop, (splitter.call reading).splitter.Gives (splitter.call reading).reading [] stop := by
  have hPlain : Splitter.outcome splitter.method medium offset =
      if medium.data.size ≤ offset then .ok none offset
      else .error (.noStartCode coding (medium.data.size - offset) offset) medium.data.size := by
    simp only [hMethod, Splitter.outcome, outcome, spanFrom?_none hFirst]
  obtain ⟨hResult, hSplitter, hAfter⟩ :=
    Splitter.call_standsAt (roomy_of_accessUnits hMethod) h hPlain
  have hMethod' : (splitter.call reading).splitter.method = .accessUnits coding cancellable := by
    rw [hSplitter, Splitter.method_counted, hMethod]
  have hLater := Splitter.gives_past
    (roomy_of_accessUnits hMethod') hAfter
  rw [hResult]
  by_cases hPast : medium.data.size ≤ offset
  · simp only [if_pos hPast] at hLater ⊢
    exact ⟨rfl, _, hLater hPast⟩
  · simp only [if_neg hPast] at hLater ⊢
    exact ⟨rfl, _, hLater (Nat.le_refl _)⟩

/-- Access units tile the data. Where no start code follows, a call gives none at the end of the
data and fails before it. Otherwise the calls give, without a failure, finitely many spans that
follow each other without a gap or an overlap from the first start code to the end, each from a
start code on and none of them empty, and from then on none. -/
theorem accessUnits_tile (hMethod : splitter.method = .accessUnits coding cancellable)
    (h : reading.cursor.StandsAt medium reach offset) :
    match findFrom? medium.data offset with
    | none =>
      (medium.data.size ≤ offset → (splitter.call reading).result = .ok none) ∧
        (offset < medium.data.size → ∃ fault, (splitter.call reading).result = .error fault ∧
          fault.kind = .invalidData)
    | some first =>
      ∃ spans, splitter.Gives reading spans medium.data.size ∧
        Span.Tile first.offset spans medium.data.size ∧
        (∀ span ∈ spans, Begins medium.data span.start ∧
          ∃ unit ∈ NalUnit.listFrom coding medium.data offset, unit.offset = span.start) ∧
        Span.joined medium.data spans = medium.data.extract first.offset medium.data.size := by
  split
  · rename_i hFirst
    have hCall := (call_of_none hMethod h hFirst).1
    refine ⟨fun hPast => by rw [hCall, if_pos hPast], fun hBefore => ?_⟩
    rw [hCall, if_neg (Nat.not_le.mpr hBefore)]
    exact ⟨.noStartCode .., rfl, rfl⟩
  · rename_i first hFirst
    have hTile : Span.Tile _ (spansFrom coding medium.data offset) _ := tile_spansFrom hFirst
    exact ⟨_, gives_spansFrom hMethod h hFirst, hTile,
      fun span hSpan => ⟨begins_of_mem_spansFrom hSpan, exists_unit_of_mem_spansFrom hSpan⟩,
      hTile.joined_eq _⟩

/-- An H.264 stream of two pictures of one slice each. -/
def twoPictures : ByteArray := ⟨#[0, 0, 1, 0x65, 0x88, 0, 0, 1, 0x65, 0x88]⟩

def twoPicturesStart : Reading where
  cursor := .ofMedium (.ofBytes twoPictures) 16

theorem twoPicturesStart_standsAt :
    twoPicturesStart.cursor.StandsAt (.ofBytes twoPictures) 0x7fff_ffff_ffff_ffff 0 :=
  Cursor.standsAt_ofMedium (Medium.steady_ofBytes (by decide)) 16

theorem accessUnits_tile_twoPictures :
    ∃ spans, (Splitter.ofFormat (.nal .h264)).Gives twoPicturesStart spans 10 ∧
      Span.Tile 0 spans 10 ∧
      (∀ span ∈ spans, Begins twoPictures span.start ∧
        ∃ unit ∈ NalUnit.listFrom .h264 twoPictures 0, unit.offset = span.start) ∧
      Span.joined twoPictures spans = twoPictures := by
  have hFirst : findFrom? twoPictures 0 = some ⟨0, 2⟩ := StartCode.findFrom?_begins (by decide)
  have hTile := accessUnits_tile (show (Splitter.ofFormat (.nal .h264)).method = _ from rfl)
    twoPicturesStart_standsAt
  simp only [Medium.ofBytes, hFirst] at hTile
  exact hTile

/-- A call other than the first one gives a frame that begins at an offset. -/
def BeginsLater (splitter : Splitter) (reading : Reading) (place : Nat) : Prop :=
  ∃ index span, (splitter.nthCall reading (index + 1)).result = .ok (some span) ∧
    span.start = place

/-- An access unit other than the first one begins at an offset just when a unit is cut off
there. -/
theorem beginsLater_iff_mem_cuts (hMethod : splitter.method = .accessUnits coding cancellable)
    (h : reading.cursor.StandsAt medium reach offset) {place : Nat} :
    BeginsLater splitter reading place ↔
      place ∈ Phase.leading.cuts (NalUnit.listFrom coding medium.data offset) := by
  cases hFirst : findFrom? medium.data offset with
  | none =>
    obtain ⟨stop, hLater⟩ := (call_of_none hMethod h hFirst).2
    rw [NalUnit.listFrom_none hFirst]
    constructor
    · rintro ⟨index, span, hSpan, -⟩
      cases hLater.result_iff.mp hSpan
    · intro hPlace
      cases hPlace
  | some first =>
    have hGives := gives_spansFrom hMethod h hFirst
    have hStarts : (spansFrom coding medium.data offset).map Span.start = _ :=
      starts_spansFrom hFirst
    cases hSpans : spansFrom coding medium.data offset with
    | nil => rw [hSpans] at hStarts; cases hStarts
    | cons span rest =>
      rw [hSpans] at hGives hStarts
      rw [← (List.cons.inj hStarts).2, List.mem_map]
      constructor
      · rintro ⟨index, other, hOther, rfl⟩
        exact ⟨other, List.mem_of_getElem? (hGives.result_iff.mp hOther), rfl⟩
      · rintro ⟨other, hOther, rfl⟩
        obtain ⟨index, hIndex⟩ := List.mem_iff_getElem?.mp hOther
        exact ⟨index, other, hGives.result_iff.mpr hIndex, rfl⟩

/-- Access units are cut off at the ends of pictures and nowhere else. An access unit other than
the first one begins where a first slice or a run of units that are no slices before a first slice
comes right after a slice. A run before a later slice or before the end of the data splits no
access unit. -/
theorem accessUnits_cut (hMethod : splitter.method = .accessUnits coding cancellable)
    (h : reading.cursor.StandsAt medium reach offset) :
    (∀ place, BeginsLater splitter reading place ↔
      IsCut (NalUnit.listFrom coding medium.data offset) place) ∧
    ∀ before run rest, NalUnit.listFrom coding medium.data offset = before ++ (run ++ rest) →
      (∀ unit ∈ run, unit.unitClass = .nonSlice) →
      (rest = [] ∨ ∃ slice later, rest = slice :: later ∧ slice.unitClass = .laterSlice) →
      ∀ unit ∈ run, ¬BeginsLater splitter reading unit.offset := by
  have hIff : ∀ place, BeginsLater splitter reading place ↔
      IsCut (NalUnit.listFrom coding medium.data offset) place := fun place =>
    (beginsLater_iff_mem_cuts hMethod h).trans Phase.mem_cuts_iff
  refine ⟨hIff, ?_⟩
  intro before run rest hUnits hRun hRest unit hUnit hBegins
  obtain ⟨left, right, rfl⟩ := List.append_of_mem hUnit
  have hSplit : NalUnit.listFrom coding medium.data offset =
      (before ++ left) ++ unit :: (right ++ rest) := by simp [hUnits]
  have hOpens := opensPicture_of_isCut hSplit ((hIff unit.offset).mp hBegins)
  have hRight : ∀ other ∈ unit :: right, other.unitClass = .nonSlice := fun other hOther =>
    hRun other (List.mem_append_right _ hOther)
  exact not_opensPicture_run hRight hRest hOpens

/-- An HEVC stream of two pictures. Two units that are no slices stand between them, one between the
slices of the second picture, and one at the end. -/
def slicesApart : ByteArray :=
  ⟨#[0, 0, 1, 0x26, 1, 0x88, 0, 0, 1, 0x4e, 1, 5, 0, 0, 1, 0x4e, 1, 5, 0, 0, 1, 0x26, 1, 0x88,
    0, 0, 1, 0x4e, 1, 5, 0, 0, 1, 0x26, 1, 0x40, 0, 0, 1, 0x4e, 1, 5]⟩

def slicesApartStart : Reading where
  cursor := .ofMedium (.ofBytes slicesApart) 16

/-- The second picture begins with the first of the two units before its first slice. The units
before its second slice and at the end begin no picture. -/
theorem accessUnits_cut_slicesApart :
    BeginsLater (Splitter.ofFormat (.nal .hevc)) slicesApartStart 6 ∧
      ∀ place ∈ [24, 36], ¬BeginsLater (Splitter.ofFormat (.nal .hevc)) slicesApartStart place := by
  have hUnits : NalUnit.listFrom .hevc slicesApart 0 =
      [⟨0, .firstSlice⟩, ⟨6, .nonSlice⟩, ⟨12, .nonSlice⟩, ⟨18, .firstSlice⟩, ⟨24, .nonSlice⟩,
        ⟨30, .laterSlice⟩, ⟨36, .nonSlice⟩] := by
    decide +kernel
  have hStands : slicesApartStart.cursor.StandsAt (.ofBytes slicesApart) 0x7fff_ffff_ffff_ffff 0 :=
    Cursor.standsAt_ofMedium (Medium.steady_ofBytes (by decide)) 16
  obtain ⟨hCut, hKept⟩ :=
    accessUnits_cut (show (Splitter.ofFormat (.nal .hevc)).method = _ from rfl) hStands
  simp only [Medium.ofBytes, hUnits] at hCut hKept
  constructor
  · rw [hCut]
    exact ⟨[], _, _, [⟨12, .nonSlice⟩, ⟨18, .firstSlice⟩, _, _, _], rfl, by decide, rfl,
      .inr ⟨rfl, [_], _, _, rfl, by decide, rfl⟩⟩
  · have hLater : ¬BeginsLater (Splitter.ofFormat (.nal .hevc)) slicesApartStart 24 :=
      hKept [_, _, _, _] [⟨24, .nonSlice⟩] [_, _] rfl (by decide) (.inr ⟨_, _, rfl, rfl⟩) _
        List.mem_cons_self
    have hLast : ¬BeginsLater (Splitter.ofFormat (.nal .hevc)) slicesApartStart 36 :=
      hKept [_, _, _, _, _, _] [⟨36, .nonSlice⟩] [] rfl (by decide) (.inl rfl) _ List.mem_cons_self
    simp [hLater, hLast]

end FrameFeed.AccessUnit
