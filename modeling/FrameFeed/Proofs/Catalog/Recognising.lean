import FrameFeed.Proofs.Catalog.Comparing
import FrameFeed.Proofs.Cursor.Standing
import FrameFeed.Proofs.StartCode.Agreement

/-! What a stream that starts as a JPEG image is taken for. The start of an image has the highest
score, but so has a parameter set behind the first start code, wherever that one stands. Of equally
good formats the earliest one wins, so that such a stream is taken for images only where no
parameter set follows the first start code. -/

namespace FrameFeed.Catalog

open Probe
open StartCode (IsFirst)

variable {data : ByteArray} {format : Format}

/-- The first bytes are the marker of an image and the start of one more marker. -/
def StartsAsImage (data : ByteArray) : Prop :=
  data[0]? = some 0xff ∧ data[1]? = some 0xd8 ∧ data[2]? = some 0xff

/-- The header of a sequence parameter set of H.264 follows the first start code. -/
def AnnouncesSps (data : ByteArray) : Prop :=
  ∃ code header, IsFirst data code ∧ data[code.nalOffset]? = some header ∧ header &&& 0x9f = 7

/-- The header of a parameter set of HEVC, in the lowest layer, follows the first start code. -/
def AnnouncesHevcSet (data : ByteArray) : Prop :=
  ∃ code first second, IsFirst data code ∧ data[code.nalOffset]? = some first ∧
    data[code.nalOffset + 1]? = some second ∧ first ∈ [0x40, 0x42, 0x44] ∧ 0 < second ∧ second < 8

/-- The format that data which starts as an image is taken for. -/
def TakenFor (data : ByteArray) : Format → Prop
  | .nal .h264 => AnnouncesSps data
  | .nal .hevc => AnnouncesHevcSet data
  | .mjpeg => ¬AnnouncesSps data ∧ ¬AnnouncesHevcSet data

theorem exists_takenFor (data : ByteArray) : ∃ format, TakenFor data format := by
  by_cases hSps : AnnouncesSps data
  · exact ⟨.nal .h264, hSps⟩
  · by_cases hSet : AnnouncesHevcSet data
    · exact ⟨.nal .hevc, hSet⟩
    · exact ⟨.mjpeg, hSps, hSet⟩

/-! ### The highest score -/

theorem ofBytes?_mjpeg_full : ofBytes? .mjpeg data = some fullScore ↔ StartsAsImage data := by
  have hBytes : ∀ index < 3, (data.extract 0 3).data.toList[index]? = data[index]? := by
    intro index hIndex
    rw [getElem?_toList, getElem?_extract (by omega), Nat.zero_add]
  simp only [ofBytes?, Option.ite_none_right_eq_some, and_true, List.isPrefixOf_iff_prefix,
    List.prefix_iff_getElem?]
  constructor
  · intro h
    exact ⟨(hBytes 0 (by decide)).symm.trans (h 0 (by decide)),
      (hBytes 1 (by decide)).symm.trans (h 1 (by decide)),
      (hBytes 2 (by decide)).symm.trans (h 2 (by decide))⟩
  · rintro ⟨hZero, hOne, hTwo⟩ index hIndex
    rw [hBytes index hIndex]
    have hPlace : index = 0 ∨ index = 1 ∨ index = 2 := by
      change index < 3 at hIndex
      omega
    rcases hPlace with rfl | rfl | rfl
    · exact hZero
    · exact hOne
    · exact hTwo

theorem ofBytes?_h264_full : ofBytes? (.nal .h264) data = some fullScore ↔ AnnouncesSps data := by
  have hHeader : ∀ header, ofH264Header? header = some fullScore ↔ header &&& 0x9f = 7 := by
    decide +kernel
  simp only [ofBytes?_h264, hHeader, StartCode.find?_eq_some_iff, AnnouncesSps]

theorem ofHevcHeader?_full {first second : UInt8} : ofHevcHeader? first second = some fullScore ↔
    first ∈ [0x40, 0x42, 0x44] ∧ 0 < second ∧ second < 8 := by
  have hSet : ∀ byte : UInt8, byte ∈ [0x40, 0x42, 0x44] ↔
      byte &&& 0x81 = 0 ∧ (Hevc.UnitType.ofNumber (Hevc.typeNumber byte)).isParameterSet := by
    decide +kernel
  have hLower : some headerScore ≠ some fullScore := by decide
  rw [ofHevcHeader?_eq, hSet]
  by_cases hSecond : 0 < second ∧ second < 8
  · simp only [hSecond, and_true]
    grind
  · simp only [hSecond, and_false, if_false, reduceCtorEq]

theorem ofBytes?_hevc_full :
    ofBytes? (.nal .hevc) data = some fullScore ↔ AnnouncesHevcSet data := by
  simp only [ofBytes?_hevc, ofHevcHeader?_full, StartCode.find?_eq_some_iff, AnnouncesHevcSet]

theorem ofBytes?_lt (h : ofBytes? format data ≠ some fullScore) {lower : Nat}
    (hLower : ofBytes? format data = some lower) : lower < fullScore := by
  refine Nat.lt_of_le_of_ne (ofBytes?_bounds hLower).2 ?_
  rintro rfl
  exact h hLower

theorem TakenFor.leads (hStart : StartsAsImage data) (h : TakenFor data format) :
    Leads (ofBytes? · data) standard.probes ⟨format, fullScore⟩ := by
  match format with
  | .nal .h264 =>
    refine ⟨[], [.nal .hevc, .mjpeg], rfl, ofBytes?_h264_full.mpr h, ?_, ?_⟩
    · intro other hOther
      cases hOther
    · exact fun other _ lower hLower => (ofBytes?_bounds hLower).2
  | .nal .hevc =>
    have hSet := ofBytes?_hevc_full.mpr h
    refine ⟨[.nal .h264], [.mjpeg], rfl, hSet, ?_, ?_⟩
    · intro other hOther lower hLower
      rw [List.mem_singleton.mp hOther] at hLower
      -- Only one of the two video codings has a score at all.
      rcases ofBytes?_exclusive data with hNone | hNone
      · cases hLower.symm.trans hNone
      · cases hSet.symm.trans hNone
    · exact fun other _ lower hLower => (ofBytes?_bounds hLower).2
  | .mjpeg =>
    refine ⟨[.nal .h264, .nal .hevc], [], rfl, ofBytes?_mjpeg_full.mpr hStart, ?_, ?_⟩
    · intro other hOther lower hLower
      refine ofBytes?_lt (fun hFull => ?_) hLower
      simp only [List.mem_cons, List.not_mem_nil, or_false] at hOther
      rcases hOther with rfl | rfl
      · exact h.1 (ofBytes?_h264_full.mp hFull)
      · exact h.2 (ofBytes?_hevc_full.mp hFull)
    · intro other hOther
      cases hOther

/-! ### Reading the first bytes -/

section Reading

variable {medium : Medium} {reach offset : Nat} {reading : Reading} {catalog : Catalog}
  {path : Option String} {probe : Probe}

/-- The bytes that the format is told from are the first ones of the data, as long as a size that is
reported leaves none of them out. -/
theorem extract_probeSize
    (hSize : ∀ size, medium.reportedSize = some size → medium.data.size ≤ size) :
    medium.data.extract 0 ((medium.reportedSize.map (min probeSize)).getD probeSize) =
      medium.data.extract 0 probeSize := by
  cases hReport : medium.reportedSize with
  | none => rfl
  | some size =>
    have hAll := hSize size hReport
    calc medium.data.extract 0 (min probeSize size)
      _ = medium.data.extract 0 (min (min probeSize size) medium.data.size) :=
        (extract_min _ _ _).symm
      _ = medium.data.extract 0 (min probeSize medium.data.size) := by
        rw [Nat.min_assoc, Nat.min_eq_right hAll]
      _ = medium.data.extract 0 probeSize := extract_min _ _ _

theorem recognise_standsAt (h : reading.cursor.StandsAt medium reach offset)
    (hSize : ∀ size, medium.reportedSize = some size → medium.data.size ≤ size)
    (hProbe : catalog.probe? (medium.data.extract 0 probeSize) path = some probe) :
    ∃ after, catalog.recognise path reading = .ok probe after ∧
      after.cursor.StandsAt medium reach offset := by
  obtain ⟨peeked, hPeek, hPeeked⟩ := h.peekAt (Nat.zero_le reach)
    ((medium.reportedSize.map (min probeSize)).getD probeSize)
  rw [Nat.zero_add, extract_probeSize hSize, ← h.medium_eq] at hPeek
  have hGet : (get : Reading.Action Reading) reading = .ok reading reading := rfl
  refine ⟨⟨peeked, reading.notes.push (.probed probe.format probe.score)⟩, ?_, hPeeked⟩
  unfold recognise
  rw [bind_of_ok hGet, Cursor.size, bind_of_ok (Reading.onCursor_ok hPeek), h.medium_eq, hProbe]
  rfl

theorem openSplitter_standsAt (h : reading.cursor.StandsAt medium reach offset)
    (hSize : ∀ size, medium.reportedSize = some size → medium.data.size ≤ size)
    (hProbe : standard.probe? (medium.data.extract 0 probeSize) path = some probe) :
    ∃ after, standard.openSplitter path reading = .ok (Splitter.ofFormat probe.format) after ∧
      after.cursor.StandsAt medium reach offset := by
  obtain ⟨after, hRecognise, hAfter⟩ := recognise_standsAt h hSize hProbe
  refine ⟨after, ?_, hAfter⟩
  unfold openSplitter
  rw [bind_of_ok hRecognise, make_standard]
  rfl

end Reading

theorem StartsAsImage.extract (h : StartsAsImage data) {count : Nat} (hCount : 3 ≤ count) :
    StartsAsImage (data.extract 0 count) := by
  obtain ⟨hZero, hOne, hTwo⟩ := h
  refine ⟨?_, ?_, ?_⟩ <;> rw [getElem?_extract (by omega), Nat.zero_add] <;> assumption

/-- Data that starts as an image gets the highest score whatever the path, as images unless the
header of a parameter set follows the first start code. A splitter is opened by the first bytes of
the data in the same way, and the reading stays where it stands. -/
theorem image_recognised (hStart : StartsAsImage data) :
    (∃ format, TakenFor data format) ∧
    (∀ format, TakenFor data format → ∀ path, standard.probe? data path = some ⟨format, 100⟩) ∧
    ∀ format, TakenFor (data.extract 0 probeSize) format →
      ∀ (medium : Medium) (reach offset : Nat) (reading : Reading) (path : Option String),
        medium.data = data →
        (∀ size, medium.reportedSize = some size → data.size ≤ size) →
        reading.cursor.StandsAt medium reach offset →
        (∃ after, standard.recognise path reading = .ok ⟨format, 100⟩ after ∧
          after.cursor.StandsAt medium reach offset) ∧
        ∃ after, standard.openSplitter path reading = .ok (Splitter.ofFormat format) after ∧
          after.cursor.StandsAt medium reach offset := by
  refine ⟨exists_takenFor data, fun format h => best?_of_leads (h.leads hStart), ?_⟩
  intro format h medium reach offset reading path hData hSize hStands
  subst hData
  have hProbe := best?_of_leads (h.leads (hStart.extract (by decide))) path
  exact ⟨recognise_standsAt hStands hSize hProbe, openSplitter_standsAt hStands hSize hProbe⟩

/-- An image with nothing in it. -/
def bareImage : ByteArray := ⟨#[0xff, 0xd8, 0xff, 0xd9]⟩

/-- A stream of images under a name of another format. -/
theorem image_recognised_bareImage : StartsAsImage bareImage ∧
    (∀ path, standard.probe? bareImage path = some ⟨.mjpeg, 100⟩) ∧
    ∃ after, standard.openSplitter (some "cam0.264") ⟨.ofMedium (.ofBytes bareImage) 16, #[]⟩ =
        .ok (Splitter.ofFormat .mjpeg) after ∧
      after.cursor.StandsAt (.ofBytes bareImage) 0x7fff_ffff_ffff_ffff 0 := by
  have hStart : StartsAsImage bareImage := ⟨rfl, rfl, rfl⟩
  have hTaken : TakenFor bareImage .mjpeg := by
    rw [TakenFor, ← ofBytes?_h264_full, ← ofBytes?_hevc_full]
    decide +kernel
  have hFirst : bareImage.extract 0 probeSize = bareImage :=
    (extract_min bareImage 0 probeSize).symm.trans ByteArray.extract_zero_size
  have hSize : ∀ size, (Medium.ofBytes bareImage).reportedSize = some size →
      bareImage.size ≤ size := by
    rintro size ⟨⟩
    exact Nat.le_refl _
  have hSteady : (Medium.ofBytes bareImage).Steady 0x7fff_ffff_ffff_ffff :=
    Medium.steady_ofBytes (by decide)
  obtain ⟨-, hProbe, hOpen⟩ := image_recognised hStart
  exact ⟨hStart, hProbe .mjpeg hTaken,
    (hOpen .mjpeg (hFirst.symm ▸ hTaken) (.ofBytes bareImage) _ 0 _ _ rfl hSize
      (Cursor.standsAt_ofMedium hSteady 16)).2⟩

/-- The parameter set in the comment comes before the image, even under a name of images. -/
theorem image_outdone_commentedImage : StartsAsImage commentedImage ∧
    standard.probe? commentedImage (some "photo.jpg") = some ⟨.nal .h264, 100⟩ ∧
    ¬∀ data path, StartsAsImage data → standard.probe? data path = some ⟨.mjpeg, 100⟩ := by
  have hStart : StartsAsImage commentedImage := ⟨rfl, rfl, rfl⟩
  have hProbe : standard.probe? commentedImage (some "photo.jpg") = some ⟨.nal .h264, 100⟩ := by
    decide +kernel
  refine ⟨hStart, hProbe, fun hImage => ?_⟩
  cases hProbe.symm.trans (hImage commentedImage (some "photo.jpg") hStart)

end FrameFeed.Catalog
