import FrameFeed.Catalog
import FrameFeed.Proofs.Bytes

/-! How the format of a stream is settled. The best score wins, and of equally good ones the earlier
format. The scores that bytes give are above those that a path gives, so that a path has a say only
where the bytes give none; and the headers of one video coding give no score to the other. -/

namespace FrameFeed

/-! ### Extensions of paths -/

namespace Format

/-- What follows the last dot of a name is an extension of the format, in letters of either case. -/
def HasExtension (name : String) (format : Format) : Prop :=
  ∃ (stem : List Char) (extension : String), name.toList = stem ++ '.' :: extension.toList ∧
    '.' ∉ extension.toList ∧ extension.toLower ∈ format.extensions

variable {name extension : String} {format : Format}

theorem mem_all : ∀ format : Format, format ∈ all
  | nal .h264 | nal .hevc | mjpeg => by decide

theorem extension?_of_toList {stem rest : List Char} (hRest : '.' ∉ rest)
    (hName : name.toList = stem ++ '.' :: rest) : extension? name = some (String.ofList rest) := by
  have hPlain : ∀ char ∈ rest.reverse, (char != '.') = true := by
    intro char hChar
    rw [bne_iff_ne]
    rintro rfl
    exact hRest (List.mem_reverse.mp hChar)
  have hReverse : name.toList.reverse = rest.reverse ++ '.' :: stem.reverse := by
    rw [hName, List.reverse_append, List.reverse_cons, List.append_assoc]
    rfl
  have hDot : name.toList.contains '.' = true := by
    rw [hName, List.contains_iff_mem]
    exact List.mem_append_right _ List.mem_cons_self
  rw [extension?, if_pos hDot, hReverse, List.takeWhile_append_of_pos hPlain,
    List.takeWhile_cons_of_neg (by decide), List.append_nil, List.reverse_reverse]

theorem extension?_eq_some_iff : extension? name = some extension ↔
    ∃ stem, name.toList = stem ++ '.' :: extension.toList ∧ '.' ∉ extension.toList := by
  constructor
  · intro hSome
    have hDot : '.' ∈ name.toList.reverse := by
      rw [List.mem_reverse, ← List.contains_iff_mem]
      simp only [extension?] at hSome
      split at hSome
      · assumption
      · cases hSome
    -- The first dot of the reversed name is its last one.
    obtain ⟨rest, stem, hReverse, hRest⟩ := List.eq_append_cons_of_mem hDot
    have hName : name.toList = stem.reverse ++ '.' :: rest.reverse := by
      rw [← List.reverse_reverse name.toList, hReverse, List.reverse_append, List.reverse_cons,
        List.append_assoc]
      rfl
    have hPlain : '.' ∉ rest.reverse := fun hMem => hRest (List.mem_reverse.mp hMem)
    obtain rfl := Option.some.inj ((extension?_of_toList hPlain hName).symm.trans hSome)
    rw [String.toList_ofList]
    exact ⟨stem.reverse, hName, hPlain⟩
  · rintro ⟨stem, hName, hPlain⟩
    rw [extension?_of_toList hPlain hName, String.ofList_toList]

/-- An extension belongs to one format. -/
theorem eq_of_mem_extensions {other : Format} (h : extension ∈ format.extensions)
    (hOther : extension ∈ other.extensions) : format = other := by
  have hDisjoint : ∀ format ∈ all, ∀ other ∈ all, ∀ extension ∈ format.extensions,
      extension ∈ other.extensions → format = other := by
    decide
  exact hDisjoint format (mem_all format) other (mem_all other) extension h hOther

theorem ofExtension?_eq_some_iff :
    ofExtension? extension = some format ↔ extension.toLower ∈ format.extensions := by
  have hSound : ∀ found, ofExtension? extension = some found →
      extension.toLower ∈ found.extensions := by
    intro found hFound
    simpa only [List.contains_iff_mem] using List.find?_some hFound
  refine ⟨hSound format, fun hMem => ?_⟩
  cases hFound : ofExtension? extension with
  | none =>
    have hNone := List.find?_eq_none.mp hFound format (mem_all format)
    rw [List.contains_iff_mem] at hNone
    exact absurd hMem hNone
  | some found => rw [eq_of_mem_extensions (hSound found hFound) hMem]

theorem ofPath?_eq_some_iff : ofPath? name = some format ↔ HasExtension name format := by
  simp only [ofPath?, bind, Option.bind_eq_some_iff, extension?_eq_some_iff,
    ofExtension?_eq_some_iff, HasExtension]
  constructor
  · rintro ⟨extension, ⟨stem, hName, hPlain⟩, hMem⟩
    exact ⟨stem, extension, hName, hPlain, hMem⟩
  · rintro ⟨stem, extension, hName, hPlain, hMem⟩
    exact ⟨extension, ⟨stem, hName, hPlain⟩, hMem⟩

theorem HasExtension.eq {other : Format} (h : HasExtension name format)
    (hOther : HasExtension name other) : format = other :=
  Option.some.inj ((ofPath?_eq_some_iff.mpr h).symm.trans (ofPath?_eq_some_iff.mpr hOther))

end Format

/-! ### The best score -/

namespace Probe

variable {score : Format → Option Nat} {formats : List Format} {probe other : Probe}

/-- A result leads among formats: its format has its score, and those before it have lower scores,
those behind it no higher ones. -/
def Leads (score : Format → Option Nat) (formats : List Format) (probe : Probe) : Prop :=
  ∃ before after, formats = before ++ probe.format :: after ∧
    score probe.format = some probe.score ∧
    (∀ format ∈ before, ∀ lower, score format = some lower → lower < probe.score) ∧
    ∀ format ∈ after, ∀ lower, score format = some lower → lower ≤ probe.score

/-- What is best so far among the formats that have been looked at. -/
def IsBest (score : Format → Option Nat) (formats : List Format) : Option Probe → Prop
  | none => ∀ format ∈ formats, score format = none
  | some probe => Leads score formats probe

theorem Leads.mem (h : Leads score formats probe) : probe.format ∈ formats := by
  obtain ⟨before, after, rfl, -⟩ := h
  exact List.mem_append_right _ List.mem_cons_self

theorem Leads.scored (h : Leads score formats probe) : score probe.format = some probe.score := by
  obtain ⟨before, after, -, hScore, -⟩ := h
  exact hScore

theorem Leads.score_le (h : Leads score formats probe) {format : Format} (hFormat : format ∈ formats)
    {lower : Nat} (hLower : score format = some lower) : lower ≤ probe.score := by
  obtain ⟨before, after, rfl, hScore, hBefore, hAfter⟩ := h
  rcases List.mem_append.mp hFormat with hEarly | hRest
  · exact Nat.le_of_lt (hBefore format hEarly lower hLower)
  · rcases List.mem_cons.mp hRest with rfl | hLate
    · exact Nat.le_of_eq (Option.some.inj (hLower.symm.trans hScore))
    · exact hAfter format hLate lower hLower

/-- The format of a result that leads is the first one with its score. -/
theorem Leads.find?_eq (h : Leads score formats probe) :
    formats.find? (fun format => score format = some probe.score) = some probe.format := by
  obtain ⟨before, after, hFormats, hScore, hBefore, -⟩ := h
  refine List.find?_eq_some_iff_append.mpr ⟨by simpa using hScore, before, after, hFormats, ?_⟩
  intro format hFormat
  have hLower := hBefore format hFormat probe.score
  simpa using hLower

theorem Leads.eq (h : Leads score formats probe) (hOther : Leads score formats other) :
    probe = other := by
  have hScore : probe.score = other.score :=
    Nat.le_antisymm (hOther.score_le h.mem h.scored) (h.score_le hOther.mem hOther.scored)
  have hFormat : probe.format = other.format := by
    have hFind := h.find?_eq
    rw [hScore, hOther.find?_eq] at hFind
    exact (Option.some.inj hFind).symm
  calc probe = ⟨probe.format, probe.score⟩ := rfl
    _ = ⟨other.format, other.score⟩ := by rw [hFormat, hScore]
    _ = other := rfl

/-- One more format behind the others does not lead if its score is no higher. -/
theorem Leads.concat (h : Leads score formats probe) {format : Format}
    (hScore : ∀ lower, score format = some lower → lower ≤ probe.score) :
    Leads score (formats ++ [format]) probe := by
  obtain ⟨before, after, rfl, hProbe, hBefore, hAfter⟩ := h
  refine ⟨before, after ++ [format], by simp, hProbe, hBefore, fun later hLater => ?_⟩
  rcases List.mem_append.mp hLater with hOld | hNew
  · exact hAfter later hOld
  · exact List.mem_singleton.mp hNew ▸ hScore

theorem leads_concat {format : Format} {higher : Nat} (hScore : score format = some higher)
    (hOthers : ∀ other ∈ formats, ∀ lower, score other = some lower → lower < higher) :
    Leads score (formats ++ [format]) ⟨format, higher⟩ :=
  ⟨formats, [], rfl, hScore, hOthers, fun _ hLater => absurd hLater List.not_mem_nil⟩

theorem IsBest.better {best : Option Probe} (h : IsBest score formats best) (format : Format) :
    IsBest score (formats ++ [format]) (better best format (score format)) := by
  cases hScore : score format with
  | none =>
    simp only [Probe.better]
    cases best with
    | none =>
      intro other hOther
      rcases List.mem_append.mp hOther with hOld | hNew
      · exact h other hOld
      · rw [List.mem_singleton.mp hNew, hScore]
    | some found =>
      refine Leads.concat h fun lower hLower => ?_
      cases hScore.symm.trans hLower
  | some higher =>
    cases best with
    | none =>
      refine leads_concat hScore fun other hOther lower hLower => ?_
      cases (h other hOther).symm.trans hLower
    | some found =>
      have hFound : Leads score formats found := h
      simp only [Probe.better]
      split <;> rename_i hHigher
      · exact leads_concat hScore fun other hOther lower hLower =>
          Nat.lt_of_le_of_lt (hFound.score_le hOther hLower) hHigher
      · refine hFound.concat fun lower hLower => ?_
        cases hScore.symm.trans hLower
        exact Nat.not_lt.mp hHigher

theorem IsBest.foldl {best : Option Probe} {seen : List Format} (h : IsBest score seen best)
    (formats : List Format) : IsBest score (seen ++ formats)
      (formats.foldl (fun best format => Probe.better best format (score format)) best) := by
  -- The induction is on the formats to come; each turn moves the first of them to those seen.
  induction formats generalizing seen best with
  | nil => rwa [List.append_nil]
  | cons format formats ih =>
    have hLater := ih (h.better format)
    rwa [List.append_assoc] at hLater

theorem isBest_foldl (score : Format → Option Nat) (formats : List Format) : IsBest score formats
    (formats.foldl (fun best format => better best format (score format)) none) := by
  have hStart : IsBest score [] none := by
    intro format hFormat
    cases hFormat
  exact hStart.foldl formats

/-- Some result leads as soon as some format has a score. -/
theorem exists_leads {format : Format} (hFormat : format ∈ formats) (hScore : score format ≠ none) :
    ∃ probe, Leads score formats probe := by
  have hBest := isBest_foldl score formats
  cases hFound : formats.foldl (fun best format => better best format (score format)) none with
  | none =>
    rw [hFound] at hBest
    exact absurd (hBest format hFormat) hScore
  | some probe =>
    rw [hFound] at hBest
    exact ⟨probe, hBest⟩

variable {data : ByteArray} {path : Option String}

theorem best?_eq_some_iff : best? formats data path = some probe ↔
    Leads (fun format => score? format data path) formats probe := by
  have hBest : IsBest _ formats (best? formats data path) :=
    isBest_foldl (fun format => score? format data path) formats
  cases hFound : best? formats data path with
  | none =>
    rw [hFound] at hBest
    simp only [reduceCtorEq, false_iff]
    intro hLeads
    cases hLeads.scored.symm.trans (hBest _ hLeads.mem)
  | some found =>
    rw [hFound] at hBest
    rw [Option.some.injEq]
    have hLeads : Leads (fun format => score? format data path) formats found := hBest
    exact ⟨fun hSame => hSame ▸ hLeads, fun hProbe => hLeads.eq hProbe⟩

/-! ### Scores of bytes -/

theorem ofH264Header?_eq : ∀ header : UInt8, ofH264Header? header =
    if header &&& 0x9f = 7 then some fullScore
    else if header &&& 0x9f = 9 ∨ header &&& 0x9f = 5 then some headerScore
    else none := by
  decide +kernel

/-- The layer is the lowest one and there is a sublayer just when the first byte is even and the
second one has its upper five bits clear and some other bit set. -/
theorem isBase_iff {first second : UInt8} :
    (Hevc.Header.ofBytes first second).layer = 0 ∧
      (Hevc.Header.ofBytes first second).temporalPlusOne ≠ 0 ↔
    first &&& 1 = 0 ∧ 0 < second ∧ second < 8 := by
  have hFirst : ∀ byte : UInt8, (byte &&& 1) <<< 5 = 0 ↔ byte &&& 1 = 0 := by decide +kernel
  have hSecond : ∀ byte : UInt8, byte >>> 3 = 0 ∧ byte &&& 7 ≠ 0 ↔ 0 < byte ∧ byte < 8 := by
    decide +kernel
  simp only [Hevc.Header.ofBytes, UInt8.or_eq_zero_iff, hFirst, and_assoc, hSecond]

theorem ofHevcHeader?_eq (first second : UInt8) : ofHevcHeader? first second =
    if first &&& 0x81 = 0 ∧ 0 < second ∧ second < 8 then
      let unitType := Hevc.UnitType.ofNumber (Hevc.typeNumber first)
      if unitType.isParameterSet then some fullScore
      else if unitType.isRandomAccess || unitType = .delimiter then some headerScore
      else none
    else none := by
  have hFirst : ∀ byte : UInt8, byte &&& 0x81 = 0 ↔ byte &&& 0x80 = 0 ∧ byte &&& 1 = 0 := by
    decide +kernel
  have hRefused : (first &&& 0x80 ≠ 0 ∨ (Hevc.Header.ofBytes first second).layer ≠ 0 ∨
      (Hevc.Header.ofBytes first second).temporalPlusOne = 0) ↔
      ¬(first &&& 0x81 = 0 ∧ 0 < second ∧ second < 8) := by
    rw [hFirst, and_assoc, ← isBase_iff, Decidable.not_and_iff_or_not,
      Decidable.not_and_iff_or_not, Decidable.not_not]
  simp only [ofHevcHeader?, hRefused, ite_not]
  rfl

theorem ofBytes?_h264 {found : Nat} : ofBytes? (.nal .h264) data = some found ↔
    ∃ code first, StartCode.find? data = some code ∧ data[code.nalOffset]? = some first ∧
      ofH264Header? first = some found := by
  simp only [ofBytes?, bind, Option.bind_eq_some_iff, exists_and_left]

theorem ofBytes?_hevc {found : Nat} : ofBytes? (.nal .hevc) data = some found ↔
    ∃ code first second, StartCode.find? data = some code ∧ data[code.nalOffset]? = some first ∧
      data[code.nalOffset + 1]? = some second ∧ ofHevcHeader? first second = some found := by
  simp only [ofBytes?, bind, Option.bind_eq_some_iff, exists_and_left]

theorem ofBytes?_bounds {format : Format} {found : Nat} (h : ofBytes? format data = some found) :
    headerScore ≤ found ∧ found ≤ fullScore := by
  have hScores : found = headerScore ∨ found = fullScore := by
    match format with
    | .nal .h264 =>
      obtain ⟨code, first, -, -, hHeader⟩ := ofBytes?_h264.mp h
      rw [ofH264Header?_eq] at hHeader
      grind
    | .nal .hevc =>
      obtain ⟨code, first, second, -, -, -, hHeader⟩ := ofBytes?_hevc.mp h
      rw [ofHevcHeader?_eq] at hHeader
      grind
    | .mjpeg =>
      simp only [ofBytes?] at h
      grind
  rcases hScores with rfl | rfl <;> decide

/-- A header byte that gives H.264 a score is odd, and one that gives HEVC a score is even. -/
theorem ofBytes?_exclusive (data : ByteArray) :
    ofBytes? (.nal .h264) data = none ∨ ofBytes? (.nal .hevc) data = none := by
  have hOdd : ∀ header : UInt8, ofH264Header? header ≠ none → header &&& 0x81 ≠ 0 := by
    decide +kernel
  cases hFirst : ofBytes? (.nal .h264) data with
  | none => exact .inl rfl
  | some found =>
    refine .inr (Option.eq_none_iff_forall_ne_some.mpr fun other hSecond => ?_)
    obtain ⟨code, first, hCode, hByte, hHeader⟩ := ofBytes?_h264.mp hFirst
    obtain ⟨code', first', second, hCode', hByte', -, hHeader'⟩ := ofBytes?_hevc.mp hSecond
    cases hCode.symm.trans hCode'
    cases hByte.symm.trans hByte'
    rw [ofHevcHeader?_eq, if_neg fun hEven => hOdd first (by simp [hHeader]) hEven.1] at hHeader'
    cases hHeader'

/-! ### Scores of paths -/

theorem score?_of_some {format : Format} {found : Nat} (h : ofBytes? format data = some found)
    (path : Option String) : score? format data path = some found := by
  rw [score?, h]
  rfl

theorem score?_of_none {format : Format} (h : ofBytes? format data = none) (path : Option String) :
    score? format data path = ofPath? format path := by
  rw [score?, h]
  rfl

theorem ofPath?_name {format : Format} {name : String} {found : Nat} :
    ofPath? format (some name) = some found ↔
      Format.HasExtension name format ∧ found = extensionScore := by
  simp only [ofPath?, Option.bind_some, Format.ofPath?_eq_some_iff, Option.ite_none_right_eq_some,
    Option.some.injEq, @eq_comm Nat found]

theorem ofPath?_eq {format : Format} {found : Nat} (h : ofPath? format path = some found) :
    found = extensionScore := by
  simp only [ofPath?] at h
  split at h
  · exact (Option.some.inj h).symm
  · cases h

/-- What leads by the bytes leads for every path. -/
theorem best?_of_leads (h : Leads (ofBytes? · data) formats probe) (path : Option String) :
    best? formats data path = some probe := by
  have hHigh := (ofBytes?_bounds h.scored).1
  -- A path gives a format that has no score of its own less than any score of bytes.
  have hOthers : ∀ format lower, score? format data path = some lower →
      ofBytes? format data = some lower ∨ lower < probe.score := by
    intro format lower hLower
    cases hBytes : ofBytes? format data with
    | some found =>
      rw [score?_of_some hBytes] at hLower
      exact .inl hLower
    | none =>
      rw [score?_of_none hBytes] at hLower
      rw [ofPath?_eq hLower]
      exact .inr (Nat.lt_of_lt_of_le (by decide) hHigh)
  obtain ⟨before, after, hFormats, hScore, hBefore, hAfter⟩ := h
  refine best?_eq_some_iff.mpr ⟨before, after, hFormats, score?_of_some hScore path, ?_, ?_⟩
  · intro format hFormat lower hLower
    rcases hOthers format lower hLower with hBytes | hLess
    · exact hBefore format hFormat lower hBytes
    · exact hLess
  · intro format hFormat lower hLower
    rcases hOthers format lower hLower with hBytes | hLess
    · exact hAfter format hFormat lower hBytes
    · exact Nat.le_of_lt hLess

theorem best?_of_extension {name : String} {format : Format} (hFormat : format ∈ formats)
    (hBytes : ∀ other, ofBytes? other data = none) (hName : Format.HasExtension name format) :
    best? formats data (some name) = some ⟨format, extensionScore⟩ := by
  have hOthers : ∀ other lower, score? other data (some name) = some lower →
      other = format ∧ lower = extensionScore := by
    intro other lower hLower
    rw [score?_of_none (hBytes other), ofPath?_name] at hLower
    exact ⟨hLower.1.eq hName, hLower.2⟩
  obtain ⟨before, after, hFormats, hFirst⟩ := List.eq_append_cons_of_mem hFormat
  refine best?_eq_some_iff.mpr ⟨before, after, hFormats, ?_, ?_, ?_⟩
  · exact (score?_of_none (hBytes format) _).trans (ofPath?_name.mpr ⟨hName, rfl⟩)
  · intro other hOther lower hLower
    exact absurd ((hOthers other lower hLower).1 ▸ hOther) hFirst
  · intro other hOther lower hLower
    exact Nat.le_of_eq (hOthers other lower hLower).2

theorem best?_eq_none (h : ∀ format, score? format data path = none) :
    best? formats data path = none := by
  refine Option.eq_none_iff_forall_ne_some.mpr fun probe hProbe => ?_
  cases (best?_eq_some_iff.mp hProbe).scored.symm.trans (h probe.format)

end Probe

namespace Catalog

open Probe Format

theorem make_standard (format : Format) : standard.make format = .ok (Splitter.ofFormat format) := by
  rcases format with (_ | _) | _ <;> rfl

/-- The result for some bytes is the best score that they give, whatever the path; of equally good
ones it is the earliest. Only where they give none the extension of the path decides. The bytes
speak for at most one of the two video codings. -/
theorem header_decides (data : ByteArray) :
    (ofBytes? (.nal .h264) data = none ∨ ofBytes? (.nal .hevc) data = none) ∧
    ((∃ format, ofBytes? format data ≠ none) →
      ∃ probe, Leads (ofBytes? · data) standard.probes probe ∧
        ∀ path, standard.probe? data path = some probe) ∧
    ((∀ format, ofBytes? format data = none) →
      standard.probe? data none = none ∧
      ∀ name,
        (∀ format, HasExtension name format →
          standard.probe? data (some name) = some ⟨format, 50⟩) ∧
        ((∀ format, ¬HasExtension name format) → standard.probe? data (some name) = none)) := by
  refine ⟨ofBytes?_exclusive data, ?_, ?_⟩
  · rintro ⟨format, hFormat⟩
    have hLeads : ∃ probe, Leads (ofBytes? · data) standard.probes probe :=
      exists_leads (mem_all format) hFormat
    obtain ⟨probe, hProbe⟩ := hLeads
    exact ⟨probe, hProbe, best?_of_leads hProbe⟩
  · intro hBytes
    refine ⟨best?_eq_none fun format => score?_of_none (hBytes format) none, fun name => ⟨?_, ?_⟩⟩
    · intro format hName
      exact best?_of_extension (mem_all format) hBytes hName
    · intro hNames
      refine best?_eq_none fun format => (score?_of_none (hBytes format) _).trans ?_
      exact Option.eq_none_iff_forall_ne_some.mpr fun found hFound =>
        hNames format (ofPath?_name.mp hFound).1

/-- An image with a comment that holds a start code and the header of a parameter set of H.264. -/
def commentedImage : ByteArray :=
  ⟨#[0xff, 0xd8, 0xff, 0xfe, 0, 6, 0, 0, 1, 0x67, 0xff, 0xd9]⟩

/-- Bytes in which no format is found. -/
def plainBytes : ByteArray := ⟨#[0x12, 0x34, 0x56, 0x78]⟩

/-- Two formats have the highest score for the commented image; the plain bytes leave it to a name. -/
theorem header_decides_commentedImage_plainBytes :
    (∃ probe, Leads (ofBytes? · commentedImage) standard.probes probe ∧
      ∀ path, standard.probe? commentedImage path = some probe) ∧
    standard.probe? plainBytes (some "clips/cam0.HEVC") = some ⟨.nal .hevc, 50⟩ ∧
    standard.probe? plainBytes none = none := by
  have hPlain : ∀ format, ofBytes? format plainBytes = none := by
    intro format
    match format with
    | .nal .h264 | .nal .hevc | .mjpeg => decide +kernel
  have hName : HasExtension "clips/cam0.HEVC" (.nal .hevc) :=
    ⟨"clips/cam0".toList, "HEVC", by decide +kernel⟩
  have hNamed := (header_decides plainBytes).2.2 hPlain
  exact ⟨(header_decides commentedImage).2.1 ⟨.mjpeg, by decide +kernel⟩,
    (hNamed.2 _).1 _ hName, hNamed.1⟩

end Catalog

end FrameFeed
