import FrameFeed.Proofs.AccessUnit.Cuts
import FrameFeed.Proofs.Steps
import FrameFeed.Proofs.Tiling

/-! The access units of a stream, one after another. Each begins at a start code, and the next one
is found from its end on at that very place, so that together they tile the data from the first
start code to the end. -/

namespace FrameFeed.AccessUnit

open EStateM (Result)
open StartCode (Begins findFrom?)

variable {coding : NalCoding} {data : ByteArray} {offset : Nat}

/-! ### One access unit -/

theorem spanFrom?_none (h : findFrom? data offset = none) :
    spanFrom? coding data offset = none := by
  simp only [spanFrom?, NalUnit.listFrom_none h]

/-- An access unit begins at the first start code, and it is cut off at the first cut among its
units and those after it. -/
theorem spanFrom?_some {first : StartCode} (h : findFrom? data offset = some first) :
    spanFrom? coding data offset = some ⟨first.offset,
      (Phase.leading.cuts (NalUnit.listFrom coding data offset)).headD data.size⟩ := by
  simp only [spanFrom?, NalUnit.listFrom_some h, Phase.stopAmong_eq]
  rfl

/-- What lies behind a span: the end of the data or, right at its end, a start code; the later cuts
are found from there as well as from its start. -/
theorem cuts_stop {first : StartCode} (h : findFrom? data offset = some first) {stop : Nat}
    {stops : List Nat}
    (hCuts : Phase.leading.cuts (NalUnit.listFrom coding data offset) = stop :: stops) :
    first.nalOffset ≤ stop ∧ (∃ code, findFrom? data stop = some code ∧ code.offset = stop) ∧
      Phase.leading.cuts (NalUnit.listFrom coding data stop) = stops := by
  rw [NalUnit.listFrom_some h] at hCuts
  obtain ⟨before, head, after, hUnits, rfl, hRest⟩ := leading_cuts_rest hCuts
  have hHead : head ∈ NalUnit.listFrom coding data first.nalOffset := by simp [hUnits]
  have hSuffix := NalUnit.listFrom_suffix hUnits
  refine ⟨NalUnit.le_offset_of_mem hHead, ?_, by rw [hSuffix, hRest]⟩
  cases hCode : findFrom? data head.offset with
  | none => rw [NalUnit.listFrom_none hCode] at hSuffix; cases hSuffix
  | some code =>
    rw [NalUnit.listFrom_some hCode] at hSuffix
    exact ⟨code, rfl, congrArg NalUnit.offset (List.cons.inj hSuffix).1⟩

/-- The first start code of an access unit lies in it as a whole. -/
theorem nalOffset_le_stop {first : StartCode} (h : findFrom? data offset = some first) {span : Span}
    (hSpan : spanFrom? coding data offset = some span) : first.nalOffset ≤ span.stop := by
  rw [spanFrom?_some h] at hSpan
  cases hCuts : Phase.leading.cuts (NalUnit.listFrom coding data offset) with
  | nil =>
    rw [hCuts] at hSpan
    cases hSpan
    exact (StartCode.findFrom?_bounds h).2
  | cons stop stops =>
    rw [hCuts] at hSpan
    cases hSpan
    exact (cuts_stop h hCuts).1

/-- An access unit begins at a start code, and one that does not end with the data ends at one. -/
theorem spanFrom?_sound {span : Span} (h : spanFrom? coding data offset = some span) :
    offset ≤ span.start ∧ Begins data span.start ∧ span.start < span.stop ∧
      (span.stop = data.size ∨
        ∃ code, findFrom? data span.stop = some code ∧ code.offset = span.stop) := by
  cases hCode : findFrom? data offset with
  | none => rw [spanFrom?_none hCode] at h; cases h
  | some first =>
    obtain ⟨hLow, hBegins, -⟩ := StartCode.findFrom?_sound hCode
    rw [spanFrom?_some hCode] at h
    cases hCuts : Phase.leading.cuts (NalUnit.listFrom coding data offset) with
    | nil =>
      rw [hCuts] at h
      cases h
      exact ⟨hLow, hBegins, Nat.lt_of_le_of_lt (Nat.le_add_right _ 2) hBegins.lt_size, .inl rfl⟩
    | cons stop stops =>
      rw [hCuts] at h
      cases h
      obtain ⟨hStop, hNext, -⟩ := cuts_stop hCode hCuts
      exact ⟨hLow, hBegins, Nat.lt_of_lt_of_le first.offset_lt_nalOffset hStop, .inr hNext⟩

theorem spanFrom?_stop_le {span : Span} (h : spanFrom? coding data offset = some span) :
    span.stop ≤ data.size := by
  obtain ⟨-, -, -, hStop | ⟨code, hNext, hStop⟩⟩ := spanFrom?_sound h
  · exact Nat.le_of_eq hStop
  · have := (StartCode.findFrom?_sound hNext).2.1.lt_size
    omega

theorem left_lt_of_spanFrom? {span : Span} (h : spanFrom? coding data offset = some span) :
    data.size - span.stop < data.size - offset := by
  have := spanFrom?_sound h
  have := spanFrom?_stop_le h
  omega

/-! ### All access units -/

/-- The access units from an offset on. -/
def spansFrom (coding : NalCoding) (data : ByteArray) (offset : Nat) : List Span :=
  match hSpan : spanFrom? coding data offset with
  | none => []
  | some span =>
    have : data.size - span.stop < data.size - offset := left_lt_of_spanFrom? hSpan
    span :: spansFrom coding data span.stop
termination_by data.size - offset

theorem spansFrom_none (h : spanFrom? coding data offset = none) :
    spansFrom coding data offset = [] := by
  rw [spansFrom]
  split
  · rfl
  · rename_i hSome
    cases h.symm.trans hSome

theorem spansFrom_some {span : Span} (h : spanFrom? coding data offset = some span) :
    spansFrom coding data offset = span :: spansFrom coding data span.stop := by
  rw [spansFrom]
  split
  · rename_i hNone
    cases h.symm.trans hNone
  · rename_i hSome
    cases h.symm.trans hSome
    rfl

theorem spansFrom_size : spansFrom coding data data.size = [] :=
  spansFrom_none (spanFrom?_none (StartCode.findFrom?_past (Nat.le_refl _)))

theorem begins_of_mem_spansFrom {span : Span} (h : span ∈ spansFrom coding data offset) :
    Begins data span.start := by
  fun_induction spansFrom coding data offset with
  | case1 => cases h
  | case2 offset first hFirst _ ih =>
    rcases List.mem_cons.mp h with rfl | hLater
    · exact (spanFrom?_sound hFirst).2.1
    · exact ih hLater

/-- The access units begin at the first start code and at the cuts. The induction is on the access
units; after each one the units of the rest are the ones that follow its cut. -/
theorem starts_spansFrom {first : StartCode} (h : findFrom? data offset = some first) :
    (spansFrom coding data offset).map Span.start =
      first.offset :: Phase.leading.cuts (NalUnit.listFrom coding data offset) := by
  fun_induction spansFrom coding data offset generalizing first with
  | case1 offset hNone => rw [spanFrom?_some h] at hNone; cases hNone
  | case2 offset span hSpan _ ih =>
    rw [spanFrom?_some h] at hSpan
    cases hSpan
    cases hCuts : Phase.leading.cuts (NalUnit.listFrom coding data offset) with
    | nil =>
      rw [List.headD_nil, spansFrom_size]
      rfl
    | cons stop stops =>
      obtain ⟨-, ⟨code, hNext, hCode⟩, hRest⟩ := cuts_stop h hCuts
      rw [hCuts, List.headD_cons] at ih
      rw [List.headD_cons, List.map_cons, ih hNext, hCode, hRest]

/-- Every access unit begins with one of the units. -/
theorem exists_unit_of_mem_spansFrom {span : Span} (h : span ∈ spansFrom coding data offset) :
    ∃ unit ∈ NalUnit.listFrom coding data offset, unit.offset = span.start := by
  cases hFirst : findFrom? data offset with
  | none => rw [spansFrom_none (spanFrom?_none hFirst)] at h; cases h
  | some first =>
    have hStart : span.start ∈ (spansFrom coding data offset).map Span.start :=
      List.mem_map_of_mem h
    rw [starts_spansFrom hFirst] at hStart
    rcases List.mem_cons.mp hStart with hHere | hCut
    · rw [NalUnit.listFrom_some hFirst]
      exact ⟨_, List.mem_cons_self, hHere.symm⟩
    · obtain ⟨before, slice, unit, after, hUnits, -, hUnit, -⟩ := Phase.mem_cuts_iff.mp hCut
      exact ⟨unit, by simp [hUnits], hUnit⟩

/-- The access units tile the data from the first start code to the end. -/
theorem tile_spansFrom {first : StartCode} (h : findFrom? data offset = some first) :
    Span.Tile first.offset (spansFrom coding data offset) data.size := by
  fun_induction spansFrom coding data offset generalizing first with
  | case1 offset hNone => rw [spanFrom?_some h] at hNone; cases hNone
  | case2 offset span hSpan _ ih =>
    obtain ⟨-, -, hSize, hStop⟩ := spanFrom?_sound hSpan
    have hStart : first.offset = span.start := by
      rw [spanFrom?_some h] at hSpan
      cases hSpan
      rfl
    rw [hStart]
    refine .cons hSize ?_
    rcases hStop with hStop | ⟨code, hNext, hStop⟩
    · rw [hStop, spansFrom_size]
      exact .none _
    · have hRest := ih hNext
      rwa [hStop] at hRest

/-! ### Reading -/

/-- What the reading of an access unit comes to along the data. -/
def outcome (coding : NalCoding) (data : ByteArray) (offset : Nat) :
    Result Fault Nat (Option Span) :=
  match spanFrom? coding data offset with
  | some span => .ok (some span) span.stop
  | none =>
    if data.size ≤ offset then .ok none offset
    else .error (.noStartCode coding (data.size - offset) offset) data.size

/-- Reading an access unit comes to what it comes to along the data. -/
theorem next_agrees (coding : NalCoding) {medium : Medium} {reach : Nat} {reading : Reading}
    (h : reading.cursor.StandsAt medium reach offset) :
    Cursor.Agrees Reading.cursor medium reach (next coding false reading)
      (outcome coding medium.data offset) := by
  obtain ⟨scanned, hScan, hScanned⟩ := StartCode.scan_standsAt h
  cases hCode : findFrom? medium.data offset with
  | none =>
    rw [hCode] at hScan hScanned
    rw [next, bind_of_ok Reading.position_ok, bind_of_ok (Reading.onCursor_ok hScan), outcome,
      spanFrom?_none hCode]
    simp only [bind_of_ok Reading.position_ok, h.position_eq, hScanned.position_eq]
    by_cases hPast : medium.data.size ≤ offset
    · rw [if_pos hPast, if_neg (by omega)]
      rw [Nat.max_eq_left hPast] at hScanned
      exact .ok hScanned
    · rw [if_neg hPast, if_pos (by omega), Nat.max_eq_right (by omega)]
      rw [Nat.max_eq_right (by omega)] at hScanned
      exact .error hScanned
  | some first =>
    rw [hCode] at hScan hScanned
    have hSpan : spanFrom? coding medium.data offset = some _ := spanFrom?_some hCode
    have hStart := (spanFrom?_sound hSpan).2.2.1
    have hSize := spanFrom?_stop_le hSpan
    -- What follows the start code does not depend on the remark about bytes before it.
    have hTail : ∀ notes, Cursor.Agrees Reading.cursor medium reach
        ((do
          let stop ← fun reading => stopFrom coding .leading first reading.notes reading.cursor
          let _ ← Reading.onCursor (Cursor.seek (.fromStart stop))
          if stop ≤ first.offset then
            return none
          return some ⟨first.offset, stop⟩ : Reading.Action (Option Span))
            { cursor := scanned, notes })
        (outcome coding medium.data offset) := by
      intro notes
      obtain ⟨ended, place, hStop, hEnded⟩ := stopFrom_standsAt coding .leading notes hScanned
        (StartCode.findFrom?_bounds hCode).2
      rw [← NalUnit.listFrom_some hCode, Phase.stopAmong_eq] at hStop
      obtain ⟨after, hSeek, hAfter⟩ := hEnded.seekStart (Nat.le_trans hSize h.steady.size_le)
      simp only [outcome, hSpan, Reading.onCursor, bind, EStateM.bind, hStop, hSeek,
        if_neg (Nat.not_le.mpr hStart)]
      exact .ok hAfter
    rw [next, bind_of_ok Reading.position_ok, bind_of_ok (Reading.onCursor_ok hScan), h.position_eq]
    simp only
    by_cases hSkipped : offset < first.offset
    · rw [if_pos hSkipped]
      exact hTail _
    · rw [if_neg hSkipped]
      exact hTail _

end FrameFeed.AccessUnit
