import FrameFeed.Proofs.Image.Markers
import FrameFeed.Proofs.Splitter.Calls

/-! The images that the calls of a splitter give, over a medium that reports its size. Each call
follows the walk along the markers, and the images tile the data up to where the run ends. -/

namespace FrameFeed

/-- A medium that reports its size, with room behind the data for a look at two bytes more. -/
structure Medium.Reports (medium : Medium) (reach : Nat) : Prop where
  size_eq : medium.reportedSize = some medium.data.size
  room : medium.data.size + 2 ≤ reach

theorem Medium.Reports.roomy {medium : Medium} {reach : Nat} (h : medium.Reports reach) :
    medium.Roomy reach where
  reported size hSize := (Option.some.inj (h.size_eq.symm.trans hSize)).symm
  peeked := h.room
  jumped hNone := by cases h.size_eq.symm.trans hNone

namespace Image

open EStateM (Result)

variable {splitter : Splitter} {reading : Reading} {medium : Medium} {reach offset : Nat}

/-! ### One call -/

/-- A call where the walk ends gives the image up to there and counts it, whether the medium reports
its size or not. -/
theorem call_ended (hMethod : splitter.method = .images) (hRoom : medium.Roomy reach)
    (h : reading.cursor.StandsAt medium reach offset) (hBefore : offset < medium.data.size)
    {stop : Nat} (hWalk : WalksTo medium.data false offset (some stop)) :
    (splitter.call reading).result = .ok (some ⟨offset, stop⟩) ∧
      (splitter.call reading).splitter = { splitter with frames := splitter.frames + 1 } ∧
      (splitter.call reading).reading.cursor.StandsAt medium reach stop := by
  have hPlain :
      Splitter.outcome splitter.method medium offset = .ok (some ⟨offset, stop⟩) stop := by
    have hResult : walk medium.data medium.reportedSize offset false offset = .ok stop stop :=
      hWalk.resultsIn hRoom.reported offset
    simp only [hMethod, Splitter.outcome, outcome, if_neg (Nat.not_le.mpr hBefore), hResult]
  exact Splitter.call_standsAt (fun _ => hRoom) h hPlain

theorem call_unended (hMethod : splitter.method = .images) (hRoom : medium.Roomy reach)
    (h : reading.cursor.StandsAt medium reach offset) (hBefore : offset < medium.data.size)
    (hWalk : WalksTo medium.data false offset none) :
    ∃ fault, (splitter.call reading).result = .error fault ∧ fault.kind = .invalidData ∧
      (splitter.call reading).splitter = splitter := by
  obtain ⟨fault, place, hResult, hKind⟩ := hWalk.resultsIn hRoom.reported offset
  have hPlain : Splitter.outcome splitter.method medium offset = .error fault place := by
    simp only [hMethod, Splitter.outcome, outcome, if_neg (Nat.not_le.mpr hBefore), hResult]
  obtain ⟨hCall, hSplitter, -⟩ := Splitter.call_standsAt (fun _ => hRoom) h hPlain
  exact ⟨fault, hCall, hKind, hSplitter⟩

theorem call_of_walksTo_some (hMethod : splitter.method = .images) (hSize : medium.Reports reach)
    (h : reading.cursor.StandsAt medium reach offset) (hBefore : offset < medium.data.size)
    {stop : Nat} (hWalk : WalksTo medium.data false offset (some stop)) :
    (splitter.call reading).result = .ok (some ⟨offset, stop⟩) ∧
      (splitter.call reading).splitter = { splitter with frames := splitter.frames + 1 } ∧
      (splitter.call reading).reading.cursor.StandsAt medium reach stop :=
  call_ended hMethod hSize.roomy h hBefore hWalk

theorem call_of_walksTo_none (hMethod : splitter.method = .images) (hSize : medium.Reports reach)
    (h : reading.cursor.StandsAt medium reach offset) (hBefore : offset < medium.data.size)
    (hWalk : WalksTo medium.data false offset none) :
    ∃ fault, (splitter.call reading).result = .error fault ∧ fault.kind = .invalidData ∧
      (splitter.call reading).splitter = splitter :=
  call_unended hMethod hSize.roomy h hBefore hWalk

/-- What a call gives tells what the walk comes to. -/
theorem walksTo_of_call (hMethod : splitter.method = .images) (hRoom : medium.Roomy reach)
    (h : reading.cursor.StandsAt medium reach offset) (hBefore : offset < medium.data.size)
    {span : Span} (hCall : (splitter.call reading).result = .ok (some span)) :
    span.start = offset ∧ WalksTo medium.data false offset (some span.stop) := by
  obtain ⟨stop?, hWalk⟩ := exists_walksTo medium.data false offset
  cases stop? with
  | none =>
    obtain ⟨_, hFault, -⟩ := call_unended hMethod hRoom h hBefore hWalk
    cases hFault.symm.trans hCall
  | some stop =>
    cases (call_ended hMethod hRoom h hBefore hWalk).1.symm.trans hCall
    exact ⟨rfl, hWalk⟩

/-! ### Runs -/

/-- What a run of calls comes to: images that tile the data from an offset on, each up to where the
walk from its start ends, and then the end of the data or a fault. -/
structure TilesTo (data : ByteArray) (offset : Nat) (spans : List Span) (stop : Nat)
    (last : Except Fault (Option Span)) : Prop where
  tile : Span.Tile offset spans stop
  walks : ∀ span ∈ spans, WalksTo data false span.start (some span.stop)
  ends : (last = .ok none ∧ stop = data.size) ∨
    ∃ fault, last = .error fault ∧ fault.kind = .invalidData

/-- From every offset a run comes to an end. The induction is on the data that is left, of which
every image takes some. -/
theorem exists_runs (hMethod : splitter.method = .images) (hSize : medium.Reports reach)
    (h : reading.cursor.StandsAt medium reach offset) (hInside : offset ≤ medium.data.size) :
    ∃ spans stop last, splitter.Runs reading spans last ∧
      TilesTo medium.data offset spans stop last := by
  induction hLeft : medium.data.size - offset using Nat.strongRecOn
    generalizing splitter reading offset with
  | ind left ih =>
    rcases Nat.lt_or_ge offset medium.data.size with hBefore | hPast
    · obtain ⟨stop?, hWalk⟩ := exists_walksTo medium.data false offset
      cases stop? with
      | none =>
        obtain ⟨fault, hCall, hKind, hSplitter⟩ :=
          call_of_walksTo_none hMethod hSize h hBefore hWalk
        have hRuns : splitter.Runs reading [] (splitter.call reading).result := by
          apply Splitter.runs_nil
          · intro span hSpan
            cases hCall.symm.trans hSpan
          · rw [hSplitter]
        exact ⟨[], offset, _, hRuns, .none _, fun _ hSpan => (List.not_mem_nil hSpan).elim,
          .inr ⟨fault, hCall, hKind⟩⟩
      | some stop =>
        obtain ⟨hCall, hSplitter, hAfter⟩ := call_of_walksTo_some hMethod hSize h hBefore hWalk
        obtain ⟨-, hForward, hStop⟩ := walk_bounds (hWalk.resultsIn hSize.roomy.reported offset)
        have hMethod' : (splitter.call reading).splitter.method = .images := by
          rw [hSplitter]
          exact hMethod
        obtain ⟨rest, finish, last, hRuns, hTiles⟩ :=
          ih (medium.data.size - stop) (by omega) hMethod' hAfter hStop rfl
        have hTile : Span.Tile (Span.start ⟨offset, stop⟩) (⟨offset, stop⟩ :: rest) finish :=
          .cons hForward hTiles.tile
        refine ⟨⟨offset, stop⟩ :: rest, finish, last,
          .cons hCall hAfter.position_eq (congrArg Splitter.frames hSplitter) hRuns,
          hTile, ?_, hTiles.ends⟩
        intro span hSpan
        rcases List.mem_cons.mp hSpan with rfl | hRest
        · exact hWalk
        · exact hTiles.walks span hRest
    · obtain ⟨hCall, hSplitter, -⟩ :=
        Splitter.call_standsAt (fun _ => hSize.roomy) h (Splitter.outcome_past hPast)
      have hRuns : splitter.Runs reading [] (splitter.call reading).result := by
        apply Splitter.runs_nil
        · intro span hSpan
          cases hCall.symm.trans hSpan
        · rw [hSplitter]
          rfl
      exact ⟨[], offset, _, hRuns, .none _, fun _ hSpan => (List.not_mem_nil hSpan).elim,
        .inl ⟨hCall, Nat.le_antisymm hInside hPast⟩⟩

/-- The reading of images follows the walk along their markers. From an offset inside the data the
walk comes to something, and a call gives the image up to an offset, with the cursor there, just
when the walk ends there, behind an end marker; it fails for invalid data just when the walk comes
to nothing. A run of calls gives finitely many images, none of them empty and each from where the
one before it ends, counts them, and ends in a fault or at the end of the data, which the images
then cover. -/
theorem images_follow (hMethod : splitter.method = .images) (hSize : medium.Reports reach)
    (h : reading.cursor.StandsAt medium reach offset) (hBefore : offset < medium.data.size) :
    (∃ stop?, WalksTo medium.data false offset stop?) ∧
    (∀ stop, ((splitter.call reading).result = .ok (some ⟨offset, stop⟩) ∧
        (splitter.call reading).reading.cursor.position = stop) ↔
      WalksTo medium.data false offset (some stop)) ∧
    (∀ stop, WalksTo medium.data false offset (some stop) → ∃ mark, stop = mark + 2 ∧
      medium.data[mark]? = some 0xff ∧ medium.data[mark + 1]? = some 0xd9) ∧
    ((∃ fault, (splitter.call reading).result = .error fault ∧ fault.kind = .invalidData) ↔
      WalksTo medium.data false offset none) ∧
    ∃ spans stop last, splitter.Runs reading spans last ∧
      TilesTo medium.data offset spans stop last := by
  obtain ⟨stop?, hWalk⟩ := exists_walksTo medium.data false offset
  refine ⟨⟨stop?, hWalk⟩, fun stop => ⟨?_, ?_⟩, fun stop hStop => hStop.endMarker_before,
    ⟨?_, ?_⟩, exists_runs hMethod hSize h (Nat.le_of_lt hBefore)⟩
  · rintro ⟨hGiven, -⟩
    cases stop? with
    | none =>
      obtain ⟨_, hCall, -⟩ := call_of_walksTo_none hMethod hSize h hBefore hWalk
      cases hCall.symm.trans hGiven
    | some stop' =>
      cases (call_of_walksTo_some hMethod hSize h hBefore hWalk).1.symm.trans hGiven
      exact hWalk
  · intro hStop
    obtain ⟨hCall, -, hAfter⟩ := call_of_walksTo_some hMethod hSize h hBefore hStop
    exact ⟨hCall, hAfter.position_eq⟩
  · rintro ⟨fault, hFault, -⟩
    cases stop? with
    | none => exact hWalk
    | some stop' =>
      cases (call_of_walksTo_some hMethod hSize h hBefore hWalk).1.symm.trans hFault
  · intro hNone
    obtain ⟨fault, hCall, hKind, -⟩ := call_of_walksTo_none hMethod hSize h hBefore hNone
    exact ⟨fault, hCall, hKind⟩

/-- An image with a thumbnail, a segment that holds the bytes of an end marker, and a second byte
255 before its own end marker. -/
def thumbnailed : ByteArray :=
  ⟨#[0xff, 0xd8, 0xff, 0xe0, 0, 8, 0x4a, 0x46, 0x58, 0x58, 0, 0x10, 0xff, 0xd9,
    0xff, 0xe1, 0, 4, 0xff, 0xd9, 0xff, 0xff, 0xd9]⟩

def thumbnailedStart : Reading where
  cursor := .ofMedium (.ofBytes thumbnailed) 16

theorem images_follow_thumbnailed :
    (((Splitter.ofFormat .mjpeg).call thumbnailedStart).result = .ok (some ⟨0, 23⟩) ∧
      ((Splitter.ofFormat .mjpeg).call thumbnailedStart).reading.cursor.position = 23) ∧
    ∃ spans stop last, (Splitter.ofFormat .mjpeg).Runs thumbnailedStart spans last ∧
      TilesTo thumbnailed 0 spans stop last := by
  have hStands :
      thumbnailedStart.cursor.StandsAt (.ofBytes thumbnailed) 0x7fff_ffff_ffff_ffff 0 :=
    Cursor.standsAt_ofMedium (Medium.steady_ofBytes (by decide)) 16
  obtain ⟨-, hGiven, -, -, hRuns⟩ :=
    images_follow (show (Splitter.ofFormat .mjpeg).method = .images from rfl)
      ⟨rfl, by decide⟩ hStands (by decide)
  exact ⟨(hGiven 23).mpr (by decide +kernel), hRuns⟩

end Image

end FrameFeed
