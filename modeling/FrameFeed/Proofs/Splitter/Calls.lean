import FrameFeed.Proofs.AccessUnit.Spans
import FrameFeed.Proofs.Image.Walk
import FrameFeed.Splitter

/-! Calls of a splitter, one after another. Over a steady medium what a call comes to depends on
the method, the data and the offset alone, so that a sequence of calls can be followed along the
data. -/

namespace FrameFeed.Splitter

open EStateM (Result)

/-- A call for the next frame: its result, and the splitter and the stream that it leaves. -/
structure Call where
  result : Except Fault (Option Span)
  splitter : Splitter
  reading : Reading

/-- A call for the next frame that is not cancelled. One that fails leaves the splitter alone. -/
def call (splitter : Splitter) (reading : Reading) : Call :=
  match splitter.next false reading with
  | .ok (span?, splitter) reading => { result := .ok span?, splitter, reading }
  | .error fault reading => { result := .error fault, splitter, reading }

def nthCall (splitter : Splitter) (reading : Reading) : Nat → Call
  | 0 => splitter.call reading
  | index + 1 =>
    let first := splitter.call reading
    first.splitter.nthCall first.reading index

/-- What reading a frame comes to along the data of a medium. -/
def outcome (method : Method) (medium : Medium) (offset : Nat) : Result Fault Nat (Option Span) :=
  match method with
  | .accessUnits coding _ => AccessUnit.outcome coding medium.data offset
  | .images => Image.outcome medium offset

variable {splitter : Splitter} {reading : Reading} {medium : Medium} {reach offset : Nat}

/-! ### One call -/

theorem read_agrees {method : Method} (hRoom : method = .images → medium.Roomy reach)
    (h : reading.cursor.StandsAt medium reach offset) :
    Cursor.Agrees Reading.cursor medium reach (read method false reading)
      (outcome method medium offset) := by
  cases method with
  | accessUnits coding cancellable =>
    simp only [read, Bool.and_false]
    exact AccessUnit.next_agrees coding h
  | images => exact Image.next_agrees (hRoom rfl) h

/-- The splitter after a call with a result: a frame is counted, nothing else changes. -/
def counted (splitter : Splitter) : Except Fault (Option Span) → Splitter
  | .ok (some _) => { splitter with frames := splitter.frames + 1 }
  | .ok none => splitter
  | .error _ => splitter

theorem method_counted (splitter : Splitter) (result : Except Fault (Option Span)) :
    (splitter.counted result).method = splitter.method := by
  rcases result with _ | _ | _ <;> rfl

/-- A call gives what reading a frame comes to along the data, and leaves the cursor there. -/
theorem call_standsAt (hRoom : splitter.method = .images → medium.Roomy reach)
    (h : reading.cursor.StandsAt medium reach offset) {plain : Result Fault Nat (Option Span)}
    (hPlain : outcome splitter.method medium offset = plain) :
    (splitter.call reading).result = resultOf plain ∧
      (splitter.call reading).splitter = splitter.counted (resultOf plain) ∧
      (splitter.call reading).reading.cursor.StandsAt medium reach (stateOf plain) := by
  have hAgrees := read_agrees hRoom h
  rw [hPlain] at hAgrees
  cases hRead : read splitter.method false reading with
  | ok span? after =>
    rw [hRead] at hAgrees
    obtain ⟨place, rfl, hAfter⟩ := hAgrees.of_ok
    simp only [call, next, bind_of_ok hRead]
    cases span? with
    | none => exact ⟨rfl, rfl, hAfter⟩
    | some span => exact ⟨rfl, rfl, hAfter⟩
  | error fault after =>
    rw [hRead] at hAgrees
    obtain ⟨place, rfl, hAfter⟩ := hAgrees.of_error
    simp only [call, next, bind_of_error hRead]
    exact ⟨rfl, rfl, hAfter⟩

/-- A frame is a piece of the data, not empty, and the cursor is left at its end. -/
theorem outcome_some {method : Method} {span : Span} {place : Nat}
    (h : outcome method medium offset = .ok (some span) place) :
    place = span.stop ∧ span.start < span.stop ∧ span.stop ≤ medium.data.size := by
  cases method with
  | accessUnits coding cancellable =>
    simp only [outcome, AccessUnit.outcome] at h
    split at h
    · rename_i hSpan
      cases h
      exact ⟨rfl, (AccessUnit.spanFrom?_sound hSpan).2.2.1, AccessUnit.spanFrom?_stop_le hSpan⟩
    · split at h <;> cases h
  | images =>
    simp only [outcome, Image.outcome] at h
    split at h
    · cases h
    · split at h
      · rename_i hWalk
        cases h
        exact Image.walk_bounds hWalk
      · cases h

/-- A frame that is read from the end of another begins there. -/
theorem outcome_next {method : Method} {span next : Span} {place place' : Nat}
    (h : outcome method medium offset = .ok (some span) place)
    (hNext : outcome method medium span.stop = .ok (some next) place') :
    next.start = span.stop := by
  cases method with
  | accessUnits coding cancellable =>
    simp only [outcome, AccessUnit.outcome] at h hNext
    split at h
    · rename_i hSpan
      cases h
      rcases (AccessUnit.spanFrom?_sound hSpan).2.2.2 with hStop | ⟨code, hCode, hStop⟩
      · rw [hStop, AccessUnit.spanFrom?_none (StartCode.findFrom?_past (Nat.le_refl _))] at hNext
        simp only [Nat.le_refl, if_true] at hNext
        cases hNext
      · rw [AccessUnit.spanFrom?_some hCode] at hNext
        cases hNext
        exact hStop
    · split at h <;> cases h
  | images =>
    simp only [outcome, Image.outcome] at hNext
    split at hNext
    · cases hNext
    · split at hNext <;> cases hNext
      rfl

theorem call_some (hRoom : splitter.method = .images → medium.Roomy reach)
    (h : reading.cursor.StandsAt medium reach offset) {span : Span}
    (hCall : (splitter.call reading).result = .ok (some span)) :
    outcome splitter.method medium offset = .ok (some span) span.stop ∧
      (splitter.call reading).splitter.method = splitter.method ∧
      (splitter.call reading).reading.cursor.StandsAt medium reach span.stop := by
  obtain ⟨hResult, hSplitter, hAfter⟩ := call_standsAt hRoom h rfl
  cases hPlain : outcome splitter.method medium offset with
  | error fault place => rw [hCall, hPlain] at hResult; cases hResult
  | ok span? place =>
    rw [hPlain] at hResult hSplitter hAfter
    cases hResult.symm.trans hCall
    obtain ⟨rfl, -⟩ := outcome_some hPlain
    exact ⟨rfl, by rw [hSplitter, method_counted], hAfter⟩

/-! ### Sequences of calls -/

/-- The calls of a splitter give spans one by one, each with the cursor at its end, and then no
more of them, with the cursor at `stop`. They count what they give. -/
structure Gives (splitter : Splitter) (reading : Reading) (spans : List Span) (stop : Nat) :
    Prop where
  given : ∀ index span, spans[index]? = some span →
    (splitter.nthCall reading index).result = .ok (some span) ∧
      (splitter.nthCall reading index).reading.cursor.position = span.stop
  ended : ∀ index, spans.length ≤ index →
    (splitter.nthCall reading index).result = .ok none ∧
      (splitter.nthCall reading index).reading.cursor.position = stop
  frames : ∀ index, (splitter.nthCall reading index).splitter.frames =
    splitter.frames + min (index + 1) spans.length

/-- A call that gives a span goes before the calls that give the others. -/
theorem Gives.cons {span : Span} {rest : List Span} {stop : Nat}
    (hResult : (splitter.call reading).result = .ok (some span))
    (hPosition : (splitter.call reading).reading.cursor.position = span.stop)
    (hFrames : (splitter.call reading).splitter.frames = splitter.frames + 1)
    (h : (splitter.call reading).splitter.Gives (splitter.call reading).reading rest stop) :
    splitter.Gives reading (span :: rest) stop where
  given index other hOther := by
    cases index with
    | zero =>
      cases hOther
      exact ⟨hResult, hPosition⟩
    | succ index => exact h.given index other hOther
  ended index hIndex := by
    cases index with
    | zero => cases hIndex
    | succ index => exact h.ended index (Nat.le_of_succ_le_succ hIndex)
  frames index := by
    cases index with
    | zero =>
      show (splitter.call reading).splitter.frames = _
      rw [hFrames, List.length_cons]
      omega
    | succ index =>
      show ((splitter.call reading).splitter.nthCall _ index).splitter.frames = _
      rw [h.frames index, hFrames, List.length_cons]
      omega

/-- A call gives a span just when that span stands at the call's index. -/
theorem Gives.result_iff {spans : List Span} {stop : Nat} (h : splitter.Gives reading spans stop)
    {index : Nat} {span : Span} :
    (splitter.nthCall reading index).result = .ok (some span) ↔ spans[index]? = some span := by
  constructor
  · intro hResult
    by_cases hIndex : index < spans.length
    · have hGiven := (h.given index spans[index] (List.getElem?_eq_getElem hIndex)).1
      rw [List.getElem?_eq_getElem hIndex]
      exact Except.ok.inj (hGiven.symm.trans hResult)
    · cases hResult.symm.trans (h.ended index (Nat.not_lt.mp hIndex)).1
  · intro hSpan
    exact (h.given index span hSpan).1

/-- The calls of a splitter give spans one by one, each with the cursor at its end, up to a call
that gives none. They count what they give. -/
structure Runs (splitter : Splitter) (reading : Reading) (spans : List Span)
    (last : Except Fault (Option Span)) : Prop where
  given : ∀ index span, spans[index]? = some span →
    (splitter.nthCall reading index).result = .ok (some span) ∧
      (splitter.nthCall reading index).reading.cursor.position = span.stop
  ended : (splitter.nthCall reading spans.length).result = last
  spanless : ∀ span, last ≠ .ok (some span)
  frames : ∀ index ≤ spans.length, (splitter.nthCall reading index).splitter.frames =
    splitter.frames + min (index + 1) spans.length

/-- A call without a span is a whole run. -/
theorem runs_nil (h : ∀ span, (splitter.call reading).result ≠ .ok (some span))
    (hFrames : (splitter.call reading).splitter.frames = splitter.frames) :
    splitter.Runs reading [] (splitter.call reading).result where
  given index span hSpan := by cases hSpan
  ended := rfl
  spanless := h
  frames index hIndex := by
    cases Nat.le_zero.mp hIndex
    exact hFrames

/-- A call that gives a span goes before the rest of a run. -/
theorem Runs.cons {span : Span} {rest : List Span} {last : Except Fault (Option Span)}
    (hResult : (splitter.call reading).result = .ok (some span))
    (hPosition : (splitter.call reading).reading.cursor.position = span.stop)
    (hFrames : (splitter.call reading).splitter.frames = splitter.frames + 1)
    (h : (splitter.call reading).splitter.Runs (splitter.call reading).reading rest last) :
    splitter.Runs reading (span :: rest) last where
  given index other hOther := by
    cases index with
    | zero =>
      cases hOther
      exact ⟨hResult, hPosition⟩
    | succ index => exact h.given index other hOther
  ended := h.ended
  spanless := h.spanless
  frames index hIndex := by
    cases index with
    | zero =>
      show (splitter.call reading).splitter.frames = _
      rw [hFrames, List.length_cons]
      omega
    | succ index =>
      show ((splitter.call reading).splitter.nthCall _ index).splitter.frames = _
      rw [h.frames index (Nat.le_of_succ_le_succ hIndex), hFrames, List.length_cons]
      omega

theorem outcome_past {method : Method} (h : medium.data.size ≤ offset) :
    outcome method medium offset = .ok none offset := by
  cases method with
  | accessUnits coding cancellable =>
    simp only [outcome, AccessUnit.outcome,
      AccessUnit.spanFrom?_none (StartCode.findFrom?_past h), if_pos h]
  | images => simp only [outcome, Image.outcome, if_pos h]

/-- Past the data no call gives a frame, and all stay where they are. -/
theorem gives_past (hRoom : splitter.method = .images → medium.Roomy reach)
    (h : reading.cursor.StandsAt medium reach offset) (hPast : medium.data.size ≤ offset) :
    splitter.Gives reading [] offset := by
  have hCalls : ∀ index, ∀ reading : Reading, reading.cursor.StandsAt medium reach offset →
      (splitter.nthCall reading index).result = .ok none ∧
        (splitter.nthCall reading index).reading.cursor.position = offset ∧
        (splitter.nthCall reading index).splitter = splitter := by
    intro index
    induction index with
    | zero =>
      intro reading h
      obtain ⟨hResult, hSplitter, hAfter⟩ := call_standsAt hRoom h (outcome_past hPast)
      exact ⟨hResult, hAfter.position_eq, hSplitter⟩
    | succ index ih =>
      intro reading h
      obtain ⟨-, hSplitter, hAfter⟩ := call_standsAt hRoom h (outcome_past hPast)
      simp only [nthCall, hSplitter]
      exact ih _ hAfter
  refine ⟨fun index span hSpan => ?_, fun index _ => ?_, fun index => ?_⟩
  · cases hSpan
  · exact ⟨(hCalls index reading h).1, (hCalls index reading h).2.1⟩
  · rw [(hCalls index reading h).2.2, List.length_nil, Nat.min_zero, Nat.add_zero]

/-- Frames that successive calls give tile a piece of the data. The induction is on the frames. -/
theorem tile_of_calls (hRoom : splitter.method = .images → medium.Roomy reach)
    (h : reading.cursor.StandsAt medium reach offset) {spans : List Span} {first last : Span}
    (hFirst : spans.head? = some first) (hLast : spans.getLast? = some last)
    (hCalls : ∀ index span, spans[index]? = some span →
      (splitter.nthCall reading index).result = .ok (some span)) :
    Span.Tile first.start spans last.stop := by
  induction spans generalizing splitter reading offset first with
  | nil => cases hFirst
  | cons span rest ih =>
    cases hFirst
    obtain ⟨hPlain, hMethod, hAfter⟩ := call_some hRoom h (hCalls 0 span rfl)
    refine .cons (outcome_some hPlain).2.1 ?_
    cases rest with
    | nil =>
      cases hLast
      exact .none _
    | cons next rest =>
      have hRoom' : (splitter.call reading).splitter.method = .images → medium.Roomy reach := by
        rwa [hMethod]
      obtain ⟨hNext, -⟩ := call_some hRoom' hAfter (hCalls 1 next rfl)
      rw [hMethod] at hNext
      rw [← outcome_next hPlain hNext]
      exact ih hRoom' hAfter rfl (by simpa using hLast) fun index other hOther =>
        hCalls (index + 1) other hOther

end FrameFeed.Splitter
