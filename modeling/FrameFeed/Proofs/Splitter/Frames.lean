import FrameFeed.Proofs.Cursor.Alike
import FrameFeed.Proofs.Splitter.Calls

/-! All frames of a stream: what the calls of a splitter give from an offset on until one of them
finds the end. The data alone decides it. -/

namespace FrameFeed.Splitter

open EStateM (Result)

variable {method : Method} {medium : Medium} {reach offset : Nat} {spans : List Span}

/-- The frames along the data from an offset on, where the last call comes to the end. -/
inductive Frames (method : Method) (medium : Medium) : Nat → List Span → Prop
  | ended {offset place : Nat} :
      outcome method medium offset = .ok none place → Frames method medium offset []
  | cons {offset : Nat} {span : Span} {rest : List Span} :
      outcome method medium offset = .ok (some span) span.stop →
      Frames method medium span.stop rest → Frames method medium offset (span :: rest)

theorem outcome_alike {medium' : Medium} (hMedia : medium.Alike medium') :
    outcome method medium' offset = outcome method medium offset := by
  cases method with
  | accessUnits coding cancellable => simp only [outcome, hMedia.data_eq]
  | images => simp only [outcome, Image.outcome, hMedia.data_eq, hMedia.reportedSize_eq]

theorem Frames.alike {medium' : Medium} (hMedia : medium.Alike medium')
    (h : Frames method medium offset spans) : Frames method medium' offset spans := by
  induction h with
  | ended hEnd => exact .ended ((outcome_alike hMedia).trans hEnd)
  | cons hSpan _ ih => exact .cons ((outcome_alike hMedia).trans hSpan) ih

/-- No frame means that the data has ended. -/
theorem outcome_none {place : Nat} (h : outcome method medium offset = .ok none place) :
    medium.data.size ≤ offset := by
  cases method with
  | accessUnits coding cancellable =>
    simp only [outcome, AccessUnit.outcome] at h
    split at h
    · cases h
    · split at h
      · assumption
      · cases h
  | images =>
    simp only [outcome, Image.outcome] at h
    split at h
    · assumption
    · split at h <;> cases h

/-- A frame does not begin before the place that it is looked for from. -/
theorem outcome_start {span : Span} {place : Nat}
    (h : outcome method medium offset = .ok (some span) place) : offset ≤ span.start := by
  cases method with
  | accessUnits coding cancellable =>
    simp only [outcome, AccessUnit.outcome] at h
    split at h
    · rename_i hSpan
      cases h
      exact (AccessUnit.spanFrom?_sound hSpan).1
    · split at h <;> cases h
  | images =>
    simp only [outcome, Image.outcome] at h
    split at h
    · cases h
    · split at h <;> cases h
      exact Nat.le_refl _

theorem Frames.eq {others : List Span} (h : Frames method medium offset spans)
    (hOthers : Frames method medium offset others) : spans = others := by
  induction h generalizing others with
  | ended hEnd =>
    cases hOthers with
    | ended => rfl
    | cons hSpan => cases hEnd.symm.trans hSpan
  | cons hSpan _ ih =>
    cases hOthers with
    | ended hEnd => cases hEnd.symm.trans hSpan
    | cons hOther hRest =>
      cases hSpan.symm.trans hOther
      rw [ih hRest]

/-- The frames tile the data from the first one's start to the end of the data. -/
theorem Frames.tile (h : Frames method medium offset spans) (hOffset : offset ≤ medium.data.size) :
    ∃ start, Span.Tile start spans medium.data.size := by
  induction h with
  | ended => exact ⟨_, .none _⟩
  | @cons offset span rest hSpan hRest ih =>
    obtain ⟨-, hNonempty, hStop⟩ := outcome_some hSpan
    obtain ⟨start, hTile⟩ := ih hStop
    refine ⟨span.start, .cons hNonempty ?_⟩
    cases hRest with
    | ended hEnd =>
      rw [Nat.le_antisymm hStop (outcome_none hEnd)]
      exact .none _
    | cons hNext _ =>
      -- The next frame begins where this one ends.
      have hStart := outcome_next hSpan hNext
      cases hTile with
      | cons hNext hTile => exact hStart ▸ .cons hNext hTile

/-- A splitter over a steady medium gives the frames along its data. -/
theorem Frames.runs (h : Frames method medium offset spans) {splitter : Splitter}
    {reading : Reading} (hMethod : splitter.method = method)
    (hRoom : method = .images → medium.Roomy reach)
    (hStands : reading.cursor.StandsAt medium reach offset) :
    splitter.Runs reading spans (.ok none) := by
  induction h generalizing splitter reading with
  | ended hEnd =>
    subst hMethod
    obtain ⟨hResult, hSplitter, -⟩ := call_standsAt hRoom hStands hEnd
    have hNone : splitter.Runs reading [] (splitter.call reading).result :=
      runs_nil (fun span hSpan => by rw [hResult] at hSpan; cases hSpan) (by rw [hSplitter]; rfl)
    rwa [hResult] at hNone
  | cons hSpan _ ih =>
    subst hMethod
    obtain ⟨hResult, hSplitter, hAfter⟩ := call_standsAt hRoom hStands hSpan
    refine Runs.cons hResult hAfter.position_eq (by rw [hSplitter]; rfl) (ih ?_ hAfter)
    rw [hSplitter, method_counted]

end FrameFeed.Splitter
