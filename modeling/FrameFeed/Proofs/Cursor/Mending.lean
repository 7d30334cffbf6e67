import FrameFeed.Proofs.Cursor.Standing
import FrameFeed.Proofs.Steps

/-! Media with their failures taken out. Where a step over a failing medium succeeds, the mended
medium brings it to the same value, so that nothing that succeeds can have seen a failure. -/

namespace FrameFeed

open EStateM (Result)

/-- A step that succeeds does the same from the mended state. -/
def CarriesOver {Failure State Value : Type} (mend : State → State)
    (step : EStateM Failure State Value) : Prop :=
  ∀ ⦃state value after⦄, step state = .ok value after → step (mend state) = .ok value (mend after)

section CarriesOver

variable {Failure State Value Value' : Type} {mend : State → State}
  {step : EStateM Failure State Value}

theorem carriesOver_pure (value : Value) :
    CarriesOver mend (pure value : EStateM Failure State Value) := by
  intro state value after h
  cases h
  rfl

theorem carriesOver_throw (failure : Failure) :
    CarriesOver mend (throw failure : EStateM Failure State Value) :=
  fun _ _ _ h => nomatch h

theorem CarriesOver.bind (h : CarriesOver mend step) {next : Value → EStateM Failure State Value'}
    (hNext : ∀ value, CarriesOver mend (next value)) : CarriesOver mend (step >>= next) := by
  intro state value after hStep
  obtain ⟨given, middle, hFirst, hSecond⟩ := ok_of_bind hStep
  rw [bind_of_ok (h hFirst)]
  exact hNext given hSecond

end CarriesOver

/-! ### Media -/

/-- The medium without its failures. What does not fail stays as it is. -/
def Medium.mended (medium : Medium) : Medium where
  data := medium.data
  reportedSize := medium.reportedSize
  serve := fun turn position wanted =>
    match medium.serve turn position wanted with
    | .ok served => .ok served
    | .error _ => .ok wanted
  negativeSeek := medium.negativeSeek

/-- A read that succeeds hands over a byte where there is one. -/
def Medium.Delivers (medium : Medium) : Prop :=
  ∀ turn position wanted served, wanted ≠ 0 →
    medium.serve turn position wanted = .ok served → served ≠ 0

theorem Medium.Delivers.steady {medium : Medium} {reach : Nat} (h : medium.Delivers)
    (hSize : medium.data.size ≤ reach) (hReach : reach < 0x8000_0000_0000_0000) :
    medium.mended.Steady reach where
  serves turn position wanted hWanted := by
    cases hServe : medium.serve turn position wanted with
    | ok served =>
      exact ⟨served, h turn position wanted served hWanted hServe, by simp only [mended, hServe]⟩
    | error fault => exact ⟨wanted, hWanted, by simp only [mended, hServe]⟩
  accepts _ _ _ := rfl
  size_le := hSize
  reach_lt := hReach

namespace Source

def mended (source : Source) : Source := { source with medium := source.medium.mended }

@[simp] theorem position_mended (source : Source) : source.mended.position = source.position := rfl

theorem carriesOver_read (wanted : Nat) : CarriesOver mended (read wanted) := by
  intro source bytes after h
  simp only [read] at h
  split at h
  · cases h
  · rename_i hServe
    cases h
    simp only [read, mended, Medium.mended, hServe]
    rfl

theorem carriesOver_seek (target : Int) : CarriesOver mended (seek target) := by
  intro source reached after h
  cases target with
  | negSucc _ => cases h
  | ofNat target =>
    simp only [seek] at h
    split at h <;> cases h
    rfl

end Source

namespace Cursor

/-! ### Cursors -/

def mended (cursor : Cursor) : Cursor := { cursor with source := cursor.source.mended }

section

variable (cursor : Cursor)

@[simp] theorem source_mended : cursor.mended.source = cursor.source.mended := rfl

@[simp] theorem capacity_mended : cursor.mended.capacity = cursor.capacity := rfl

@[simp] theorem window_mended : cursor.mended.window = cursor.window := rfl

@[simp] theorem used_mended : cursor.mended.used = cursor.used := rfl

@[simp] theorem buffered_mended : cursor.mended.buffered = cursor.buffered := rfl

@[simp] theorem position_mended : cursor.mended.position = cursor.position := rfl

@[simp] theorem size_mended : cursor.mended.size = cursor.size := rfl

end

theorem carriesOver_fill : CarriesOver mended fill := by
  intro cursor _ filled h
  simp only [fill] at h
  split at h
  · rename_i hUsed
    cases h
    exact if_pos hUsed
  · rename_i hUsed
    split at h
    · rename_i hRead
      cases h
      simp only [fill, used_mended, window_mended, if_neg hUsed, source_mended, capacity_mended,
        Source.carriesOver_read _ hRead]
      rfl
    · cases h

theorem carriesOver_seek (target : SeekTarget) : CarriesOver mended (seek target) := by
  intro cursor reached moved h
  simp only [seek] at h
  split at h
  · rename_i hSeek
    cases h
    have hMended := Source.carriesOver_seek _ hSeek
    simp only [seek]
    split
    · rename_i hOk
      cases hMended.symm.trans hOk
      rfl
    · rename_i hError
      cases hMended.symm.trans hError
  · cases h

/-- Gathering that does not fail gathers the same over the mended medium. -/
theorem gather_mended {wanted : Nat} {got : ByteArray} {cursor : Cursor}
    (h : (gather wanted got cursor).1.fault = none) :
    gather wanted got cursor.mended =
      ((gather wanted got cursor).1, (gather wanted got cursor).2.mended) := by
  -- One case for each way that a turn of the loop can go; those that fail are excluded.
  fun_induction gather wanted got cursor with
  | case1 got cursor => rw [gather, if_pos rfl]
  | case2 wanted got cursor hWanted hBuffered count ih =>
    rw [gather, if_neg hWanted, if_pos (show cursor.mended.buffered ≠ 0 from hBuffered)]
    exact ih h
  | case3 => cases h
  | case4 wanted got cursor hWanted hBuffered hLarge bytes source hRead hNone =>
    rw [gather, if_neg hWanted, if_neg (show ¬cursor.mended.buffered ≠ 0 from hBuffered),
      if_pos (show cursor.mended.capacity ≤ wanted from hLarge)]
    simp only [source_mended, Source.carriesOver_read _ hRead, if_pos hNone]
    rfl
  | case5 wanted got cursor hWanted hBuffered hLarge bytes source hRead hSome ih =>
    rw [gather, if_neg hWanted, if_neg (show ¬cursor.mended.buffered ≠ 0 from hBuffered),
      if_pos (show cursor.mended.capacity ≤ wanted from hLarge)]
    simp only [source_mended, Source.carriesOver_read _ hRead, if_neg hSome]
    exact ih h
  | case6 => cases h
  | case7 wanted got cursor hWanted hBuffered hLarge _ filled hFill hNone =>
    rw [gather, if_neg hWanted, if_neg (show ¬cursor.mended.buffered ≠ 0 from hBuffered),
      if_neg (show ¬cursor.mended.capacity ≤ wanted from hLarge), carriesOver_fill hFill]
    exact if_pos hNone
  | case8 wanted got cursor hWanted hBuffered hLarge _ filled hFill hSome ih =>
    rw [gather, if_neg hWanted, if_neg (show ¬cursor.mended.buffered ≠ 0 from hBuffered),
      if_neg (show ¬cursor.mended.capacity ≤ wanted from hLarge), carriesOver_fill hFill]
    exact (if_neg hSome).trans (ih h)

theorem carriesOver_readUpTo (wanted : Nat) : CarriesOver mended (readUpTo wanted) := by
  intro cursor bytes after h
  simp only [readUpTo] at h
  split at h
  · rename_i hGather
    cases h
    have hMended := gather_mended (congrArg (·.1.fault) hGather)
    simp only [readUpTo, hMended, hGather]
  · cases h

theorem carriesOver_readExact (wanted : Nat) : CarriesOver mended (readExact wanted) := by
  refine (carriesOver_readUpTo wanted).bind fun bytes => ?_
  split
  · exact (carriesOver_throw _).bind fun _ => carriesOver_pure _
  · exact (carriesOver_pure _).bind fun _ => carriesOver_pure _

theorem carriesOver_readPair : CarriesOver mended readPair :=
  (carriesOver_readExact 2).bind fun _ => carriesOver_pure _

theorem carriesOver_skip (count : Nat) : CarriesOver mended (skip count) := by
  intro cursor _ after h
  simp only [skip] at h
  split at h
  · rename_i hCount
    cases h
    exact if_pos hCount
  · rename_i hCount
    split at h
    · rename_i hSeek
      cases h
      have hMended := Source.carriesOver_seek _ hSeek
      simp only [skip, buffered_mended, if_neg hCount, source_mended, Source.position_mended,
        hMended]
      rfl
    · cases h

theorem carriesOver_peekAt (offset wanted : Nat) : CarriesOver mended (peekAt offset wanted) := by
  intro cursor bytes after h
  simp only [peekAt] at h
  split at h
  · rename_i hInside
    cases h
    exact if_pos hInside
  · rename_i hOutside
    split at h
    · cases h
    · rename_i moved hSeek
      split at h
      · cases h
      · rename_i back hBack
        split at h
        · cases h
        · rename_i hNone
          cases h
          refine (if_neg hOutside).trans ?_
          simp only [carriesOver_seek _ hSeek, gather_mended hNone, position_mended,
            carriesOver_seek _ hBack, hNone]

theorem carriesOver_atEnd : CarriesOver mended atEnd := by
  intro cursor ended after h
  simp only [atEnd] at h
  split at h
  · rename_i hUsed
    cases h
    exact if_pos hUsed
  · rename_i hUsed
    split at h
    · rename_i hSize
      cases h
      refine (if_neg hUsed).trans ?_
      simp only [size_mended, hSize]
      rfl
    · rename_i hSize
      split at h
      · rename_i hFill
        cases h
        refine (if_neg hUsed).trans ?_
        simp only [size_mended, hSize, carriesOver_fill hFill, buffered_mended]
      · cases h

end Cursor

end FrameFeed
