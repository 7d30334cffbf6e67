import FrameFeed.Proofs.Cursor.Standing
import FrameFeed.Proofs.Steps

/-! Cursors that differ in their windows only. They stand at one offset of the same data; how the
data is handed over, how much of it a refill asks for and what has been read ahead may differ. A
step that is blind to such differences comes to the same result from both and leaves them at one
offset again. -/

namespace FrameFeed

open EStateM (Result)

/-- Media that hold the same bytes and report the same size. -/
structure Medium.Alike (left right : Medium) : Prop where
  data_eq : right.data = left.data
  reportedSize_eq : right.reportedSize = left.reportedSize

/-- A step comes to the same result from states that are alike, and leaves them alike. -/
def Blind {State Value : Type} (alike : State → State → Prop) (step : EStateM Fault State Value) :
    Prop :=
  ∀ left right, alike left right →
    resultOf (step left) = resultOf (step right) ∧ alike (stateOf (step left)) (stateOf (step right))

section Blind

variable {State Value Value' : Type} {alike : State → State → Prop}
  {step : EStateM Fault State Value}

theorem blind_pure (value : Value) :
    Blind alike (pure value : EStateM Fault State Value) :=
  fun _ _ h => ⟨rfl, h⟩

theorem blind_throw (fault : Fault) :
    Blind alike (throw fault : EStateM Fault State Value) :=
  fun _ _ h => ⟨rfl, h⟩

/-- What would come after a failure does not matter. -/
theorem blind_throw_bind (fault : Fault) (next : Value → EStateM Fault State Value') :
    Blind alike ((throw fault : EStateM Fault State Value) >>= next) :=
  fun _ _ h => ⟨rfl, h⟩

theorem Blind.bind (h : Blind alike step) {next : Value → EStateM Fault State Value'}
    (hNext : ∀ value, Blind alike (next value)) : Blind alike (step >>= next) := by
  intro left right hAlike
  obtain ⟨hResult, hAfter⟩ := h left right hAlike
  cases hLeft : step left with
  | ok value after =>
    rw [hLeft] at hResult hAfter
    cases hRight : step right with
    | ok value' after' =>
      rw [hRight] at hResult hAfter
      cases hResult
      rw [bind_of_ok hLeft, bind_of_ok hRight]
      exact hNext value after after' hAfter
    | error fault after' => rw [hRight] at hResult; cases hResult
  | error fault after =>
    rw [hLeft] at hResult hAfter
    cases hRight : step right with
    | ok value' after' => rw [hRight] at hResult; cases hResult
    | error fault' after' =>
      rw [hRight] at hResult hAfter
      cases hResult
      rw [bind_of_error hLeft, bind_of_error hRight]
      exact ⟨rfl, hAfter⟩

theorem Blind.map (h : Blind alike step) (answer : Value → Value') :
    Blind alike (do return answer (← step)) :=
  h.bind fun value => blind_pure (answer value)

end Blind

namespace Cursor

variable {medium medium' : Medium} {reach : Nat}

/-- Cursors over two media that stand at one offset. -/
def Alike (medium medium' : Medium) (reach : Nat) (left right : Cursor) : Prop :=
  ∃ offset, left.StandsAt medium reach offset ∧ right.StandsAt medium' reach offset

theorem Alike.position_eq {left right : Cursor} (h : Alike medium medium' reach left right) :
    left.position = right.position := by
  obtain ⟨offset, hLeft, hRight⟩ := h
  rw [hLeft.position_eq, hRight.position_eq]

/-- Steps that come to what one step along the data comes to. -/
theorem Agrees.alike {State Value : Type} {view : State → Cursor}
    {left right : Result Fault State Value} {plain : Result Fault Nat Value}
    (hLeft : Agrees view medium reach left plain) (hRight : Agrees view medium' reach right plain) :
    resultOf left = resultOf right ∧
      Alike medium medium' reach (view (stateOf left)) (view (stateOf right)) := by
  cases hLeft with
  | ok hAfter =>
    cases hRight with
    | ok hAfter' => exact ⟨rfl, _, hAfter, hAfter'⟩
  | error hAfter =>
    cases hRight with
    | error hAfter' => exact ⟨rfl, _, hAfter, hAfter'⟩

/-- Looking at a place within reach shows the same bytes through any windows. -/
theorem blind_peekAt (hMedia : medium.Alike medium') {target : Nat} (hTarget : target ≤ reach)
    (wanted : Nat) : Blind (Alike medium medium' reach) (peekAt target wanted) := by
  rintro left right ⟨offset, hLeft, hRight⟩
  obtain ⟨after, hPeek, hAfter⟩ := hLeft.peekAt hTarget wanted
  obtain ⟨after', hPeek', hAfter'⟩ := hRight.peekAt hTarget wanted
  rw [hPeek, hPeek', hMedia.data_eq]
  exact ⟨rfl, offset, hAfter, hAfter'⟩

end Cursor

end FrameFeed
