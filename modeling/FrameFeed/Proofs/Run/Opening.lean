import FrameFeed.Proofs.Cursor.Mending
import FrameFeed.Run

/-! What a run does before the first frame. Telling the format and looking for a parameter set
leave the stream where it stands. -/

namespace FrameFeed.Run

open EStateM (Result)

variable {medium : Medium} {reach offset : Nat}

/-- The stream stands at an offset, its failures aside. -/
def StandsAt (medium : Medium) (reach offset : Nat) (reading : Reading) : Prop :=
  reading.cursor.mended.StandsAt medium reach offset

theorem keepsOnSuccess_peekAt {target : Nat} (hTarget : target ≤ reach) (wanted : Nat) :
    KeepsOnSuccess (StandsAt medium reach offset)
      (Reading.onCursor (Cursor.peekAt target wanted)) := by
  intro state bytes after h hState
  simp only [Reading.onCursor] at h
  split at h
  · rename_i hPeek
    cases h
    obtain ⟨peeked, hMended, hPeeked⟩ := hState.peekAt hTarget wanted
    cases (Cursor.carriesOver_peekAt _ _ hPeek).symm.trans hMended
    exact hPeeked
  · cases h

/-- Remarks, whether on the stream or on the run, leave the stream where it stands. -/
theorem keepsOnSuccess_remark {Fail : Type} (note : Note) :
    KeepsOnSuccess (StandsAt medium reach offset)
      (modify fun reading => { reading with notes := reading.notes.push note } :
        EStateM Fail Reading Unit) := by
  intro state _ after h hState
  cases h
  exact hState

theorem keepsOnSuccess_reading {Value : Type} {step : Reading.Action Value}
    (h : KeepsOnSuccess (StandsAt medium reach offset) step) (failure : Fault → Failure) :
    KeepsOnSuccess (StandsAt medium reach offset) (reading failure step) := by
  intro state value after hStep hState
  simp only [reading] at hStep
  split at hStep
  · rename_i hOk
    cases hStep
    exact h hOk hState
  · cases hStep

theorem keepsOnSuccess_chooseFormat (options : Options) :
    KeepsOnSuccess (StandsAt medium reach offset) (chooseFormat options) := by
  unfold chooseFormat
  split
  · split
    · exact keepsOnSuccess_pure _
    · exact keepsOnSuccess_throw _
  · refine (keepsOnSuccess_reading ?_ _).bind fun _ => keepsOnSuccess_pure _
    refine keepsOnSuccess_get.bind fun state => ?_
    refine (keepsOnSuccess_peekAt (Nat.zero_le _) _).bind fun bytes => ?_
    split
    · exact (keepsOnSuccess_remark _).bind fun _ => keepsOnSuccess_pure _
    · exact keepsOnSuccess_throw _

theorem keepsOnSuccess_findSps : KeepsOnSuccess (StandsAt medium reach offset) findSps := by
  refine (keepsOnSuccess_reading (keepsOnSuccess_peekAt (Nat.zero_le _) _) _).bind fun bytes => ?_
  split
  · exact (keepsOnSuccess_remark _).bind fun _ => keepsOnSuccess_pure _
  · exact keepsOnSuccess_pure _
  · split
    · exact (keepsOnSuccess_remark _).bind fun _ => keepsOnSuccess_pure _
    · exact (keepsOnSuccess_pure _).bind fun _ => keepsOnSuccess_pure _

end FrameFeed.Run
