import FrameFeed.Proofs.Cursor.Alike
import FrameFeed.Proofs.Image.Images

/-! Images over a medium that does not report its size. Where the size is known a segment that goes
over the end is refused at once; where it is not, the segment is jumped over and no marker is found
behind the data. Either way the image has no end, and all else is the same. -/

namespace FrameFeed

/-- A medium that does not report its size, with room behind the data for the longest segment. -/
structure Medium.Sizeless (medium : Medium) (reach : Nat) : Prop where
  unreported : medium.reportedSize = none
  room : medium.data.size + 65536 ≤ reach

theorem Medium.Sizeless.roomy {medium : Medium} {reach : Nat} (h : medium.Sizeless reach) :
    medium.Roomy reach where
  reported size hSize := by cases h.unreported.symm.trans hSize
  peeked := Nat.le_trans (by omega) h.room
  jumped _ := h.room

/-- A call fails because the data is invalid. -/
def Splitter.Call.Refused (call : Splitter.Call) : Prop :=
  ∃ fault, call.result = .error fault ∧ fault.kind = .invalidData

namespace Image

variable {splitter : Splitter} {reading reading' : Reading} {medium sizeless : Medium}
  {reach offset : Nat}

/-- A call that gives an image or the end of the data, with the cursor at an offset. -/
structure LeavesAt (call : Splitter.Call) (medium : Medium) (reach : Nat) (span? : Option Span)
    (place : Nat) : Prop where
  result_eq : call.result = .ok span?
  standsAt : call.reading.cursor.StandsAt medium reach place

/-- What a call comes to is settled by the data, whether its size is reported or not. -/
theorem call_settled (hMethod : splitter.method = .images) {data : ByteArray} (offset : Nat) :
    (∃ span? place, ∀ (medium : Medium) (reading : Reading), medium.data = data →
        medium.Roomy reach → reading.cursor.StandsAt medium reach offset →
        LeavesAt (splitter.call reading) medium reach span? place) ∨
      ∀ (medium : Medium) (reading : Reading), medium.data = data → medium.Roomy reach →
        reading.cursor.StandsAt medium reach offset → (splitter.call reading).Refused := by
  rcases Nat.lt_or_ge offset data.size with hBefore | hPast
  · obtain ⟨stop?, hWalk⟩ := exists_walksTo data false offset
    cases stop? with
    | none =>
      refine .inr fun medium reading hData hRoom h => ?_
      subst hData
      obtain ⟨fault, hFault, hKind, -⟩ := call_unended hMethod hRoom h hBefore hWalk
      exact ⟨fault, hFault, hKind⟩
    | some stop =>
      refine .inl ⟨some ⟨offset, stop⟩, stop, fun medium reading hData hRoom h => ?_⟩
      subst hData
      obtain ⟨hResult, -, hAfter⟩ := call_ended hMethod hRoom h hBefore hWalk
      exact ⟨hResult, hAfter⟩
  · refine .inl ⟨none, offset, fun medium reading hData hRoom h => ?_⟩
    subst hData
    obtain ⟨hResult, -, hAfter⟩ :=
      Splitter.call_standsAt (fun _ => hRoom) h (Splitter.outcome_past hPast)
    exact ⟨hResult, hAfter⟩

/-- The reading of an image does not depend on the size being known. From one offset of the same
data, wherever it is, a call over a medium that reports the size and a call over one that does not
give the same image or both find the end, and leave their cursors at one offset. One of them fails
for invalid data just when the other does, and neither fails for another reason. -/
theorem size_unneeded (hMethod : splitter.method = .images) (hSize : medium.Reports reach)
    (hNone : sizeless.Sizeless reach) (hData : sizeless.data = medium.data)
    (h : Cursor.Alike medium sizeless reach reading.cursor reading'.cursor) :
    (∀ span?, (splitter.call reading).result = .ok span? ↔
      (splitter.call reading').result = .ok span?) ∧
    ((∃ span?, (splitter.call reading).result = .ok span?) →
      Cursor.Alike medium sizeless reach (splitter.call reading).reading.cursor
        (splitter.call reading').reading.cursor) ∧
    ((splitter.call reading).Refused ↔ (splitter.call reading').Refused) ∧
    ∀ fault, (splitter.call reading).result = .error fault ∨
      (splitter.call reading').result = .error fault → fault.kind = .invalidData := by
  obtain ⟨offset, hStands, hStands'⟩ := h
  rcases call_settled hMethod offset with ⟨span?, place, hLeaves⟩ | hRefused
  · obtain ⟨hResult, hAfter⟩ := hLeaves medium reading rfl hSize.roomy hStands
    obtain ⟨hResult', hAfter'⟩ := hLeaves sizeless reading' hData hNone.roomy hStands'
    refine ⟨fun other => by rw [hResult, hResult'], fun _ => ⟨place, hAfter, hAfter'⟩, ?_, ?_⟩
    · simp [Splitter.Call.Refused, hResult, hResult']
    · simp [hResult, hResult']
  · have hLeft := hRefused medium reading rfl hSize.roomy hStands
    have hRight := hRefused sizeless reading' hData hNone.roomy hStands'
    refine ⟨?_, ?_, iff_of_true hLeft hRight, ?_⟩ <;>
      obtain ⟨fault, hFault, hKind⟩ := hLeft <;> obtain ⟨fault', hFault', hKind'⟩ := hRight
    · exact fun span? => by simp [hFault, hFault']
    · rintro ⟨span?, hSpan⟩
      cases hFault.symm.trans hSpan
    · rintro other (hOther | hOther)
      · cases hFault.symm.trans hOther
        exact hKind
      · cases hFault'.symm.trans hOther
        exact hKind'

/-- An image whose only segment goes over the end of the data by four bytes. -/
def segmentPastEnd : ByteArray := ⟨#[0xff, 0xd8, 0xff, 0xe1, 0, 8, 1, 2]⟩

def sizedStart : Reading where
  cursor := .ofMedium (.ofBytes segmentPastEnd) 16

/-- Three bytes come at a time, and nothing tells how many there are. -/
def sizelessStart : Reading where
  cursor := .ofMedium (.ofFlaky segmentPastEnd none (some 3) none) 16

theorem size_unneeded_segmentPastEnd :
    ((Splitter.ofFormat .mjpeg).call sizedStart).Refused ∧
      ((Splitter.ofFormat .mjpeg).call sizelessStart).Refused := by
  have hStands : sizedStart.cursor.StandsAt (.ofBytes segmentPastEnd) 0x7fff_ffff_ffff_ffff 0 :=
    Cursor.standsAt_ofMedium (Medium.steady_ofBytes (by decide)) 16
  have hStands' : sizelessStart.cursor.StandsAt (.ofFlaky segmentPastEnd none (some 3) none)
      0x7fff_ffff_ffff_ffff 0 :=
    Cursor.standsAt_ofMedium (Medium.steady_ofFlaky (by decide) (by decide)) 16
  have hMethod : (Splitter.ofFormat .mjpeg).method = .images := rfl
  have hSize : (Medium.ofBytes segmentPastEnd).Reports 0x7fff_ffff_ffff_ffff := ⟨rfl, by decide⟩
  obtain ⟨fault, hFault, hKind, -⟩ :=
    call_unended hMethod hSize.roomy hStands (by decide) (by decide +kernel)
  have hRefused : ((Splitter.ofFormat .mjpeg).call sizedStart).Refused := ⟨fault, hFault, hKind⟩
  have hNone : (Medium.ofFlaky segmentPastEnd none (some 3) none).Sizeless 0x7fff_ffff_ffff_ffff :=
    ⟨rfl, by decide⟩
  obtain ⟨-, -, hIff, -⟩ := size_unneeded hMethod hSize hNone rfl ⟨0, hStands, hStands'⟩
  exact ⟨hRefused, hIff.mp hRefused⟩

end Image

end FrameFeed
