import FrameFeed.Proofs.Cursor.Reaching

/-! Moves by a distance. The cursor's place is not that of its source: the source is ahead of it by
the bytes of the window that are still to be used. A seek that counts from the place of the source
is a move of the cursor by its distance and by those bytes. -/

namespace FrameFeed.Cursor

open EStateM (Result)

variable {medium : Medium} {capacity reach : Nat} {cursor : Cursor}

/-- The source is ahead of the cursor by the unused bytes of the window. -/
theorem Exact.source_position (h : cursor.Exact) :
    cursor.source.position = cursor.position + cursor.buffered := by
  have hWindow := h.window_le
  simp only [position, buffered]
  omega

/-- A cursor that has gone to an offset within reach of a steady medium stands there. -/
theorem Reached.standsAt_withoutWindow (h : Reached medium capacity cursor)
    (hSteady : medium.Steady reach) {source : Source}
    (hMedium : source.medium = cursor.source.medium) (hReach : source.position ≤ reach) :
    ({ cursor.withoutWindow with source } : Cursor).StandsAt medium reach source.position where
  steady := hSteady
  medium_eq := hMedium.trans h.medium_eq
  exact := exact_withoutWindow cursor source
  position_eq := rfl
  reach_le := hReach
  capacity_ne := h.capacity_ne

/-- A seek by a distance, at every cursor that calls lead to over a steady medium. It succeeds and
lands the distance behind the bytes of the window, and what is read next is the data from there on.
The distance is counted from the cursor's own place just when no byte of the window is left. -/
theorem seek_fromReached (h : Reached medium capacity cursor) (hSteady : medium.Steady reach)
    (distance : Int) (hLow : 0 ≤ cursor.position + distance)
    (hHigh : cursor.position + cursor.buffered + distance ≤ reach) :
    ∃ target after, seek (.fromReached distance) cursor = .ok target after ∧
      (target : Int) = cursor.position + cursor.buffered + distance ∧ after.position = target ∧
      (∀ wanted, ∃ next, readUpTo wanted after =
        .ok (medium.data.extract target (target + wanted)) next) ∧
      ((target : Int) = cursor.position + distance ↔ cursor.buffered = 0) := by
  have hSource := h.exact.source_position
  obtain ⟨target, hTarget⟩ := Int.eq_ofNat_of_zero_le
    (show 0 ≤ (cursor.source.position : Int) + distance by omega)
  obtain ⟨source, hSeek, hPosition, hMedium⟩ :=
    Source.seek_steady (h.medium_eq ▸ hSteady) (show target ≤ reach by omega)
  have hStands := h.standsAt_withoutWindow hSteady hMedium (by omega)
  rw [hPosition] at hStands
  refine ⟨target, { cursor.withoutWindow with source }, ?_, by omega, hPosition, ?_, by omega⟩
  · simp only [seek, hTarget, hSeek]
  · intro wanted
    obtain ⟨next, hRead, -⟩ := hStands.readUpTo wanted
    exact ⟨next, hRead⟩

/-- Twenty bytes in memory. -/
def twentyBytes : Medium :=
  .ofBytes ⟨#[0, 1, 2, 3, 4, 5, 6, 7, 8, 9, 10, 11, 12, 13, 14, 15, 16, 17, 18, 19]⟩

/-- One byte has been read, through a window of sixteen. -/
def oneByteRead : Cursor := (Call.readByte.event (ofMedium twentyBytes 16)).after

theorem reached_oneByteRead : Reached twentyBytes 16 oneByteRead := .called .readByte .started

theorem seek_fromReached_oneByteRead :
    ∃ target after, seek (.fromReached (-1)) oneByteRead = .ok target after ∧
      (target : Int) = 15 ∧ after.position = target ∧
      ∀ wanted, ∃ next, readUpTo wanted after =
        .ok (twentyBytes.data.extract target (target + wanted)) next := by
  have hSteady : twentyBytes.Steady 0x7fff_ffff_ffff_ffff := Medium.steady_ofBytes (by decide)
  obtain ⟨target, after, hSeek, hTarget, hPosition, hRead, -⟩ :=
    seek_fromReached reached_oneByteRead hSteady (-1) (by decide +kernel) (by decide +kernel)
  have hPlace : (oneByteRead.position + oneByteRead.buffered : Int) = 16 := by decide +kernel
  exact ⟨target, after, hSeek, by omega, hPosition, hRead⟩

/-- A seek by nothing from behind the first byte passes over the rest of the window. -/
theorem seek_nowhere_oneByteRead :
    Reached twentyBytes 16 oneByteRead ∧ oneByteRead.position = 1 ∧
      (resultOf (seek (.fromReached 0) oneByteRead)).toOption = some 16 ∧
      (stateOf (seek (.fromReached 0) oneByteRead)).position = 16 ∧
      (resultOf (readByte (stateOf (seek (.fromReached 0) oneByteRead)))).toOption = some 16 :=
  ⟨reached_oneByteRead, by decide +kernel, by decide +kernel, by decide +kernel, by decide +kernel⟩

end FrameFeed.Cursor
