import FrameFeed.Proofs.Cursor.Gathering
import FrameFeed.Proofs.Cursor.Refinement

/-! The cursors that any calls lead to, over any medium and also after failures. They are exact, so
that what they deliver is the data from their position on. -/

namespace FrameFeed

open EStateM (Result)

theorem Source.medium_seek (target : Int) (source : Source) :
    (stateOf (Source.seek target source)).medium = source.medium := by
  cases target with
  | negSucc _ => rfl
  | ofNat target =>
    simp only [Source.seek]
    split <;> rfl

namespace Cursor

/-! ### What calls keep -/

section Lasting

variable {Holds : Cursor → Prop} {Value Value' : Type} {step : Action Value}

theorem keeps_map (h : Keeps Holds step) (answer : Value → Value') :
    Keeps Holds (do return answer (← step)) :=
  h.bind fun value => keeps_pure (answer value)

theorem Lasting.seek (h : Lasting Holds) (target : SeekTarget) : Keeps Holds (seek target) := by
  intro cursor hCursor
  have hMedium (absolute : Int) := Source.medium_seek absolute cursor.source
  simp only [Cursor.seek]
  split <;> rename_i hSeek
  · exact h.moved (by rw [← hMedium, hSeek]; rfl) hCursor
  · exact h.moved (by rw [← hMedium, hSeek]; rfl) hCursor

theorem Lasting.readUpTo (h : Lasting Holds) (wanted : Nat) : Keeps Holds (readUpTo wanted) := by
  intro cursor hCursor
  have hGather := h.gather wanted ByteArray.empty cursor hCursor
  simp only [Cursor.readUpTo]
  split <;> rename_i hEq <;> rw [hEq] at hGather <;> exact hGather

theorem Lasting.readExact (h : Lasting Holds) (wanted : Nat) : Keeps Holds (readExact wanted) := by
  refine (h.readUpTo wanted).bind fun bytes => ?_
  by_cases hShort : bytes.size < wanted
  · simp only [if_pos hShort]
    exact (keeps_throw _).bind fun _ => keeps_pure _
  · simp only [if_neg hShort]
    exact (keeps_pure _).bind fun _ => keeps_pure _

theorem Lasting.skip (h : Lasting Holds) (count : Nat) : Keeps Holds (skip count) := by
  intro cursor hCursor
  have hMedium (target : Int) := Source.medium_seek target cursor.source
  simp only [Cursor.skip]
  split
  · rename_i hCount
    by_cases hNone : count = 0
    · subst hNone
      exact hCursor
    · exact h.used (by simp only [buffered] at hCount; omega) hCursor
  · split <;> rename_i hSeek
    · exact h.moved (by rw [← hMedium, hSeek]; rfl) hCursor
    · exact h.moved (by rw [← hMedium, hSeek]; rfl) hCursor

theorem Lasting.peekAt (h : Lasting Holds) (offset wanted : Nat) :
    Keeps Holds (peekAt offset wanted) := by
  intro cursor hCursor
  have hMoved := h.seek (.fromStart offset) cursor hCursor
  simp only [Cursor.peekAt]
  split
  · exact hCursor
  · split <;> rename_i moved hSeek <;> rw [hSeek] at hMoved
    · exact hMoved
    · have hBack := h.seek (.fromStart cursor.position) _
        (h.gather wanted ByteArray.empty moved hMoved)
      split <;> rename_i hSeekBack <;> rw [hSeekBack] at hBack
      · exact hBack
      · split <;> exact hBack

theorem Lasting.atEnd (h : Lasting Holds) : Keeps Holds atEnd := by
  intro cursor hCursor
  have hFill := h.fill cursor hCursor
  simp only [Cursor.atEnd]
  split
  · exact hCursor
  · split
    · exact hCursor
    · split <;> rename_i hEq <;> rw [hEq] at hFill <;> exact hFill

theorem Lasting.call (h : Lasting Holds) (call : Call) : Keeps Holds call.action := by
  have hGet : Keeps Holds (get : Action Cursor) := fun _ hCursor => hCursor
  cases call with
  | fill => exact h.fill.bind fun _ => keeps_map hGet _
  | consume count => exact fun _ hCursor => h.used (Nat.min_le_right _ _) hCursor
  | readUpTo wanted => exact keeps_map (h.readUpTo wanted) _
  | readExact wanted => exact keeps_map (h.readExact wanted) _
  | readByte => exact keeps_map (keeps_map (h.readExact 1) _) _
  | readPair => exact keeps_map (keeps_map (h.readExact 2) _) _
  | skip count => exact (h.skip count).bind fun _ => keeps_pure _
  | peekAt target wanted => exact keeps_map (h.peekAt target wanted) _
  | seekStart target => exact keeps_map (h.seek _) _
  | seekEnd distance => exact keeps_map (h.seek _) _
  | position => exact keeps_map hGet _
  | atEnd => exact keeps_map h.atEnd _

end Lasting

/-! ### Cursors that calls lead to -/

/-- The cursors that calls lead to from the start of a medium. The calls may fail. -/
inductive Reached (medium : Medium) (capacity : Nat) : Cursor → Prop
  | started : Reached medium capacity (ofMedium medium capacity)
  | called {cursor : Cursor} (call : Call) :
      Reached medium capacity cursor → Reached medium capacity (call.event cursor).after
  | sought {cursor : Cursor} (target : SeekTarget) :
      Reached medium capacity cursor → Reached medium capacity (stateOf (seek target cursor))

section Reached

variable {medium : Medium} {capacity : Nat} {cursor : Cursor}

/-- What holds at the start and lasts holds of every cursor that calls lead to. -/
theorem Reached.holds (h : Reached medium capacity cursor) (Holds : Cursor → Prop)
    (hLasting : Lasting Holds) (hStart : Holds (ofMedium medium capacity)) : Holds cursor := by
  induction h with
  | started => exact hStart
  | called call _ ih => exact hLasting.call call _ ih
  | sought target _ ih => exact hLasting.seek target _ ih

theorem Reached.exact (h : Reached medium capacity cursor) : cursor.Exact :=
  h.holds Exact lasting_exact (exact_withoutWindow (ofMedium medium capacity) { medium })

theorem Reached.medium_eq (h : Reached medium capacity cursor) :
    cursor.source.medium = medium := by
  refine h.holds (fun cursor => cursor.source.medium = medium) ?_ rfl
  exact {
    used := fun _ hMedium => hMedium
    refilled := fun hRead hMedium => (Source.medium_read hRead).trans hMedium
    unfilled := fun hRead hMedium => (Source.position_read_error hRead).2.trans hMedium
    moved := fun hSame hMedium => hSame.trans hMedium }

theorem Reached.capacity_ne (h : Reached medium capacity cursor) : cursor.capacity ≠ 0 := by
  have hStart : (ofMedium medium capacity).capacity ≠ 0 := by
    show max capacity 16 ≠ 0
    omega
  refine h.holds (fun cursor => cursor.capacity ≠ 0) ?_ hStart
  exact {
    used := fun _ hCapacity => hCapacity
    refilled := fun _ hCapacity => hCapacity
    unfilled := fun _ hCapacity => hCapacity
    moved := fun _ hCapacity => hCapacity }

end Reached

/-! ### What is to come -/

variable {cursor : Cursor}

/-- The bytes that a cursor has still to deliver: those of its window and then those of the data
behind it. -/
def upcoming (cursor : Cursor) : ByteArray :=
  cursor.pending ++
    cursor.source.medium.data.extract cursor.source.position cursor.source.medium.data.size

/-- An exact cursor has the data from its position on to deliver. -/
theorem Exact.upcoming_eq (h : cursor.Exact) : cursor.upcoming =
    cursor.source.medium.data.extract cursor.position cursor.source.medium.data.size := by
  have hUsed := h.used_le
  have hWindow := h.window_le
  have hPending : cursor.pending =
      cursor.source.medium.data.extract cursor.position cursor.source.position := by
    have hExtract := h.extract_window (Nat.le_refl cursor.buffered)
    simp only [buffered, position] at hExtract ⊢
    rw [show cursor.used + (cursor.window.size - cursor.used) = cursor.window.size by omega,
      show cursor.source.position - (cursor.window.size - cursor.used) +
        (cursor.window.size - cursor.used) = cursor.source.position by omega] at hExtract
    exact hExtract
  rw [upcoming, hPending]
  by_cases hEmpty : cursor.buffered = 0
  · rw [position_of_empty hEmpty, ByteArray.extract_same, ByteArray.empty_append]
  · have hInside := h.position_le_size (show cursor.window.size ≠ 0 by
      simp only [buffered] at hEmpty
      omega)
    exact (ByteArray.extract_eq_extract_append_extract _ (Nat.sub_le _ _) hInside).symm

/-- What a read delivers comes first in what is to come, and the rest is to come after it. -/
theorem Exact.readUpTo_upcoming (h : cursor.Exact) {wanted : Nat} {bytes : ByteArray}
    {after : Cursor} (hRead : Cursor.readUpTo wanted cursor = .ok bytes after) :
    cursor.upcoming = bytes ++ after.upcoming := by
  obtain ⟨piece, hBytes, -, hAhead, hPosition⟩ := h.gather_eq wanted ByteArray.empty
  have hMedium := medium_gather wanted ByteArray.empty cursor
  have hExact := h.gather wanted ByteArray.empty
  simp only [Cursor.readUpTo] at hRead
  split at hRead
  · rename_i hGather
    cases hRead
    rw [hGather] at hBytes hPosition hMedium hExact
    rw [ByteArray.empty_append] at hBytes
    rw [h.upcoming_eq, hExact.upcoming_eq, hMedium, hPosition rfl, show bytes = piece from hBytes]
    by_cases hNone : piece.size = 0
    · rw [ByteArray.size_eq_zero_iff.mp hNone, ByteArray.empty_append]
      rfl
    · have hSize := congrArg ByteArray.size hAhead
      rw [ByteArray.size_extract] at hSize
      rw [ByteArray.extract_eq_extract_append_extract (cursor.position + piece.size)
        (Nat.le_add_right _ _) (by omega), ← hAhead]
  · cases hRead

end Cursor

end FrameFeed
