import FrameFeed.Proofs.Cursor.Standing
import FrameFeed.Proofs.Steps

/-! Cursors over media of any behaviour, whose reads may fail or hand over little. An exact cursor
stays exact whatever happens, and the bytes that it gathers are those of the data from its position
on, also where a read fails in between. -/

namespace FrameFeed.Cursor

open EStateM (Result)

variable {cursor after : Cursor}

/-! ### Reading ahead -/

theorem fill_ok (h : fill cursor = .ok () after) :
    (cursor.used < cursor.window.size ∧ after = cursor) ∨
      (cursor.window.size ≤ cursor.used ∧ ∃ bytes source,
        Source.read cursor.capacity cursor.source = .ok bytes source ∧
          after = { cursor with source, window := bytes, used := 0 }) := by
  simp only [fill] at h
  split at h
  · rename_i hUsed
    cases h
    exact .inl ⟨hUsed, rfl⟩
  · rename_i hUsed
    split at h
    · rename_i bytes source hRead
      cases h
      exact .inr ⟨Nat.not_lt.mp hUsed, bytes, source, hRead, rfl⟩
    · cases h

/-- Where reading ahead fails, the old window stays and counts as unused. -/
theorem fill_error {fault : Fault} (h : fill cursor = .error fault after) :
    cursor.window.size ≤ cursor.used ∧ ∃ cause source,
      Source.read cursor.capacity cursor.source = .error cause source ∧ fault = .io cause ∧
        after = { cursor with source, used := 0 } := by
  simp only [fill] at h
  split at h
  · cases h
  · rename_i hUsed
    split at h
    · cases h
    · rename_i cause source hRead
      cases h
      exact ⟨Nat.not_lt.mp hUsed, cause, source, hRead, rfl, rfl⟩

theorem position_fill (h : fill cursor = .ok () after) : after.position = cursor.position := by
  rcases fill_ok h with ⟨-, rfl⟩ | ⟨hUsed, bytes, source, hRead, rfl⟩
  · rfl
  · have hPosition := (Source.position_read hRead).1
    simp only [position, buffered]
    omega

/-! ### What lasts -/

/-- A property of cursors that outlasts what calls do to them: they use bytes of the window, read
ahead or in vain, and go elsewhere without a window. -/
structure Lasting (Holds : Cursor → Prop) : Prop where
  used {cursor : Cursor} {used : Nat} :
    used ≤ cursor.window.size → Holds cursor → Holds { cursor with used }
  refilled {cursor : Cursor} {bytes : ByteArray} {source : Source} :
    Source.read cursor.capacity cursor.source = .ok bytes source → Holds cursor →
      Holds { cursor with source, window := bytes, used := 0 }
  unfilled {cursor : Cursor} {cause : IoFault} {source : Source} :
    Source.read cursor.capacity cursor.source = .error cause source → Holds cursor →
      Holds { cursor with source, used := 0 }
  moved {cursor : Cursor} {source : Source} :
    source.medium = cursor.source.medium → Holds cursor →
      Holds { cursor.withoutWindow with source }

section Lasting

variable {Holds : Cursor → Prop}

theorem Lasting.fill (h : Lasting Holds) : Keeps Holds fill := by
  intro cursor hCursor
  cases hFill : Cursor.fill cursor with
  | ok _ filled =>
    rcases fill_ok hFill with ⟨-, rfl⟩ | ⟨-, bytes, source, hRead, rfl⟩
    · exact hCursor
    · exact h.refilled hRead hCursor
  | error fault failed =>
    obtain ⟨-, cause, source, hRead, -, rfl⟩ := fill_error hFill
    exact h.unfilled hRead hCursor

/-- Gathering keeps a lasting property, also where it fails. -/
theorem Lasting.gather (h : Lasting Holds) (wanted : Nat) (got : ByteArray) (cursor : Cursor)
    (hCursor : Holds cursor) : Holds (gather wanted got cursor).2 := by
  fun_induction Cursor.gather wanted got cursor with
  | case1 => exact hCursor
  | case2 _ _ _ _ _ _ ih => exact ih (h.used (Nat.min_le_right _ _) hCursor)
  | case3 _ _ _ _ _ _ _ _ hRead => exact h.moved (Source.position_read_error hRead).2 hCursor
  | case4 _ _ _ _ _ _ _ _ hRead _ => exact h.moved (Source.medium_read hRead) hCursor
  | case5 _ _ _ _ _ _ _ _ hRead _ ih => exact ih (h.moved (Source.medium_read hRead) hCursor)
  | case6 _ _ cursor _ _ _ _ _ hFill =>
    have hFailed := h.fill cursor hCursor
    rwa [hFill] at hFailed
  | case7 _ _ cursor _ _ _ _ _ hFill _ =>
    have hFilled := h.fill cursor hCursor
    rwa [hFill] at hFilled
  | case8 _ _ cursor _ _ _ _ _ hFill _ ih =>
    have hFilled := h.fill cursor hCursor
    rw [hFill] at hFilled
    exact ih hFilled

end Lasting

theorem lasting_exact : Lasting Exact where
  used hUsed h := ⟨hUsed, h.window_le, h.window_eq⟩
  refilled hRead _ := exact_read hRead
  unfilled {cursor cause source} hRead h := by
    obtain ⟨hPosition, hMedium⟩ := Source.position_read_error hRead
    refine ⟨Nat.zero_le _, ?_, ?_⟩
    · show cursor.window.size ≤ source.position
      rw [hPosition]
      exact h.window_le
    · show cursor.window = source.medium.data.extract (source.position - cursor.window.size)
        source.position
      rw [hPosition, hMedium]
      exact h.window_eq
  moved _ _ := exact_withoutWindow _ _

theorem Exact.position_advance (h : cursor.Exact) {count : Nat} (hCount : count ≤ cursor.buffered) :
    (cursor.advance count).position = cursor.position + count := by
  have hUsed := h.used_le
  have hWindow := h.window_le
  simp only [Cursor.advance, position, buffered] at *
  omega

theorem position_of_empty (h : cursor.buffered = 0) : cursor.position = cursor.source.position := by
  simp only [position, h]
  omega

/-! ### Gathering -/

theorem Exact.gather (h : cursor.Exact) (wanted : Nat) (got : ByteArray) :
    (gather wanted got cursor).2.Exact :=
  lasting_exact.gather wanted got cursor h

theorem gather_fault {wanted : Nat} {got : ByteArray} {fault : Fault}
    (h : (gather wanted got cursor).1.fault = some fault) : ∃ cause, fault = .io cause := by
  fun_induction Cursor.gather wanted got cursor with
  | case1 => cases h
  | case2 _ _ _ _ _ _ ih => exact ih h
  | case3 =>
    cases h
    exact ⟨_, rfl⟩
  | case4 => cases h
  | case5 _ _ _ _ _ _ _ _ _ _ ih => exact ih h
  | case6 _ _ _ _ _ _ _ _ hFill =>
    cases h
    obtain ⟨-, cause, -, -, rfl, -⟩ := fill_error hFill
    exact ⟨cause, rfl⟩
  | case7 => cases h
  | case8 _ _ _ _ _ _ _ _ _ _ ih => exact ih h

/-- A piece is the next one of the data. -/
def Ahead (cursor : Cursor) (piece : ByteArray) : Prop :=
  piece = cursor.source.medium.data.extract cursor.position (cursor.position + piece.size)

theorem ahead_empty (cursor : Cursor) : cursor.Ahead ByteArray.empty :=
  ByteArray.extract_same.symm

theorem Ahead.append {next : Cursor} {first second : ByteArray} (h : cursor.Ahead first)
    (hNext : next.Ahead second) (hMedium : next.source.medium = cursor.source.medium)
    (hPosition : next.position = cursor.position + first.size) :
    cursor.Ahead (first ++ second) := by
  unfold Ahead at h hNext ⊢
  rw [hMedium, hPosition] at hNext
  rw [ByteArray.size_append, ← Nat.add_assoc,
    ByteArray.extract_eq_extract_append_extract (cursor.position + first.size)
      (Nat.le_add_right _ _) (Nat.le_add_right _ _), ← h, ← hNext]

theorem Exact.ahead_window (h : cursor.Exact) {count : Nat} (hCount : count ≤ cursor.buffered) :
    cursor.Ahead (cursor.window.extract cursor.used (cursor.used + count)) := by
  have hSize : (cursor.window.extract cursor.used (cursor.used + count)).size = count := by
    simp only [buffered] at hCount
    rw [ByteArray.size_extract]
    omega
  rw [Ahead, hSize]
  exact h.extract_window hCount

/-- A read for a cursor without a window moves it past the bytes that are handed over. -/
theorem position_read (hEmpty : cursor.buffered = 0) {wanted : Nat} {bytes : ByteArray}
    {source : Source} (hRead : Source.read wanted cursor.source = .ok bytes source) :
    ({ cursor.withoutWindow with source } : Cursor).position = cursor.position + bytes.size := by
  rw [position_of_empty hEmpty]
  exact (Source.position_read hRead).1

theorem ahead_read (hEmpty : cursor.buffered = 0) {wanted : Nat} {bytes : ByteArray}
    {source : Source} (hRead : Source.read wanted cursor.source = .ok bytes source) :
    cursor.Ahead bytes := by
  rw [Ahead, position_of_empty hEmpty, ← (Source.position_read hRead).1]
  exact Source.bytes_read hRead

/-- What is gathered is the next piece of the data, at most as long as was wanted. Without a failure
the cursor is behind that piece. -/
theorem Exact.gather_eq (h : cursor.Exact) (wanted : Nat) (got : ByteArray) :
    ∃ piece, (Cursor.gather wanted got cursor).1.bytes = got ++ piece ∧ piece.size ≤ wanted ∧
      cursor.Ahead piece ∧ ((Cursor.gather wanted got cursor).1.fault = none →
        (Cursor.gather wanted got cursor).2.position = cursor.position + piece.size) := by
  fun_induction Cursor.gather wanted got cursor with
  | case1 got cursor =>
    exact ⟨ByteArray.empty, ByteArray.append_empty.symm, Nat.le_refl _, ahead_empty cursor,
      fun _ => rfl⟩
  | case2 wanted got cursor hWanted hBuffered count ih =>
    have hCount : count ≤ cursor.buffered := Nat.min_le_left _ _
    have hNext := h.position_advance hCount
    have hAhead := h.ahead_window hCount
    have hSize : (cursor.window.extract cursor.used (cursor.used + count)).size = count := by
      simp only [buffered] at hCount
      rw [ByteArray.size_extract]
      omega
    obtain ⟨piece, hBytes, hPiece, hLater, hAfter⟩ := ih (h.advance count)
    rw [ByteArray.append_assoc] at hBytes
    refine ⟨_, hBytes, ?_, hAhead.append hLater rfl (by rw [hNext, hSize]), fun hNone => ?_⟩
    · rw [ByteArray.size_append, hSize]
      omega
    · rw [hAfter hNone, hNext, ByteArray.size_append, hSize, Nat.add_assoc]
  | case3 wanted got cursor =>
    refine ⟨ByteArray.empty, ByteArray.append_empty.symm, Nat.zero_le _, ahead_empty cursor, ?_⟩
    intro hNone
    cases hNone
  | case4 wanted got cursor hWanted hBuffered _ bytes source hRead hNone =>
    refine ⟨ByteArray.empty, ByteArray.append_empty.symm, Nat.zero_le _, ahead_empty cursor, ?_⟩
    intro _
    rw [position_read (by omega) hRead, hNone]
    rfl
  | case5 wanted got cursor hWanted hBuffered _ bytes source hRead hSome ih =>
    have hNext := position_read (by omega) hRead
    have hAhead := ahead_read (by omega) hRead
    have hCount := (Source.position_read hRead).2
    obtain ⟨piece, hBytes, hPiece, hLater, hAfter⟩ := ih (exact_withoutWindow cursor source)
    rw [ByteArray.append_assoc] at hBytes
    refine ⟨_, hBytes, ?_, hAhead.append hLater (Source.medium_read hRead) hNext, fun hNone => ?_⟩
    · rw [ByteArray.size_append]
      omega
    · rw [hAfter hNone, hNext, ByteArray.size_append, Nat.add_assoc]
  | case6 wanted got cursor =>
    refine ⟨ByteArray.empty, ByteArray.append_empty.symm, Nat.zero_le _, ahead_empty cursor, ?_⟩
    intro hNone
    cases hNone
  | case7 wanted got cursor _ _ _ _ filled hFill =>
    refine ⟨ByteArray.empty, ByteArray.append_empty.symm, Nat.zero_le _, ahead_empty cursor, ?_⟩
    intro _
    exact position_fill hFill
  | case8 wanted got cursor _ _ _ _ filled hFill _ ih =>
    obtain ⟨piece, hBytes, hPiece, hLater, hAfter⟩ := ih (h.fill hFill)
    rw [position_fill hFill] at hAfter
    refine ⟨piece, hBytes, hPiece, ?_, hAfter⟩
    rwa [Ahead, position_fill hFill, medium_fill hFill] at hLater

end FrameFeed.Cursor
