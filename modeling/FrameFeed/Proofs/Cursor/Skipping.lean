import FrameFeed.Proofs.Cursor.Looking

/-! Moves forward. A skip uses up bytes of the window and has the source moved by the rest. The
source takes the rest for a signed word, so that a rest with the top bit set is a distance back. The
source goes there if there is such a place, and refuses otherwise; the window is lost either way. -/

namespace FrameFeed

open EStateM (Result)

/-- A word with the top bit set stands for a negative number. -/
theorem signedWord_negative {word : Nat} (hTop : 0x8000_0000_0000_0000 ≤ word)
    (hWord : word < 0x1_0000_0000_0000_0000) :
    signedWord word = (word : Int) - 0x1_0000_0000_0000_0000 := by
  simp only [signedWord, if_neg (Nat.not_lt.mpr hTop)]
  omega

namespace Cursor

variable {medium : Medium} {capacity count : Nat} {cursor after : Cursor}

theorem WentTo.upcoming_eq {offset : Nat} (h : WentTo cursor offset after) : after.upcoming =
    cursor.source.medium.data.extract offset cursor.source.medium.data.size := by
  rw [h.exact.upcoming_eq, h.position_eq, h.medium_eq]

/-! ### The ways of a skip -/

theorem skip_inside (h : cursor.Exact) (hCount : count ≤ cursor.buffered) :
    skip count cursor = .ok () { cursor with used := cursor.used + count } ∧
      WentTo cursor (cursor.position + count) { cursor with used := cursor.used + count } := by
  have hUsed := h.used_le
  have hWindow := h.window_le
  refine ⟨by simp only [skip, if_pos hCount], ⟨?_, h.window_le, h.window_eq⟩, ?_, rfl⟩
  · simp only [buffered] at hCount
    show cursor.used + count ≤ cursor.window.size
    omega
  · simp only [position, buffered] at hCount ⊢
    omega

/-- Where the window does not reach, the source goes to its target if that is a place at all. -/
theorem skip_outside (hSeeks : cursor.source.medium.GoesAnywhere) (hCount : cursor.buffered < count)
    {target : Nat}
    (hTarget : cursor.source.position + signedWord (count - cursor.buffered) = target) :
    ∃ after, skip count cursor = .ok () after ∧ WentTo cursor target after ∧
      after.source.position = target := by
  let moved : Source :=
    { cursor.source with position := target, turn := cursor.source.turn + 1 }
  have hSeek : Source.seek (target : Int) cursor.source = .ok target moved := by
    show Source.seek (.ofNat target) cursor.source = _
    simp only [Source.seek, hSeeks cursor.source.turn target, moved]
  refine ⟨{ cursor.withoutWindow with source := moved }, ?_, ⟨exact_withoutWindow _ _, rfl, rfl⟩,
    rfl⟩
  simp only [skip, if_neg (Nat.not_le.mpr hCount), hTarget, hSeek]

theorem skip_refused (h : cursor.Exact) (hCount : cursor.buffered < count)
    (hTarget : cursor.source.position + signedWord (count - cursor.buffered) < 0) :
    ∃ after, skip count cursor = .error (.io cursor.source.medium.negativeSeek) after ∧
      LosesWindow cursor after ∧ after.source.position = cursor.source.position := by
  obtain ⟨short, hShort⟩ := Int.eq_negSucc_of_lt_zero hTarget
  refine ⟨{ cursor.withoutWindow with
    source := { cursor.source with turn := cursor.source.turn + 1 } }, ?_,
    h.losesWindow rfl rfl, rfl⟩
  simp only [skip, if_neg (Nat.not_le.mpr hCount), hShort, Source.seek]

/-! ### Where a skip leads -/

/-- What a skip is for: it succeeds, and the cursor is as many bytes further on, or it fails, and
the cursor stays. -/
def MovesOrStays (count : Nat) (cursor : Cursor) : Prop :=
  match skip count cursor with
  | .ok _ after => after.position = cursor.position + count
  | .error _ after => Stays cursor after

theorem movesOrStays_ok (h : skip count cursor = .ok () after) :
    MovesOrStays count cursor ↔ after.position = cursor.position + count := by
  simp only [MovesOrStays, h]

theorem movesOrStays_error {fault : Fault} (h : skip count cursor = .error fault after) :
    MovesOrStays count cursor ↔ Stays cursor after := by
  simp only [MovesOrStays, h]

/-- A skip whose part behind the window is short of the top bit moves as far as it should. -/
theorem Exact.skip_near (h : cursor.Exact) (hSeeks : cursor.source.medium.GoesAnywhere)
    (hNear : count - cursor.buffered < 0x8000_0000_0000_0000) :
    ∃ after, skip count cursor = .ok () after ∧ WentTo cursor (cursor.position + count) after ∧
      after.source.position = max cursor.source.position (cursor.position + count) := by
  have hSource := h.source_position
  by_cases hInside : count ≤ cursor.buffered
  · obtain ⟨hSkip, hWent⟩ := skip_inside h hInside
    refine ⟨_, hSkip, hWent, ?_⟩
    show cursor.source.position = _
    omega
  · have hTarget : (cursor.source.position : Int) + signedWord (count - cursor.buffered) =
        (cursor.position + count : Nat) := by
      rw [signedWord_eq hNear]
      omega
    obtain ⟨after, hSkip, hWent, hPlace⟩ := skip_outside hSeeks (Nat.not_le.mp hInside) hTarget
    exact ⟨after, hSkip, hWent, by omega⟩

/-- A skip whose part behind the window has the top bit set goes back by what is missing to a whole
turn of the word, and is refused if there are not as many bytes before the cursor. -/
theorem Exact.skip_far (h : cursor.Exact) (hSeeks : cursor.source.medium.GoesAnywhere)
    (hWord : count < 0x1_0000_0000_0000_0000)
    (hFar : 0x8000_0000_0000_0000 ≤ count - cursor.buffered) :
    (∀ back, cursor.position + count = 0x1_0000_0000_0000_0000 + back →
      ∃ after, skip count cursor = .ok () after ∧ WentTo cursor back after ∧
        after.source.position = back) ∧
    (cursor.position + count < 0x1_0000_0000_0000_0000 →
      ∃ after, skip count cursor = .error (.io cursor.source.medium.negativeSeek) after ∧
        LosesWindow cursor after ∧ after.source.position = cursor.source.position) := by
  have hSource := h.source_position
  have hRest := signedWord_negative hFar (by omega)
  refine ⟨fun back hBack => ?_, fun hShort => ?_⟩
  · exact skip_outside hSeeks (by omega) (by omega)
  · exact skip_refused h (by omega) (by omega)

/-- Skips, at every cursor that calls lead to over a medium that goes to every offset. The source is
at an offset that a signed word can say, the count is a word, and no sum of offsets overflows. What
is to come is what reads deliver. A skip that the window and a signed word can say moves exactly as
far as it should. One whose part behind the window has the top bit set never does: it goes back, by
what its count lacks of a whole turn of the word, or it fails and loses the window. So a skip moves
as far as it should or fails and stays just when the top bit is not set, or when the source refuses
and no byte of the window was left. -/
theorem skip_moves (h : Reached medium capacity cursor) (hSeeks : medium.GoesAnywhere)
    (hPlace : cursor.source.position < 0x8000_0000_0000_0000)
    (hWord : count < 0x1_0000_0000_0000_0000)
    (hSum : count - cursor.buffered < 0x8000_0000_0000_0000 →
      cursor.position + count < 0x8000_0000_0000_0000) :
    (∀ wanted bytes after, readUpTo wanted cursor = .ok bytes after →
      cursor.upcoming = bytes ++ after.upcoming) ∧
    (count - cursor.buffered < 0x8000_0000_0000_0000 → ∃ after, skip count cursor = .ok () after ∧
      after.position = cursor.position + count ∧
      after.upcoming = medium.data.extract (cursor.position + count) medium.data.size) ∧
    (∀ back, cursor.position + count = 0x1_0000_0000_0000_0000 + back →
      back < cursor.position ∧ ∃ after, skip count cursor = .ok () after ∧ after.position = back ∧
        after.upcoming = medium.data.extract back medium.data.size) ∧
    (0x8000_0000_0000_0000 ≤ count - cursor.buffered →
      cursor.position + count < 0x1_0000_0000_0000_0000 → ∃ after,
        skip count cursor = .error (.io medium.negativeSeek) after ∧ LosesWindow cursor after) ∧
    (MovesOrStays count cursor ↔ count - cursor.buffered < 0x8000_0000_0000_0000 ∨
      cursor.position + count < 0x1_0000_0000_0000_0000 ∧ cursor.buffered = 0) ∧
    (stateOf (skip count cursor)).source.position < 0x8000_0000_0000_0000 := by
  have hExact := h.exact
  have hSource := hExact.source_position
  obtain rfl := h.medium_eq
  refine ⟨fun wanted bytes after hRead => hExact.readUpTo_upcoming hRead, ?_⟩
  rcases Nat.lt_or_ge (count - cursor.buffered) 0x8000_0000_0000_0000 with hNear | hFar
  · obtain ⟨after, hSkip, hWent, hAfter⟩ := hExact.skip_near hSeeks hNear
    have hHere := hSum hNear
    refine ⟨fun _ => ⟨after, hSkip, hWent.position_eq, hWent.upcoming_eq⟩,
      fun back hBack => by omega, fun hTop => by omega, ?_, ?_⟩
    · exact iff_of_true ((movesOrStays_ok hSkip).mpr hWent.position_eq) (.inl hNear)
    · rw [hSkip]
      show after.source.position < _
      omega
  · obtain ⟨hBack, hRefused⟩ := hExact.skip_far hSeeks hWord hFar
    refine ⟨fun hNear => by omega, fun back hSome => ?_, fun _ hShort => ?_, ?_⟩
    · obtain ⟨after, hSkip, hWent, -⟩ := hBack back hSome
      exact ⟨by omega, after, hSkip, hWent.position_eq, hWent.upcoming_eq⟩
    · obtain ⟨after, hSkip, hLoses, -⟩ := hRefused hShort
      exact ⟨after, hSkip, hLoses⟩
    · rcases Nat.lt_or_ge (cursor.position + count) 0x1_0000_0000_0000_0000 with hShort | hTurn
      · obtain ⟨after, hSkip, hLoses, hAfter⟩ := hRefused hShort
        refine ⟨?_, by rw [hSkip]; exact hAfter ▸ hPlace⟩
        rw [movesOrStays_error hSkip, hLoses.stays_iff]
        omega
      · obtain ⟨back, hSome⟩ := Nat.exists_eq_add_of_le hTurn
        obtain ⟨after, hSkip, hWent, hAfter⟩ := hBack back hSome
        refine ⟨?_, by rw [hSkip]; show after.source.position < _; omega⟩
        rw [movesOrStays_ok hSkip, hWent.position_eq]
        omega

/-- From behind the first of twenty bytes, with fifteen of them in the window: a skip by seventeen
arrives, one by the greatest word goes back by one, and one that has the top bit set behind the
window is refused and loses the window. -/
theorem skip_moves_oneByteRead :
    (∃ after, skip 17 oneByteRead = .ok () after ∧ after.position = 18 ∧
      after.upcoming = twentyBytes.data.extract 18 20) ∧
    (∃ after, skip 0xffff_ffff_ffff_ffff oneByteRead = .ok () after ∧ after.position = 0 ∧
      after.upcoming = twentyBytes.data.extract 0 20) ∧
    (∃ after, skip 0x8000_0000_0000_000f oneByteRead = .error (.io .negativeSeek) after ∧
      LosesWindow oneByteRead after) := by
  have hSeeks := Medium.goesAnywhere_ofBytes twentyBytes.data
  have hPosition : oneByteRead.position = 1 := by decide +kernel
  have hBuffered : oneByteRead.buffered = 15 := by decide +kernel
  have hPlace : oneByteRead.source.position < 0x8000_0000_0000_0000 := by decide +kernel
  have hLittle : 17 < 0x1_0000_0000_0000_0000 := by decide
  have hGreatest : 0xffff_ffff_ffff_ffff < 0x1_0000_0000_0000_0000 := by decide
  have hTopBit : 0x8000_0000_0000_000f < 0x1_0000_0000_0000_0000 := by decide
  obtain ⟨-, hMoves, -⟩ := skip_moves reached_oneByteRead hSeeks hPlace hLittle (by omega)
  obtain ⟨-, -, hBack, -⟩ := skip_moves reached_oneByteRead hSeeks hPlace hGreatest (by omega)
  obtain ⟨-, -, -, hRefused, -⟩ := skip_moves reached_oneByteRead hSeeks hPlace hTopBit (by omega)
  rw [hPosition, hBuffered] at hMoves hRefused
  rw [hPosition] at hBack
  exact ⟨hMoves (by decide), (hBack 0 (by decide)).2, hRefused (by decide) (by decide)⟩

/-- A skip by the greatest word goes back from behind the first byte to it, and the byte comes
again. One that is refused takes the cursor behind the window. -/
theorem skip_back_oneByteRead :
    Reached twentyBytes 16 oneByteRead ∧ oneByteRead.position = 1 ∧
      (resultOf (skip 0xffff_ffff_ffff_ffff oneByteRead)).isOk = true ∧
      (stateOf (skip 0xffff_ffff_ffff_ffff oneByteRead)).position = 0 ∧
      (resultOf (readByte (stateOf (skip 0xffff_ffff_ffff_ffff oneByteRead)))).toOption = some 0 ∧
      (resultOf (skip 0x8000_0000_0000_000f oneByteRead)).isOk = false ∧
      (stateOf (skip 0x8000_0000_0000_000f oneByteRead)).position = 16 :=
  ⟨reached_oneByteRead, by decide +kernel, by decide +kernel, by decide +kernel, by decide +kernel,
    by decide +kernel, by decide +kernel⟩

end Cursor

end FrameFeed
