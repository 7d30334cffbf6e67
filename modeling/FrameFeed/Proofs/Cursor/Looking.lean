import FrameFeed.Nal.Class
import FrameFeed.Proofs.Cursor.Moving

/-! Looking at bytes elsewhere. The cursor comes back from every look that it sets out on, also from
one that runs short or fails, with the same bytes to come. It does not set out where the source
refuses to go, and then it has given up its window all the same. -/

namespace FrameFeed

open EStateM (Result)

/-- A medium that goes to every offset from the first byte on, as memory does. -/
def Medium.GoesAnywhere (medium : Medium) : Prop :=
  ∀ turn target, medium.refuse turn target = none

theorem Medium.goesAnywhere_ofBytes (data : ByteArray) : (Medium.ofBytes data).GoesAnywhere :=
  fun _ _ => rfl

theorem Medium.goesAnywhere_ofFlaky (data : ByteArray) (reportedSize chunk badAt : Option Nat) :
    (Medium.ofFlaky data reportedSize chunk badAt).GoesAnywhere :=
  fun _ _ => rfl

namespace Cursor

variable {medium : Medium} {capacity : Nat} {cursor after : Cursor}

/-- The cursor is where it was, with the same bytes to come. -/
structure Stays (cursor after : Cursor) : Prop where
  position_eq : after.position = cursor.position
  upcoming_eq : after.upcoming = cursor.upcoming

/-- The cursor is behind its window, whose bytes will not come. -/
structure LosesWindow (cursor after : Cursor) : Prop where
  position_eq : after.position = cursor.position + cursor.buffered
  upcoming_eq : cursor.upcoming = cursor.pending ++ after.upcoming

theorem Exact.stays (h : cursor.Exact) (hAfter : after.Exact)
    (hMedium : after.source.medium = cursor.source.medium)
    (hPosition : after.position = cursor.position) : Stays cursor after := by
  refine ⟨hPosition, ?_⟩
  rw [h.upcoming_eq, hAfter.upcoming_eq, hMedium, hPosition]

theorem LosesWindow.stays_iff (h : LosesWindow cursor after) :
    Stays cursor after ↔ cursor.buffered = 0 := by
  constructor
  · intro hStays
    have := h.position_eq.symm.trans hStays.position_eq
    omega
  · intro hEmpty
    have hPending : cursor.pending = ByteArray.empty := by
      simp only [buffered] at hEmpty
      exact ByteArray.extract_eq_empty_iff.mpr (by omega)
    refine ⟨by rw [h.position_eq, hEmpty, Nat.add_zero], ?_⟩
    rw [h.upcoming_eq, hPending, ByteArray.empty_append]

/-! ### Setting out and coming back -/

/-- Where a cursor is after it has gone to an offset. -/
structure WentTo (cursor : Cursor) (offset : Nat) (after : Cursor) : Prop where
  exact : after.Exact
  position_eq : after.position = offset
  medium_eq : after.source.medium = cursor.source.medium

theorem seek_fromStart_ok (hSeeks : cursor.source.medium.GoesAnywhere) {offset : Nat}
    (hOffset : offset < 0x8000_0000_0000_0000) :
    ∃ after, seek (.fromStart offset) cursor = .ok offset after ∧ WentTo cursor offset after := by
  have hAccept := hSeeks cursor.source.turn offset
  refine ⟨{ cursor.withoutWindow with
    source := { cursor.source with position := offset, turn := cursor.source.turn + 1 } }, ?_,
    exact_withoutWindow _ _, rfl, rfl⟩
  simp only [seek, signedWord, if_pos hOffset, Source.seek, hAccept]

/-- An offset with the top bit of the word set counts as negative. -/
theorem seek_fromStart_error (cursor : Cursor) {offset : Nat}
    (hOffset : 0x8000_0000_0000_0000 ≤ offset) :
    seek (.fromStart offset) cursor = .error (.io cursor.source.medium.negativeSeek)
      { cursor.withoutWindow with
        source := { cursor.source with turn := cursor.source.turn + 1 } } := by
  simp only [seek, signedWord, if_neg (Nat.not_lt.mpr hOffset), Source.seek]

/-- A cursor that gives up its window goes to the place of its source. -/
theorem Exact.losesWindow (h : cursor.Exact) {source : Source}
    (hMedium : source.medium = cursor.source.medium)
    (hPosition : source.position = cursor.source.position) :
    LosesWindow cursor { cursor.withoutWindow with source } := by
  refine ⟨hPosition.trans h.source_position, ?_⟩
  rw [upcoming, (exact_withoutWindow cursor source).upcoming_eq]
  show _ = cursor.pending ++ source.medium.data.extract source.position source.medium.data.size
  rw [hMedium, hPosition]

/-- What a look at an offset does to the cursor: nothing, but for an offset that no signed word can
say. There the window is lost, so that the cursor stays just when it had no byte left. -/
structure Looks (cursor : Cursor) (offset : Nat) (after : Cursor) : Prop where
  stays_iff : Stays cursor after ↔ offset < 0x8000_0000_0000_0000 ∨ cursor.buffered = 0
  loses : 0x8000_0000_0000_0000 ≤ offset → LosesWindow cursor after

theorem Stays.looks {offset : Nat} (h : Stays cursor after)
    (hNear : offset < 0x8000_0000_0000_0000) : Looks cursor offset after :=
  ⟨iff_of_true h (.inl hNear), fun hFar => absurd hNear (Nat.not_lt.mpr hFar)⟩

theorem LosesWindow.looks {offset : Nat} (h : LosesWindow cursor after)
    (hFar : 0x8000_0000_0000_0000 ≤ offset) : Looks cursor offset after := by
  refine ⟨?_, fun _ => h⟩
  rw [h.stays_iff, or_iff_right (Nat.not_lt.mpr hFar)]

theorem Exact.peekAt_looks (h : cursor.Exact) (hSeeks : cursor.source.medium.GoesAnywhere)
    (hPlace : cursor.source.position < 0x8000_0000_0000_0000) (offset wanted : Nat) :
    Looks cursor offset (stateOf (peekAt offset wanted cursor)) := by
  have hSource := h.source_position
  by_cases hInside : cursor.source.position - cursor.window.size ≤ offset ∧
      offset + wanted ≤ cursor.source.position
  -- The window holds what is looked at, so that the offset cannot be too large.
  · have hStays : Stays cursor cursor := ⟨rfl, rfl⟩
    simp only [peekAt, if_pos hInside]
    exact hStays.looks (by omega)
  · rcases Nat.lt_or_ge offset 0x8000_0000_0000_0000 with hNear | hFar
    · obtain ⟨moved, hMove, hMoved⟩ := seek_fromStart_ok hSeeks hNear
      have hMedium := (medium_gather wanted ByteArray.empty moved).trans hMoved.medium_eq
      obtain ⟨back, hBack, hCameBack⟩ := seek_fromStart_ok (hMedium.symm ▸ hSeeks)
        (show cursor.position < 0x8000_0000_0000_0000 by omega)
      have hStays := h.stays hCameBack.exact (hCameBack.medium_eq.trans hMedium)
        hCameBack.position_eq
      simp only [peekAt, if_neg hInside, hMove, hBack]
      -- The cursor is back before it turns out whether the bytes have come.
      split <;> exact hStays.looks hNear
    · simp only [peekAt, if_neg hInside, seek_fromStart_error cursor hFar]
      refine LosesWindow.looks ?_ hFar
      exact h.losesWindow rfl rfl

/-! ### Looking at a unit -/

theorem stateOf_peek (coding : NalCoding) (offset : Nat) (cursor : Cursor) :
    stateOf (NalClass.peek (.nal coding) offset cursor) =
      stateOf (peekAt offset (coding.headerSize + 1) cursor) := by
  have hPeek? : stateOf (NalClass.peek? coding offset cursor) =
      stateOf (peekAt offset (coding.headerSize + 1) cursor) := by
    simp only [NalClass.peek?]
    split <;> rename_i hLook <;> rw [hLook] <;> rfl
  rw [← hPeek?, NalClass.peek]
  cases hClass : NalClass.peek? coding offset cursor with
  | error fault after => rw [bind_of_error hClass]; rfl
  | ok unitClass after =>
    rw [bind_of_ok hClass]
    cases unitClass <;> rfl

/-- Looks, at every cursor that calls lead to over a medium that goes to every offset and whose
reads behave in any way. The source is at an offset that a signed word can say, as it is unless the
word has overflowed. What is to come is what reads deliver. A look at bytes or at the class of a
unit that ends within 64 bits, whatever comes of it, leaves the cursor where it was with the same
bytes to come, but for a look at an offset that no signed word can say: that one loses the window,
so that the cursor stays just when no byte of the window was left. Formats without units are not
looked at. -/
theorem looks_stay (h : Reached medium capacity cursor) (hSeeks : medium.GoesAnywhere)
    (hPlace : cursor.source.position < 0x8000_0000_0000_0000) :
    (∀ wanted bytes after, readUpTo wanted cursor = .ok bytes after →
      cursor.upcoming = bytes ++ after.upcoming) ∧
    (∀ offset wanted, offset + wanted < 0x1_0000_0000_0000_0000 →
      Looks cursor offset (stateOf (peekAt offset wanted cursor))) ∧
    (∀ (coding : NalCoding) (offset : Nat),
      offset + (coding.headerSize + 1) < 0x1_0000_0000_0000_0000 →
        Looks cursor offset (stateOf (NalClass.peek (.nal coding) offset cursor))) ∧
    ∀ offset, stateOf (NalClass.peek .mjpeg offset cursor) = cursor := by
  have hLooks := h.exact.peekAt_looks (h.medium_eq.symm ▸ hSeeks) hPlace
  refine ⟨fun wanted bytes after hRead => h.exact.readUpTo_upcoming hRead,
    fun offset wanted _ => hLooks offset wanted, fun coding offset _ => ?_, fun offset => rfl⟩
  rw [stateOf_peek]
  exact hLooks offset (coding.headerSize + 1)

/-- Twenty bytes of which the last four cannot be read. -/
def twentyBytesCut : Medium := .ofFlaky twentyBytes.data (some 20) none (some 16)

def oneByteReadCut : Cursor := (Call.readByte.event (ofMedium twentyBytesCut 16)).after

/-- A look at bytes that cannot be read fails, and the cursor stays behind the first byte. Over
memory, a look that is refused takes the cursor behind the window. -/
theorem looks_stay_oneByteRead :
    (resultOf (peekAt 15 3 oneByteReadCut)).isOk = false ∧
      Stays oneByteReadCut (stateOf (peekAt 15 3 oneByteReadCut)) ∧
      Stays oneByteReadCut (stateOf (NalClass.peek (.nal .hevc) 15 oneByteReadCut)) ∧
      LosesWindow oneByteRead (stateOf (peekAt 0x8000_0000_0000_0000 1 oneByteRead)) := by
  have hReached : Reached twentyBytesCut 16 oneByteReadCut := .called .readByte .started
  obtain ⟨-, hBytes, hUnit, -⟩ := looks_stay hReached
    (Medium.goesAnywhere_ofFlaky twentyBytes.data (some 20) none (some 16)) (by decide +kernel)
  obtain ⟨-, hRefused, -⟩ := looks_stay reached_oneByteRead
    (Medium.goesAnywhere_ofBytes twentyBytes.data) (by decide +kernel)
  exact ⟨by decide +kernel, (hBytes 15 3 (by decide)).stays_iff.mpr (.inl (by decide)),
    (hUnit .hevc 15 (by decide)).stays_iff.mpr (.inl (by decide)),
    (hRefused _ 1 (by decide)).loses (Nat.le_refl _)⟩

/-- After a look at an offset that memory refuses, the next byte is the one behind the window. -/
theorem peekAt_tooFar_oneByteRead :
    Reached twentyBytes 16 oneByteRead ∧ oneByteRead.position = 1 ∧
      (resultOf (peekAt 0x8000_0000_0000_0000 1 oneByteRead)).isOk = false ∧
      (stateOf (peekAt 0x8000_0000_0000_0000 1 oneByteRead)).position = 16 ∧
      (resultOf (readByte (stateOf (peekAt 0x8000_0000_0000_0000 1 oneByteRead)))).toOption =
        some 16 :=
  ⟨reached_oneByteRead, by decide +kernel, by decide +kernel, by decide +kernel, by decide +kernel⟩

end Cursor

end FrameFeed
