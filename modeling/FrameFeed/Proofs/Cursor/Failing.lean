import FrameFeed.Proofs.Cursor.Reaching
import FrameFeed.StartCode.Scan

/-! Reads that fail. A refill that fails keeps the old window and takes it for unused, so that the
cursor is back at the start of that window and what was used of it comes again. This is the only way
back: a call whose first read is not such a refill leaves the cursor where it was or further on. -/

namespace FrameFeed.Cursor

open EStateM (Result)
open StartCode (scan scanFrom scanWindow)

variable {medium : Medium} {capacity : Nat} {cursor next after : Cursor}

/-- A refill that a cursor would make now fails. -/
def RefillFails (cursor : Cursor) : Prop :=
  ∃ cause source, Source.read cursor.capacity cursor.source = .error cause source

/-- The first read of a call for `wanted` bytes is a refill, and it fails. -/
def FailsAtOnce (wanted : Nat) (cursor : Cursor) : Prop :=
  cursor.buffered < wanted ∧ wanted < cursor.buffered + cursor.capacity ∧ cursor.RefillFails

/-- The first read of a search for a start code is a refill, and it fails: there is no start code
in the window. -/
def ScanFailsAtOnce (zeros : Nat) (cursor : Cursor) : Prop :=
  (∃ counted, scanWindow cursor.window cursor.used zeros = .exhausted counted) ∧
    cursor.RefillFails

/-! ### The way back -/

/-- Where a call leaves the cursor: at the start of its window if it fails at once, and otherwise
not before the place where the call began. -/
structure FallsBack (cursor after : Cursor) (atOnce : Prop) : Prop where
  back : atOnce → after.position + cursor.used = cursor.position
  forward : ¬atOnce → cursor.position ≤ after.position

variable {atOnce atOnce' : Prop}

theorem FallsBack.le_iff (h : FallsBack cursor after atOnce) :
    cursor.position ≤ after.position ↔ ¬(0 < cursor.used ∧ atOnce) := by
  constructor
  · rintro hLe ⟨hUsed, hAtOnce⟩
    have := h.back hAtOnce
    omega
  · intro hNot
    by_cases hAtOnce : atOnce
    · have := h.back hAtOnce
      have : cursor.used = 0 := Nat.eq_zero_of_not_pos fun hUsed => hNot ⟨hUsed, hAtOnce⟩
      omega
    · exact h.forward hAtOnce

theorem fallsBack_forward (hNot : ¬atOnce) (h : cursor.position ≤ after.position) :
    FallsBack cursor after atOnce :=
  ⟨fun hAtOnce => absurd hAtOnce hNot, fun _ => h⟩

/-- Bytes of the window that are used before the call goes on count as used. -/
theorem FallsBack.of_advanced {count : Nat} (h : FallsBack next after atOnce')
    (hUsed : next.used = cursor.used + count) (hPosition : next.position = cursor.position + count)
    (hIff : atOnce ↔ atOnce') : FallsBack cursor after atOnce where
  back hAtOnce := by
    have := h.back (hIff.mp hAtOnce)
    omega
  forward hNot := by
    have := h.forward fun hAtOnce => hNot (hIff.mpr hAtOnce)
    omega

theorem FallsBack.of_fresh (h : FallsBack next after atOnce') (hUsed : next.used = 0)
    (hPosition : cursor.position ≤ next.position) (hNot : ¬atOnce) :
    FallsBack cursor after atOnce := by
  refine fallsBack_forward hNot (Nat.le_trans hPosition (h.le_iff.mpr ?_))
  rintro ⟨hPos, -⟩
  omega

/-! ### Windows -/

theorem Exact.used_advance (h : cursor.Exact) {count : Nat} (hCount : count ≤ cursor.buffered) :
    (cursor.advance count).used = cursor.used + count := by
  have hUsed := h.used_le
  simp only [buffered] at hCount
  simp only [Cursor.advance]
  omega

theorem buffered_advance (cursor : Cursor) (count : Nat) :
    (cursor.advance count).buffered = cursor.buffered - count := by
  simp only [advance, buffered]
  omega

theorem fill_cases (hFill : fill cursor = .ok () next) :
    (cursor.buffered ≠ 0 ∧ next = cursor) ∨ (¬cursor.RefillFails ∧ next.used = 0) := by
  rcases fill_ok hFill with ⟨hUsed, hSame⟩ | ⟨-, bytes, source, hRead, rfl⟩
  · exact .inl ⟨Nat.sub_ne_zero_of_lt hUsed, hSame⟩
  · refine .inr ⟨?_, rfl⟩
    rintro ⟨_, _, hFails⟩
    cases hFails.symm.trans hRead

theorem Exact.scanFailsAtOnce_advance (h : cursor.Exact) {zeros counted : Nat}
    (hNone : scanWindow cursor.window cursor.used zeros = .exhausted counted) :
    ScanFailsAtOnce zeros cursor ↔ ScanFailsAtOnce counted (cursor.advance cursor.buffered) := by
  have hUsed := h.used_advance (Nat.le_refl cursor.buffered)
  have hEnd : ¬(cursor.advance cursor.buffered).used < cursor.window.size := by
    rw [hUsed]
    simp only [buffered]
    omega
  constructor
  · rintro ⟨-, hFails⟩
    refine ⟨⟨counted, ?_⟩, hFails⟩
    show scanWindow cursor.window _ counted = _
    rw [scanWindow, dif_neg hEnd]
  · rintro ⟨-, hFails⟩
    exact ⟨⟨counted, hNone⟩, hFails⟩

/-- After a refill that fails, the cursor is at the start of its window, and the bytes of the window
are to come again. -/
theorem Exact.fill_failed (h : cursor.Exact) {fault : Fault}
    (hFill : Cursor.fill cursor = .error fault after) :
    cursor.RefillFails ∧ cursor.used = cursor.window.size ∧
      after.position + cursor.used = cursor.position ∧
      after.upcoming = cursor.window ++ cursor.upcoming := by
  obtain ⟨hUsed, cause, source, hRead, -, rfl⟩ := fill_error hFill
  obtain ⟨hPosition, hMedium⟩ := Source.position_read_error hRead
  have hAll : cursor.used = cursor.window.size := Nat.le_antisymm h.used_le hUsed
  have hWindow := h.window_le
  refine ⟨⟨cause, source, hRead⟩, hAll, ?_, ?_⟩
  · simp only [position, buffered, hPosition]
    omega
  · have hNone : cursor.pending = ByteArray.empty := by
      rw [pending, hAll, ByteArray.extract_same]
    simp only [upcoming, hNone, ByteArray.empty_append, hPosition, hMedium]
    rw [pending, ByteArray.extract_zero_size]

/-! ### Calls -/

theorem Exact.gather_fallsBack (h : cursor.Exact) (wanted : Nat) (got : ByteArray) :
    FallsBack cursor (Cursor.gather wanted got cursor).2 (FailsAtOnce wanted cursor) := by
  fun_induction Cursor.gather wanted got cursor with
  | case1 got cursor =>
    exact fallsBack_forward (fun hFails => Nat.not_lt_zero _ hFails.1) (Nat.le_refl _)
  | case2 wanted got cursor hWanted hBuffered count ih =>
    -- What is taken from the window counts as used in the turns that follow.
    have hCount : count ≤ cursor.buffered := Nat.min_le_left _ _
    refine (ih (h.advance count)).of_advanced (h.used_advance hCount) (h.position_advance hCount) ?_
    have hMin : count = min cursor.buffered wanted := rfl
    have hRest := buffered_advance cursor count
    constructor
    · rintro ⟨hLess, hSmall, hFails⟩
      refine ⟨by omega, ?_, hFails⟩
      show wanted - count < (cursor.advance count).buffered + cursor.capacity
      omega
    · rintro ⟨hLess, hSmall, hFails⟩
      refine ⟨by omega, ?_, hFails⟩
      have : wanted - count < (cursor.advance count).buffered + cursor.capacity := hSmall
      omega
  | case3 wanted got cursor hWanted hBuffered hLarge fault source hRead =>
    refine fallsBack_forward (fun hFails => ?_) ?_
    · have := hFails.2.1
      omega
    · rw [position_of_empty (show cursor.buffered = 0 by omega),
        ← (Source.position_read_error hRead).1]
      exact Nat.le_refl _
  | case4 wanted got cursor hWanted hBuffered hLarge bytes source hRead hNone =>
    refine fallsBack_forward (fun hFails => ?_) ?_
    · have := hFails.2.1
      omega
    · rw [position_read (by omega) hRead]
      exact Nat.le_add_right _ _
  | case5 wanted got cursor hWanted hBuffered hLarge bytes source hRead hSome ih =>
    refine (ih (exact_withoutWindow cursor source)).of_fresh rfl ?_ fun hFails => ?_
    · rw [position_read (by omega) hRead]
      exact Nat.le_add_right _ _
    · have := hFails.2.1
      omega
  | case6 wanted got cursor hWanted hBuffered hSmall fault failed hFill =>
    -- The refill fails: the old window is taken for unused.
    obtain ⟨hFails, -, hBack, -⟩ := h.fill_failed hFill
    exact ⟨fun _ => hBack, fun hNot => absurd ⟨by omega, by omega, hFails⟩ hNot⟩
  | case7 wanted got cursor hWanted hBuffered hSmall _ filled hFill hNone =>
    refine fallsBack_forward (fun hFails => ?_) (Nat.le_of_eq (position_fill hFill).symm)
    rcases fill_cases hFill with ⟨hSome, -⟩ | ⟨hNot, -⟩
    · exact hBuffered hSome
    · exact hNot hFails.2.2
  | case8 wanted got cursor hWanted hBuffered hSmall _ filled hFill hSome ih =>
    -- The loop goes on with a new window, so that a later failure does not lead behind it.
    rcases fill_cases hFill with ⟨hKept, -⟩ | ⟨hNot, hFresh⟩
    · exact absurd hKept hBuffered
    · exact (ih (h.fill hFill)).of_fresh hFresh (Nat.le_of_eq (position_fill hFill).symm)
        fun hFails => hNot hFails.2.2

theorem Exact.scanFrom_fallsBack (h : cursor.Exact) (zeros : Nat) :
    FallsBack cursor (stateOf (scanFrom zeros cursor)) (ScanFailsAtOnce zeros cursor) := by
  fun_induction scanFrom zeros cursor with
  | case1 zeros cursor fault failed hFill =>
    obtain ⟨hFails, hUsed, hBack, -⟩ := h.fill_failed hFill
    refine ⟨fun _ => hBack, fun hNot => absurd ⟨⟨zeros, ?_⟩, hFails⟩ hNot⟩
    rw [scanWindow, dif_neg (by omega)]
  | case2 zeros cursor _ filled hFill hEnd =>
    refine fallsBack_forward (fun hFails => ?_) (Nat.le_of_eq (position_fill hFill).symm)
    rcases fill_cases hFill with ⟨hSome, rfl⟩ | ⟨hNot, -⟩
    · exact hSome hEnd
    · exact hNot hFails.2
  | case3 zeros cursor _ filled hFill hEnd index counted hFound =>
    refine fallsBack_forward (fun hFails => ?_) ?_
    · rcases fill_cases hFill with ⟨-, rfl⟩ | ⟨hNot, -⟩
      · obtain ⟨⟨_, hNone⟩, -⟩ := hFails
        cases hNone.symm.trans hFound
      · exact hNot hFails.2
    · have hBounds := StartCode.scanWindow_bounds hFound
      show cursor.position ≤ (filled.advance (index - filled.used + 1)).position
      rw [(h.fill hFill).position_advance (by simp only [buffered]; omega), position_fill hFill]
      exact Nat.le_add_right _ _
  | case4 zeros cursor _ filled hFill hEnd counted hNone hLess ih =>
    have hFilled := h.fill hFill
    have hRest := (ih (hFilled.advance filled.buffered)).of_advanced
      (hFilled.used_advance (Nat.le_refl _)) (hFilled.position_advance (Nat.le_refl _))
      (hFilled.scanFailsAtOnce_advance hNone)
    -- The window is the one from before the search or a new one; only the former can be lost again.
    rcases fill_cases hFill with ⟨-, rfl⟩ | ⟨hNot, hFresh⟩
    · exact hRest
    · exact hRest.of_fresh hFresh (Nat.le_of_eq (position_fill hFill).symm)
        fun hFails => hNot hFails.2

theorem stateOf_readUpTo (wanted : Nat) (cursor : Cursor) :
    stateOf (readUpTo wanted cursor) = (gather wanted ByteArray.empty cursor).2 := by
  simp only [readUpTo]
  split <;> rename_i hGather <;> rw [hGather] <;> rfl

theorem stateOf_readExact (wanted : Nat) (cursor : Cursor) :
    stateOf (readExact wanted cursor) = stateOf (readUpTo wanted cursor) := by
  cases hRead : readUpTo wanted cursor with
  | error fault after => rw [readExact, bind_of_error hRead]
  | ok bytes after =>
    rw [readExact, bind_of_ok hRead]
    split <;> rfl

theorem Exact.readUpTo_fallsBack (h : cursor.Exact) (wanted : Nat) :
    FallsBack cursor (stateOf (Cursor.readUpTo wanted cursor)) (FailsAtOnce wanted cursor) := by
  rw [stateOf_readUpTo]
  exact h.gather_fallsBack wanted ByteArray.empty

theorem Exact.readExact_fallsBack (h : cursor.Exact) (wanted : Nat) :
    FallsBack cursor (stateOf (Cursor.readExact wanted cursor)) (FailsAtOnce wanted cursor) := by
  rw [stateOf_readExact]
  exact h.readUpTo_fallsBack wanted

theorem Exact.readByte_fallsBack (h : cursor.Exact) :
    FallsBack cursor (stateOf (Cursor.readByte cursor)) (FailsAtOnce 1 cursor) := by
  rw [Cursor.readByte, stateOf_bind_pure]
  exact h.readExact_fallsBack 1

theorem Exact.readPair_fallsBack (h : cursor.Exact) :
    FallsBack cursor (stateOf (Cursor.readPair cursor)) (FailsAtOnce 2 cursor) := by
  rw [Cursor.readPair, stateOf_bind_pure]
  exact h.readExact_fallsBack 2

/-- A failure of a step leaves the cursor before its old place in one case only: part of the window
has been used, and the step's first read is a refill, which fails. -/
def FailsForward {Value : Type} (cursor : Cursor) (step : Action Value) (atOnce : Prop) : Prop :=
  ∀ fault after, step cursor = .error fault after →
    (cursor.position ≤ after.position ↔ ¬(0 < cursor.used ∧ atOnce))

theorem FallsBack.failsForward {Value : Type} {step : Action Value}
    (h : FallsBack cursor (stateOf (step cursor)) atOnce) : FailsForward cursor step atOnce := by
  intro fault after hStep
  rw [hStep] at h
  exact h.le_iff

/-- Failures of reads, at every cursor that calls lead to, over a medium of any behaviour. What is
to come is what reads deliver. Where reading ahead fails, the cursor stays where it is, with the
same bytes to come, just when no part of the window has been used; otherwise it goes back to the
start of the window, whose bytes come again. Where another read or the search for a start code
fails, the cursor is not before its old place, but for a failure of the call's first read, when that
is a refill and part of the window has been used. -/
theorem failures (h : Reached medium capacity cursor) :
    (∀ wanted bytes after, readUpTo wanted cursor = .ok bytes after →
      cursor.upcoming = bytes ++ after.upcoming) ∧
    (∀ fault after, fill cursor = .error fault after →
      (after.position = cursor.position ∧ after.upcoming = cursor.upcoming ↔ cursor.used = 0) ∧
        after.position + cursor.used = cursor.position ∧
        after.upcoming = cursor.window ++ cursor.upcoming) ∧
    (∀ wanted, FailsForward cursor (readUpTo wanted) (FailsAtOnce wanted cursor)) ∧
    (∀ wanted, FailsForward cursor (readExact wanted) (FailsAtOnce wanted cursor)) ∧
    FailsForward cursor readByte (FailsAtOnce 1 cursor) ∧
    FailsForward cursor readPair (FailsAtOnce 2 cursor) ∧
    FailsForward cursor scan (ScanFailsAtOnce 0 cursor) := by
  have hExact := h.exact
  refine ⟨fun wanted bytes after hRead => hExact.readUpTo_upcoming hRead, ?_,
    fun wanted => (hExact.readUpTo_fallsBack wanted).failsForward,
    fun wanted => (hExact.readExact_fallsBack wanted).failsForward,
    hExact.readByte_fallsBack.failsForward, hExact.readPair_fallsBack.failsForward,
    FallsBack.failsForward (hExact.scanFrom_fallsBack 0)⟩
  intro fault after hFill
  obtain ⟨-, hUsed, hBack, hAgain⟩ := hExact.fill_failed hFill
  refine ⟨⟨?_, fun hNone => ⟨?_, ?_⟩⟩, hBack, hAgain⟩
  · rintro ⟨hStays, -⟩
    omega
  · omega
  · rw [hAgain, ByteArray.size_eq_zero_iff.mp (hUsed.symm.trans hNone), ByteArray.empty_append]

/-- Sixteen bytes, after which the medium fails. -/
def sixteenBytes : Medium :=
  .ofFlaky ⟨#[0, 1, 2, 3, 4, 5, 6, 7, 8, 9, 10, 11, 12, 13, 14, 15]⟩ (some 16) none (some 16)

/-- All sixteen bytes have been read ahead and used. -/
def sixteenUsed : Cursor :=
  ((Call.consume 16).event (Call.fill.event (ofMedium sixteenBytes 16)).after).after

theorem reached_sixteenUsed : Reached sixteenBytes 16 sixteenUsed :=
  .called (.consume 16) (.called .fill .started)

theorem failures_sixteenUsed :
    ∃ fault after, fill sixteenUsed = .error fault after ∧
      after.position + sixteenUsed.used = sixteenUsed.position ∧
      after.upcoming = sixteenUsed.window ++ sixteenUsed.upcoming := by
  cases hFill : fill sixteenUsed with
  | ok _ after =>
    have hFails : (resultOf (fill sixteenUsed)).isOk = false := by decide +kernel
    rw [hFill] at hFails
    cases hFails
  | error fault after =>
    exact ⟨fault, after, rfl, ((failures reached_sixteenUsed).2.1 fault after hFill).2⟩

/-- The bad sector takes the cursor back to the start, and the first byte is delivered again. -/
theorem fill_sixteenUsed :
    Reached sixteenBytes 16 sixteenUsed ∧ sixteenUsed.position = 16 ∧
      (resultOf (fill sixteenUsed)).isOk = false ∧
      (stateOf (fill sixteenUsed)).position = 0 ∧
      (resultOf (readByte (stateOf (fill sixteenUsed)))).toOption = some 0 :=
  ⟨reached_sixteenUsed, by decide +kernel, by decide +kernel, by decide +kernel,
    by decide +kernel⟩

end FrameFeed.Cursor
