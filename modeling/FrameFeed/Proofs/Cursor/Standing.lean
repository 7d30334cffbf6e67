import FrameFeed.Cursor.Unread
import FrameFeed.Proofs.Bytes

/-! Where a cursor stands. A cursor is exact when its window repeats the bytes of the medium that
end where the source stands. Over a steady medium an exact cursor amounts to an offset: each step
gives the bytes of the data from that offset on, however the window cuts the data into pieces. -/

namespace FrameFeed

open EStateM (Result)

/-- A medium that works: a read hands over a byte where there is one, and seeks succeed as far as
`reach`, which the data does not exceed. Offsets are kept in signed words. -/
structure Medium.Steady (medium : Medium) (reach : Nat) : Prop where
  serves : ∀ turn position wanted, wanted ≠ 0 →
    ∃ served, served ≠ 0 ∧ medium.serve turn position wanted = .ok served
  accepts : ∀ turn, ∀ target ≤ reach, medium.refuse turn target = none
  size_le : medium.data.size ≤ reach
  reach_lt : reach < 0x8000_0000_0000_0000

/-- Bytes in memory are a steady medium; no array is longer than a signed word can say. -/
theorem Medium.steady_ofBytes {data : ByteArray} (h : data.size < 0x8000_0000_0000_0000) :
    (Medium.ofBytes data).Steady 0x7fff_ffff_ffff_ffff where
  serves _ _ wanted hWanted := ⟨wanted, hWanted, rfl⟩
  accepts _ _ _ := rfl
  size_le := Nat.le_pred_of_lt h
  reach_lt := by decide

theorem Medium.steady_ofFlaky {data : ByteArray} {reportedSize : Option Nat} {chunk : Nat}
    (h : data.size < 0x8000_0000_0000_0000) (hChunk : chunk ≠ 0) :
    (Medium.ofFlaky data reportedSize (some chunk) none).Steady 0x7fff_ffff_ffff_ffff where
  serves _ _ wanted hWanted := ⟨min wanted chunk, by omega, rfl⟩
  accepts _ _ _ := rfl
  size_le := Nat.le_pred_of_lt h
  reach_lt := by decide

namespace Source

/-- The bytes that a read hands over lie between the positions before and after it. -/
theorem bytes_read {wanted : Nat} {source after : Source} {bytes : ByteArray}
    (h : read wanted source = .ok bytes after) :
    bytes = source.medium.data.extract source.position after.position := by
  simp only [read] at h
  split at h
  · cases h
  · cases h
    rfl

/-- A read of a steady medium succeeds, and gives no byte only where the data has ended. -/
theorem read_steady {reach wanted : Nat} {source : Source} (h : source.medium.Steady reach)
    (hWanted : wanted ≠ 0) :
    ∃ bytes after, read wanted source = .ok bytes after ∧
      (bytes.size = 0 → source.size ≤ source.position) := by
  obtain ⟨served, hServed, hServe⟩ := h.serves source.turn source.position wanted hWanted
  simp only [read, hServe]
  refine ⟨_, _, rfl, fun hEmpty => ?_⟩
  rw [ByteArray.size_extract] at hEmpty
  simp only [size] at *
  omega

theorem seek_steady {reach target : Nat} {source : Source} (h : source.medium.Steady reach)
    (hTarget : target ≤ reach) :
    ∃ after, seek (target : Int) source = .ok target after ∧ after.position = target ∧
      after.medium = source.medium := by
  have hAccept := h.accepts source.turn target hTarget
  refine ⟨{ source with position := target, turn := source.turn + 1 }, ?_, rfl, rfl⟩
  show seek (.ofNat target) source = _
  simp only [seek, hAccept]

end Source

theorem signedWord_eq {word : Nat} (h : word < 0x8000_0000_0000_0000) : signedWord word = word := by
  simp only [signedWord, if_pos h, Int.ofNat_eq_natCast]

namespace Cursor

/-- The window repeats the bytes of the medium that end where the source stands. -/
structure Exact (cursor : Cursor) : Prop where
  used_le : cursor.used ≤ cursor.window.size
  window_le : cursor.window.size ≤ cursor.source.position
  window_eq : cursor.window = cursor.source.medium.data.extract
    (cursor.source.position - cursor.window.size) cursor.source.position

/-- The cursor is exact and its next byte is the one at `offset` of a steady medium. -/
structure StandsAt (cursor : Cursor) (medium : Medium) (reach offset : Nat) : Prop where
  steady : medium.Steady reach
  medium_eq : cursor.source.medium = medium
  exact : cursor.Exact
  position_eq : cursor.position = offset
  reach_le : cursor.source.position ≤ reach
  capacity_ne : cursor.capacity ≠ 0

/-! ### Windows -/

theorem exact_withoutWindow (cursor : Cursor) (source : Source) :
    ({ cursor.withoutWindow with source } : Cursor).Exact where
  used_le := Nat.le_refl _
  window_le := Nat.zero_le _
  window_eq := ByteArray.extract_same.symm

theorem exact_read {wanted : Nat} {cursor : Cursor} {bytes : ByteArray} {source : Source}
    (h : Source.read wanted cursor.source = .ok bytes source) :
    ({ cursor with source, window := bytes, used := 0 } : Cursor).Exact := by
  obtain ⟨hPosition, -⟩ := Source.position_read h
  refine ⟨Nat.zero_le _, by show bytes.size ≤ source.position; omega, ?_⟩
  show bytes = source.medium.data.extract (source.position - bytes.size) source.position
  rw [show source.position - bytes.size = cursor.source.position by omega,
    Source.medium_read h]
  exact Source.bytes_read h

theorem Exact.used_le_position {cursor : Cursor} (h : cursor.Exact) :
    cursor.used ≤ cursor.position := by
  have := h.used_le
  have := h.window_le
  simp only [position, buffered]
  omega

theorem Exact.advance {cursor : Cursor} (h : cursor.Exact) (count : Nat) :
    (cursor.advance count).Exact :=
  ⟨Nat.min_le_right _ _, h.window_le, h.window_eq⟩

/-- A window with bytes ends inside the data. -/
theorem Exact.position_le_size {cursor : Cursor} (h : cursor.Exact)
    (hWindow : cursor.window.size ≠ 0) : cursor.source.position ≤ cursor.source.size := by
  have hSize := congrArg ByteArray.size h.window_eq
  rw [ByteArray.size_extract] at hSize
  have := h.window_le
  simp only [Source.size]
  omega

theorem Exact.fill {cursor filled : Cursor} (h : cursor.Exact)
    (hFill : fill cursor = .ok () filled) : filled.Exact := by
  unfold Cursor.fill at hFill
  split at hFill
  · cases hFill
    exact h
  · split at hFill
    · rename_i hRead
      cases hFill
      exact exact_read hRead
    · cases hFill

theorem exact_seek {target : SeekTarget} {cursor moved : Cursor} {reached : Nat}
    (h : seek target cursor = .ok reached moved) : moved.Exact := by
  simp only [seek] at h
  split at h <;> cases h
  exact exact_withoutWindow _ _

/-- Bytes of the window that are still to be used are the bytes of the data from the cursor's
position on. -/
theorem Exact.extract_window {cursor : Cursor} (h : cursor.Exact) {count : Nat}
    (hCount : count ≤ cursor.buffered) :
    cursor.window.extract cursor.used (cursor.used + count) =
      cursor.source.medium.data.extract cursor.position (cursor.position + count) := by
  have hUsed := h.used_le
  have hWindow := h.window_le
  rw [h.window_eq, ByteArray.extract_extract]
  simp only [position, buffered] at *
  congr 1 <;> omega

/-! ### Steps -/

variable {medium : Medium} {reach offset : Nat} {cursor : Cursor}

theorem standsAt_ofMedium (h : medium.Steady reach) (capacity : Nat) :
    (ofMedium medium capacity).StandsAt medium reach 0 where
  steady := h
  medium_eq := rfl
  exact := exact_withoutWindow (ofMedium medium capacity) { medium }
  position_eq := rfl
  reach_le := Nat.zero_le _
  capacity_ne := by show max capacity 16 ≠ 0; omega

/-- Bytes of the window that are to come belong to the data. -/
theorem StandsAt.buffered_le (h : cursor.StandsAt medium reach offset)
    (hBuffered : cursor.buffered ≠ 0) : offset + cursor.buffered ≤ medium.data.size := by
  have hWindow : cursor.window.size ≠ 0 := by simp only [buffered] at hBuffered; omega
  have hSize := h.exact.position_le_size hWindow
  have := h.exact.used_le
  have := h.exact.window_le
  rw [← h.position_eq, ← h.medium_eq]
  simp only [position, buffered, Source.size] at *
  omega

theorem StandsAt.le_reach (h : cursor.StandsAt medium reach offset) : offset ≤ reach := by
  have := h.reach_le
  rw [← h.position_eq]
  simp only [position]
  omega

theorem StandsAt.extract_window (h : cursor.StandsAt medium reach offset) {count : Nat}
    (hCount : count ≤ cursor.buffered) :
    cursor.window.extract cursor.used (cursor.used + count) =
      medium.data.extract offset (offset + count) := by
  rw [h.exact.extract_window hCount, h.medium_eq, h.position_eq]

/-- The window as a piece of the data: its used bytes come before the cursor and the others
after. -/
theorem StandsAt.window_eq (h : cursor.StandsAt medium reach offset) :
    ∃ first, first + cursor.used = offset ∧
      cursor.window = medium.data.extract first (offset + cursor.buffered) := by
  have hUsed := h.exact.used_le
  have hWindow := h.exact.window_le
  have hOffset := h.position_eq
  have hEq := h.exact.window_eq
  simp only [position, buffered] at hOffset
  rw [h.medium_eq, show cursor.source.position = offset + cursor.buffered by
    simp only [buffered]; omega] at hEq
  exact ⟨_, by simp only [buffered]; omega, hEq⟩

theorem StandsAt.getElem_window (h : cursor.StandsAt medium reach offset)
    (hUsed : cursor.used < cursor.window.size) :
    ∃ hOffset : offset < medium.data.size, cursor.window[cursor.used] = medium.data[offset] := by
  have hSize := h.buffered_le (by simp only [buffered]; omega)
  obtain ⟨first, rfl, hWindow⟩ := h.window_eq
  refine ⟨by simp only [buffered] at hSize; omega, ?_⟩
  simp only [hWindow, ByteArray.getElem_extract]

theorem StandsAt.advance (h : cursor.StandsAt medium reach offset) (count : Nat) :
    (cursor.advance count).StandsAt medium reach (offset + min count cursor.buffered) := by
  refine ⟨h.steady, h.medium_eq, h.exact.advance count, ?_, h.reach_le, h.capacity_ne⟩
  have := h.exact.used_le
  have := h.exact.window_le
  rw [← h.position_eq]
  simp only [Cursor.advance, position, buffered]
  omega

/-- A cursor that has just come to an offset has no window. -/
theorem standsAt_withoutWindow (h : cursor.StandsAt medium reach offset) {source : Source}
    (hMedium : source.medium = medium) (hReach : source.position ≤ reach) :
    ({ cursor.withoutWindow with source } : Cursor).StandsAt medium reach source.position where
  steady := h.steady
  medium_eq := hMedium
  exact := exact_withoutWindow cursor source
  position_eq := rfl
  reach_le := hReach
  capacity_ne := h.capacity_ne

/-- A read for a cursor without a byte in its window hands over the next bytes of the data, none
of them only where the data has ended. -/
theorem StandsAt.read (h : cursor.StandsAt medium reach offset) (hEmpty : cursor.buffered = 0)
    {wanted : Nat} (hWanted : wanted ≠ 0) :
    ∃ count source, Source.read wanted cursor.source =
        .ok (medium.data.extract offset (offset + count)) source ∧
      source.medium = medium ∧ source.position = offset + count ∧ count ≤ wanted ∧
      count ≤ medium.data.size - offset ∧ (count = 0 → medium.data.size ≤ offset) := by
  have hPlace : cursor.source.position = offset := by
    rw [← h.position_eq]; simp only [position]; omega
  obtain ⟨bytes, source, hRead, hEnd⟩ := Source.read_steady (h.medium_eq ▸ h.steady) hWanted
  obtain ⟨hPosition, hCount⟩ := Source.position_read hRead
  have hLeft := Source.size_read_le hRead
  have hBytes := Source.bytes_read hRead
  simp only [Source.size, h.medium_eq, hPlace] at hPosition hLeft hBytes hEnd
  rw [hPosition] at hBytes
  exact ⟨bytes.size, source, hBytes ▸ hRead, (Source.medium_read hRead).trans h.medium_eq,
    hPosition, hCount, hLeft, hEnd⟩

theorem StandsAt.refill (h : cursor.StandsAt medium reach offset) (hEmpty : cursor.buffered = 0)
    {bytes : ByteArray} {source : Source}
    (hRead : Source.read cursor.capacity cursor.source = .ok bytes source) :
    ({ cursor with source, window := bytes, used := 0 } : Cursor).StandsAt medium reach offset ∧
      (bytes.size = 0 ↔ medium.data.size ≤ offset) := by
  obtain ⟨count, _, hOk, hMedium, hPosition, -, hLeft, hEnd⟩ := h.read hEmpty h.capacity_ne
  cases hRead.symm.trans hOk
  have hReach := h.le_reach
  have hSize := h.steady.size_le
  have hCount : (medium.data.extract offset (offset + count)).size = count := by
    rw [ByteArray.size_extract]; omega
  refine ⟨⟨h.steady, hMedium, exact_read hRead, ?_, ?_, h.capacity_ne⟩, by omega⟩
  · show source.position - ((medium.data.extract offset (offset + count)).size - 0) = offset
    omega
  · show source.position ≤ reach
    omega

/-- Reading ahead stays where it is, and finds no byte only where the data has ended. -/
theorem StandsAt.fill (h : cursor.StandsAt medium reach offset) :
    ∃ filled, fill cursor = .ok () filled ∧ filled.StandsAt medium reach offset ∧
      (filled.buffered = 0 ↔ medium.data.size ≤ offset) := by
  by_cases hUsed : cursor.used < cursor.window.size
  · have hBuffered : cursor.buffered ≠ 0 := by simp only [buffered]; omega
    have hSize := h.buffered_le hBuffered
    exact ⟨cursor, by simp only [Cursor.fill, if_pos hUsed], h, by omega⟩
  · have hEmpty : cursor.buffered = 0 := by simp only [buffered]; omega
    obtain ⟨_, _, hRead, -⟩ := h.read hEmpty h.capacity_ne
    obtain ⟨hFilled, hEnd⟩ := h.refill hEmpty hRead
    exact ⟨_, by simp only [Cursor.fill, if_neg hUsed, hRead], hFilled, hEnd⟩

/-- Gathering gives the bytes of the data from the cursor's offset on, as many as are wanted or
are there, and moves past them. The induction is on the turns of the loop. -/
theorem StandsAt.gather (h : cursor.StandsAt medium reach offset) (wanted : Nat)
    (got : ByteArray) :
    ∃ after, gather wanted got cursor =
        (⟨got ++ medium.data.extract offset (offset + wanted), none⟩, after) ∧
      after.StandsAt medium reach (offset + min wanted (medium.data.size - offset)) := by
  fun_induction Cursor.gather wanted got cursor generalizing offset with
  | case1 got cursor =>
    refine ⟨cursor, ?_, ?_⟩
    · rw [Nat.add_zero, ByteArray.extract_same, ByteArray.append_empty]
    · rwa [Nat.zero_min, Nat.add_zero]
  | case2 wanted got cursor hWanted hBuffered count =>
    rename_i ih
    have hCount : count = min cursor.buffered wanted := rfl
    have hSize := h.buffered_le hBuffered
    have hStep := h.advance count
    rw [show min count cursor.buffered = count by omega] at hStep
    obtain ⟨after, hGather, hAfter⟩ := ih hStep
    refine ⟨after, ?_, ?_⟩
    · rw [hGather, h.extract_window (by omega), ByteArray.append_assoc,
        show offset + count + (wanted - count) = offset + wanted by omega,
        ← ByteArray.extract_eq_extract_append_extract _ (by omega) (by omega)]
    · rwa [show offset + count + min (wanted - count) (medium.data.size - (offset + count)) =
        offset + min wanted (medium.data.size - offset) by omega] at hAfter
  | case3 wanted got cursor hWanted hBuffered _ _ _ hRead =>
    obtain ⟨_, _, hOk, -⟩ := h.read (by omega) hWanted
    cases hRead.symm.trans hOk
  | case4 wanted got cursor hWanted hBuffered _ _ source hRead hNone =>
    obtain ⟨count, _, hOk, hMedium, hPosition, -, hLeft, hEnd⟩ := h.read (by omega) hWanted
    cases hRead.symm.trans hOk
    rw [ByteArray.size_extract] at hNone
    have hPast : medium.data.size ≤ offset := by omega
    refine ⟨_, by rw [extract_past hPast, ByteArray.append_empty], ?_⟩
    have hReach := h.le_reach
    have hStands := standsAt_withoutWindow h hMedium (by omega)
    rwa [show source.position = offset + min wanted (medium.data.size - offset) by omega]
      at hStands
  | case5 wanted got cursor hWanted hBuffered _ _ source hRead hSome ih =>
    obtain ⟨count, _, hOk, hMedium, hPosition, hCount, hLeft, -⟩ := h.read (by omega) hWanted
    cases hRead.symm.trans hOk
    have hReach := h.le_reach
    have hSize := h.steady.size_le
    have hBytes : (medium.data.extract offset (offset + count)).size = count := by
      rw [ByteArray.size_extract]; omega
    obtain ⟨after, hGather, hAfter⟩ := ih (standsAt_withoutWindow h hMedium (by omega))
    refine ⟨after, ?_, ?_⟩
    · rw [hGather, hBytes, hPosition, ByteArray.append_assoc,
        show offset + count + (wanted - count) = offset + wanted by omega,
        ← ByteArray.extract_eq_extract_append_extract _ (by omega) (by omega)]
    · rwa [hBytes, show source.position + min (wanted - count) (medium.data.size - source.position)
        = offset + min wanted (medium.data.size - offset) by omega] at hAfter
  | case6 _ _ _ _ _ _ _ _ hFill =>
    obtain ⟨_, hOk, -⟩ := h.fill
    cases hFill.symm.trans hOk
  | case7 wanted got cursor _ _ _ _ filled hFill hNone =>
    obtain ⟨_, hOk, hFilled, hEnd⟩ := h.fill
    cases hFill.symm.trans hOk
    have hPast := hEnd.mp hNone
    refine ⟨filled, by rw [extract_past hPast, ByteArray.append_empty], ?_⟩
    rwa [show offset + min wanted (medium.data.size - offset) = offset by omega]
  | case8 _ _ _ _ _ _ _ _ hFill _ ih =>
    obtain ⟨_, hOk, hFilled, -⟩ := h.fill
    cases hFill.symm.trans hOk
    exact ih hFilled

theorem StandsAt.readUpTo (h : cursor.StandsAt medium reach offset) (wanted : Nat) :
    ∃ after, readUpTo wanted cursor = .ok (medium.data.extract offset (offset + wanted)) after ∧
      after.StandsAt medium reach (offset + min wanted (medium.data.size - offset)) := by
  obtain ⟨after, hGather, hAfter⟩ := h.gather wanted ByteArray.empty
  exact ⟨after, by simp only [Cursor.readUpTo, hGather, ByteArray.empty_append], hAfter⟩

theorem StandsAt.readExact (h : cursor.StandsAt medium reach offset) {wanted : Nat}
    (hWanted : wanted ≤ medium.data.size - offset) :
    ∃ after, readExact wanted cursor = .ok (medium.data.extract offset (offset + wanted)) after ∧
      after.StandsAt medium reach (offset + wanted) := by
  obtain ⟨after, hRead, hAfter⟩ := h.readUpTo wanted
  rw [Nat.min_eq_left hWanted] at hAfter
  refine ⟨after, ?_, hAfter⟩
  have hSize : ¬(medium.data.extract offset (offset + wanted)).size < wanted := by
    rw [ByteArray.size_extract]; omega
  simp only [Cursor.readExact, bind, EStateM.bind, hRead, if_neg hSize, pure, EStateM.pure]

theorem StandsAt.readExact_short (h : cursor.StandsAt medium reach offset) {wanted : Nat}
    (hWanted : medium.data.size - offset < wanted) :
    ∃ after, Cursor.readExact wanted cursor = .error .endOfStream after ∧
      after.StandsAt medium reach (offset + (medium.data.size - offset)) := by
  obtain ⟨after, hRead, hAfter⟩ := h.readUpTo wanted
  rw [Nat.min_eq_right (Nat.le_of_lt hWanted)] at hAfter
  refine ⟨after, ?_, hAfter⟩
  have hSize : (medium.data.extract offset (offset + wanted)).size < wanted := by
    rw [ByteArray.size_extract]; omega
  simp only [Cursor.readExact, bind, EStateM.bind, hRead, if_pos hSize]
  rfl

theorem StandsAt.readByte (h : cursor.StandsAt medium reach offset)
    (hLeft : 1 ≤ medium.data.size - offset) :
    ∃ after, readByte cursor = .ok (medium.data[offset]?.getD 0) after ∧
      after.StandsAt medium reach (offset + 1) := by
  obtain ⟨after, hRead, hAfter⟩ := h.readExact hLeft
  refine ⟨after, ?_, hAfter⟩
  simp only [Cursor.readByte, bind, EStateM.bind, hRead, pure, EStateM.pure]
  rw [getElem?_extract (show offset + 0 < offset + 1 by omega)]
  rfl

theorem StandsAt.readByte_short (h : cursor.StandsAt medium reach offset)
    (hLeft : medium.data.size - offset < 1) :
    ∃ after, Cursor.readByte cursor = .error .endOfStream after ∧
      after.StandsAt medium reach (offset + (medium.data.size - offset)) := by
  obtain ⟨after, hRead, hAfter⟩ := h.readExact_short hLeft
  exact ⟨after, by simp only [Cursor.readByte, bind, EStateM.bind, hRead], hAfter⟩

theorem StandsAt.readPair (h : cursor.StandsAt medium reach offset)
    (hLeft : 2 ≤ medium.data.size - offset) :
    ∃ after, readPair cursor = .ok (pairAt medium.data offset) after ∧
      after.StandsAt medium reach (offset + 2) := by
  obtain ⟨after, hRead, hAfter⟩ := h.readExact hLeft
  refine ⟨after, ?_, hAfter⟩
  simp only [Cursor.readPair, bind, EStateM.bind, hRead, pure, EStateM.pure]
  rw [getElem?_extract (show offset + 0 < offset + 2 by omega),
    getElem?_extract (show offset + 1 < offset + 2 by omega)]
  rfl

theorem StandsAt.readPair_short (h : cursor.StandsAt medium reach offset)
    (hLeft : medium.data.size - offset < 2) :
    ∃ after, Cursor.readPair cursor = .error .endOfStream after ∧
      after.StandsAt medium reach (offset + (medium.data.size - offset)) := by
  obtain ⟨after, hRead, hAfter⟩ := h.readExact_short hLeft
  exact ⟨after, by simp only [Cursor.readPair, bind, EStateM.bind, hRead], hAfter⟩

theorem StandsAt.seekStart (h : cursor.StandsAt medium reach offset) {target : Nat}
    (hTarget : target ≤ reach) :
    ∃ after, seek (.fromStart target) cursor = .ok target after ∧
      after.StandsAt medium reach target := by
  obtain ⟨source, hSeek, hPosition, hMedium⟩ :=
    Source.seek_steady (h.medium_eq ▸ h.steady) hTarget
  have hReach := h.steady.reach_lt
  refine ⟨{ cursor.withoutWindow with source }, ?_, ?_⟩
  · simp only [seek, signedWord_eq (show target < 0x8000_0000_0000_0000 by omega), hSeek]
  · have hStands := standsAt_withoutWindow h (hMedium.trans h.medium_eq) (by omega)
    rwa [hPosition] at hStands

theorem StandsAt.seekEnd (h : cursor.StandsAt medium reach offset) {distance : Int} {target : Nat}
    (hDistance : medium.data.size + distance = target) (hTarget : target ≤ reach) :
    ∃ after, seek (.fromEnd distance) cursor = .ok target after ∧
      after.StandsAt medium reach target := by
  obtain ⟨source, hSeek, hPosition, hMedium⟩ :=
    Source.seek_steady (h.medium_eq ▸ h.steady) hTarget
  refine ⟨{ cursor.withoutWindow with source }, ?_, ?_⟩
  · simp only [seek, Source.size, h.medium_eq, hDistance, hSeek]
  · have hStands := standsAt_withoutWindow h (hMedium.trans h.medium_eq) (by omega)
    rwa [hPosition] at hStands

theorem StandsAt.skip (h : cursor.StandsAt medium reach offset) {count : Nat}
    (hTarget : offset + count ≤ reach) :
    ∃ after, skip count cursor = .ok () after ∧ after.StandsAt medium reach (offset + count) := by
  have hUsed := h.exact.used_le
  have hWindow := h.exact.window_le
  by_cases hCount : count ≤ cursor.buffered
  · have hStands := h.advance count
    rw [Nat.min_eq_left hCount] at hStands
    refine ⟨cursor.advance count, ?_, hStands⟩
    simp only [Cursor.skip, if_pos hCount, Cursor.advance]
    rw [Nat.min_eq_left (by simp only [buffered] at hCount; omega)]
  · have hReach := h.steady.reach_lt
    have hTotal : cursor.source.position + (count - cursor.buffered) = offset + count := by
      rw [← h.position_eq]
      simp only [position, buffered] at *
      omega
    obtain ⟨source, hSeek, hPosition, hMedium⟩ :=
      Source.seek_steady (h.medium_eq ▸ h.steady) hTarget
    refine ⟨{ cursor.withoutWindow with source }, ?_, ?_⟩
    · simp only [Cursor.skip, if_neg hCount,
        signedWord_eq (show count - cursor.buffered < 0x8000_0000_0000_0000 by omega)]
      rw [← Int.natCast_add, hTotal, hSeek]
    · have hStands := standsAt_withoutWindow h (hMedium.trans h.medium_eq) (by omega)
      rwa [hPosition] at hStands

theorem StandsAt.peekAt (h : cursor.StandsAt medium reach offset) {target : Nat}
    (hTarget : target ≤ reach) (wanted : Nat) :
    ∃ after, peekAt target wanted cursor =
        .ok (medium.data.extract target (target + wanted)) after ∧
      after.StandsAt medium reach offset := by
  by_cases hInside : cursor.source.position - cursor.window.size ≤ target ∧
      target + wanted ≤ cursor.source.position
  · refine ⟨cursor, ?_, h⟩
    simp only [Cursor.peekAt, if_pos hInside]
    rw [h.exact.window_eq, ByteArray.extract_extract, ← h.exact.window_eq, h.medium_eq]
    congr 2 <;> omega
  · obtain ⟨moved, hMove, hMoved⟩ := h.seekStart hTarget
    obtain ⟨read, hGather, hRead⟩ := hMoved.gather wanted ByteArray.empty
    obtain ⟨back, hBack, hBackStands⟩ := hRead.seekStart h.le_reach
    refine ⟨back, ?_, hBackStands⟩
    simp only [Cursor.peekAt, if_neg hInside, hMove, hGather, h.position_eq, hBack,
      ByteArray.empty_append]

/-- The data has ended where the cursor has come to its size, which need not be reported. -/
theorem StandsAt.atEnd (h : cursor.StandsAt medium reach offset)
    (hSize : ∀ size, medium.reportedSize = some size → size = medium.data.size) :
    ∃ after, atEnd cursor = .ok (decide (medium.data.size ≤ offset)) after ∧
      after.StandsAt medium reach offset := by
  by_cases hUsed : cursor.used < cursor.window.size
  · have hSome : cursor.buffered ≠ 0 := by simp only [buffered]; omega
    have hLeft := h.buffered_le hSome
    refine ⟨cursor, ?_, h⟩
    rw [decide_eq_false (by omega)]
    simp only [Cursor.atEnd, if_pos hUsed]
  · cases hReport : medium.reportedSize with
    | some size =>
      refine ⟨cursor, ?_, h⟩
      simp only [Cursor.atEnd, if_neg hUsed, Cursor.size, h.medium_eq, hReport, h.position_eq,
        hSize size hReport]
    | none =>
      obtain ⟨filled, hFill, hFilled, hEnd⟩ := h.fill
      refine ⟨filled, ?_, hFilled⟩
      simp only [Cursor.atEnd, if_neg hUsed, Cursor.size, h.medium_eq, hReport, hFill, ← hEnd]
      rfl

/-- A step through windows comes to what a step along the data comes to: the same value or the
same fault, with the cursor at the offset that is reached. -/
inductive Agrees {State Value : Type} (view : State → Cursor) (medium : Medium) (reach : Nat) :
    Result Fault State Value → Result Fault Nat Value → Prop
  | ok {value : Value} {after : State} {offset : Nat} :
      (view after).StandsAt medium reach offset →
      Agrees view medium reach (.ok value after) (.ok value offset)
  | error {fault : Fault} {after : State} {offset : Nat} :
      (view after).StandsAt medium reach offset →
      Agrees view medium reach (.error fault after) (.error fault offset)

section Agrees

variable {State Value : Type} {view : State → Cursor} {after : State}
  {plain : Result Fault Nat Value}

theorem Agrees.of_ok {value : Value} (h : Agrees view medium reach (.ok value after) plain) :
    ∃ offset, plain = .ok value offset ∧ (view after).StandsAt medium reach offset := by
  cases h with
  | ok hAfter => exact ⟨_, rfl, hAfter⟩

theorem Agrees.of_error {fault : Fault} (h : Agrees view medium reach (.error fault after) plain) :
    ∃ offset, plain = .error fault offset ∧ (view after).StandsAt medium reach offset := by
  cases h with
  | error hAfter => exact ⟨_, rfl, hAfter⟩

end Agrees

end Cursor

end FrameFeed
