import FrameFeed.Cursor

/-! How many bytes are still to come. No successful step other than a seek gives bytes back, and
using up bytes of the window leaves fewer. This bounds every loop over a stream. -/

namespace FrameFeed.Cursor

open EStateM (Result)

theorem unread_advance_le (count : Nat) (cursor : Cursor) :
    (cursor.advance count).unread ≤ cursor.unread := by
  simp only [advance, unread, buffered]
  omega

theorem unread_advance_lt {count : Nat} {cursor : Cursor} (hCount : count ≠ 0)
    (hBuffered : cursor.buffered ≠ 0) : (cursor.advance count).unread < cursor.unread := by
  simp only [advance, unread, buffered] at hBuffered ⊢
  omega

theorem unread_read {wanted : Nat} {cursor : Cursor} {bytes : ByteArray} {source : Source}
    (h : Source.read wanted cursor.source = .ok bytes source) :
    ({ cursor.withoutWindow with source } : Cursor).unread + bytes.size ≤ cursor.unread := by
  have hPosition := Source.position_read h
  have hSize := Source.size_read_le h
  have hMedium := Source.medium_read h
  simp only [withoutWindow, unread, buffered, ByteArray.size_empty, Source.size, hMedium] at *
  omega

/-- Reading ahead leaves as many bytes to come as there were. -/
theorem unread_fill {cursor filled : Cursor} (h : fill cursor = .ok () filled) :
    filled.unread = cursor.unread := by
  simp only [fill] at h
  split at h
  · cases h
    rfl
  · split at h
    · rename_i bytes source hRead
      cases h
      have hPosition := Source.position_read hRead
      have hSize := Source.size_read_le hRead
      have hMedium := Source.medium_read hRead
      simp only [unread, buffered, Source.size, hMedium] at *
      omega
    · cases h

/-- Using a byte of a window that has been read ahead leaves fewer bytes to come. -/
theorem unread_advance_one_lt {cursor filled : Cursor} (h : fill cursor = .ok () filled)
    (hIn : filled.used < filled.window.size) : (filled.advance 1).unread < cursor.unread := by
  rw [← unread_fill h]
  exact unread_advance_lt Nat.one_ne_zero (Nat.sub_ne_zero_of_lt hIn)

theorem medium_fill {cursor filled : Cursor} (h : fill cursor = .ok () filled) :
    filled.source.medium = cursor.source.medium := by
  simp only [fill] at h
  split at h
  · cases h
    rfl
  · split at h
    · rename_i hRead
      cases h
      exact Source.medium_read hRead
    · cases h

theorem medium_fill_error {cursor failed : Cursor} {fault : Fault}
    (h : fill cursor = .error fault failed) :
    failed.source.medium = cursor.source.medium := by
  simp only [fill] at h
  split at h
  · cases h
  · split at h
    · cases h
    · rename_i hRead
      cases h
      exact (Source.position_read_error hRead).2

theorem medium_gather (wanted : Nat) (got : ByteArray) (cursor : Cursor) :
    (gather wanted got cursor).2.source.medium = cursor.source.medium := by
  fun_induction gather wanted got cursor with
  | case1 => rfl
  | case2 _ _ _ _ _ _ ih => exact ih
  | case3 _ _ _ _ _ _ _ _ hRead => exact (Source.position_read_error hRead).2
  | case4 _ _ _ _ _ _ _ _ hRead _ => exact Source.medium_read hRead
  | case5 _ _ _ _ _ _ _ _ hRead _ ih => exact ih.trans (Source.medium_read hRead)
  | case6 _ _ _ _ _ _ _ _ hFill => exact medium_fill_error hFill
  | case7 _ _ _ _ _ _ _ _ hFill _ => exact medium_fill hFill
  | case8 _ _ _ _ _ _ _ _ hFill _ ih => exact ih.trans (medium_fill hFill)

/-- Gathering bytes without a failure never leaves more to come. -/
theorem unread_gather_le (wanted : Nat) (got : ByteArray) (cursor : Cursor)
    (h : (gather wanted got cursor).1.fault = none) :
    (gather wanted got cursor).2.unread ≤ cursor.unread := by
  fun_induction gather wanted got cursor with
  | case1 => exact Nat.le_refl _
  | case2 _ _ cursor _ _ count ih => exact Nat.le_trans (ih h) (unread_advance_le count cursor)
  | case3 => cases h
  | case4 _ _ _ _ _ _ _ _ hRead _ => exact Nat.le_trans (Nat.le_add_right _ _) (unread_read hRead)
  | case5 _ _ _ _ _ _ _ _ hRead _ ih =>
    exact Nat.le_trans (ih h) (Nat.le_trans (Nat.le_add_right _ _) (unread_read hRead))
  | case6 => cases h
  | case7 _ _ _ _ _ _ _ _ hFill _ => exact Nat.le_of_eq (unread_fill hFill)
  | case8 _ _ _ _ _ _ _ _ hFill _ ih => exact Nat.le_trans (ih h) (Nat.le_of_eq (unread_fill hFill))

theorem unread_readUpTo_le {wanted : Nat} {cursor after : Cursor} {bytes : ByteArray}
    (h : readUpTo wanted cursor = .ok bytes after) : after.unread ≤ cursor.unread := by
  simp only [readUpTo] at h
  split at h
  · rename_i hGather
    cases h
    have := unread_gather_le wanted ByteArray.empty cursor
    rw [hGather] at this
    exact this rfl
  · cases h

theorem unread_readPair_le {cursor after : Cursor} {value : Nat}
    (h : readPair cursor = .ok value after) : after.unread ≤ cursor.unread := by
  simp only [readPair, readExact, bind, EStateM.bind, pure, EStateM.pure] at h
  split at h
  · rename_i hExact
    cases h
    split at hExact
    · rename_i hRead
      split at hExact
      · cases hExact
      · cases hExact
        exact unread_readUpTo_le hRead
    · cases hExact
  · cases h

theorem readPair_lt {cursor after : Cursor} {value : Nat}
    (h : readPair cursor = .ok value after) : value < 65536 := by
  simp only [readPair, bind, EStateM.bind, pure, EStateM.pure] at h
  split at h
  · rename_i bytes _ _
    cases h
    have := (bytes[0]?.getD 0).toNat_lt
    have := (bytes[1]?.getD 0).toNat_lt
    omega
  · cases h

/-- After a seek, the bytes from its target on are still to come. -/
theorem unread_seek {target : SeekTarget} {cursor after : Cursor} {reached : Nat}
    (h : seek target cursor = .ok reached after) :
    after.unread = cursor.source.size - reached ∧ after.position = reached := by
  simp only [seek] at h
  split at h <;> cases h
  rename_i hSeek
  obtain ⟨_, hPosition, hMedium⟩ := Source.position_seek hSeek
  simp [unread, position, buffered, withoutWindow, Source.size, hPosition, hMedium]

theorem medium_seek {target : SeekTarget} {cursor after : Cursor} {reached : Nat}
    (h : seek target cursor = .ok reached after) :
    after.source.medium = cursor.source.medium := by
  simp only [seek] at h
  split at h <;> cases h
  rename_i hSeek
  exact (Source.position_seek hSeek).2.2

theorem reached_seek_fromStart {offset : Nat} {cursor after : Cursor} {reached : Nat}
    (h : seek (.fromStart offset) cursor = .ok reached after) : reached = offset := by
  simp only [seek] at h
  split at h <;> cases h
  rename_i hSeek
  have hTarget := (Source.position_seek hSeek).1
  simp only [signedWord] at hTarget
  split at hTarget
  · cases hTarget
    rfl
  · cases hTarget

theorem unread_peekAt_le {offset wanted : Nat} {cursor after : Cursor} {bytes : ByteArray}
    (h : peekAt offset wanted cursor = .ok bytes after) : after.unread ≤ cursor.unread := by
  simp only [peekAt] at h
  split at h
  · cases h
    exact Nat.le_refl _
  · split at h
    · cases h
    · rename_i moved hMove
      split at h
      · cases h
      · rename_i hBack
        split at h <;> cases h
        have hUnread := (unread_seek hBack).1
        have hMedium := medium_gather wanted ByteArray.empty moved
        rw [reached_seek_fromStart hBack, Source.size, hMedium, medium_seek hMove] at hUnread
        simp only [unread, position, buffered, Source.size] at *
        omega

theorem unread_skip_le {count : Nat} {cursor after : Cursor}
    (hCount : count < 0x8000_0000_0000_0000) (h : skip count cursor = .ok () after) :
    after.unread ≤ cursor.unread := by
  simp only [skip] at h
  split at h
  · cases h
    simp only [unread, buffered]
    omega
  · split at h <;> cases h
    rename_i hSeek
    obtain ⟨hTarget, hPosition, hMedium⟩ := Source.position_seek hSeek
    have hSmall : count - cursor.buffered < 0x8000_0000_0000_0000 := by omega
    simp only [signedWord, if_pos hSmall, Int.ofNat_eq_natCast] at hTarget
    simp only [unread, buffered, withoutWindow, Source.size, hPosition, hMedium,
      ByteArray.size_empty]
    omega

end FrameFeed.Cursor
