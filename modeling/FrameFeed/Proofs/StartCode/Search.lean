import FrameFeed.Proofs.Cursor.Standing
import FrameFeed.StartCode.Scan

/-! The search for start codes. Whether a start code begins at an index of the data is a matter of
four bytes. A search in memory finds the first such index at or after its own, and a scan through
windows, which counts zeros, finds the same one. -/

namespace FrameFeed.StartCode

open EStateM (Result)

/-- A start code begins at an index: two or three zeros and a one. -/
def Begins (data : ByteArray) (index : Nat) : Prop :=
  data[index]? = some 0 ∧ data[index + 1]? = some 0 ∧
    (data[index + 2]? = some 1 ∨ data[index + 2]? = some 0 ∧ data[index + 3]? = some 1)

instance (data : ByteArray) (index : Nat) : Decidable (Begins data index) :=
  inferInstanceAs (Decidable (_ ∧ _ ∧ (_ ∨ _ ∧ _)))

variable {data : ByteArray} {index : Nat}

theorem Begins.lt_size (h : Begins data index) : index + 2 < data.size := by
  obtain ⟨-, -, hOne | ⟨hZero, -⟩⟩ := h
  · exact lt_size_of_getElem? hOne
  · exact lt_size_of_getElem? hZero

theorem Begins.one (h : Begins data index) :
    ∃ place, (place = index + 2 ∨ place = index + 3) ∧ data[place]? = some 1 := by
  obtain ⟨-, -, hOne | ⟨-, hOne⟩⟩ := h
  · exact ⟨_, .inl rfl, hOne⟩
  · exact ⟨_, .inr rfl, hOne⟩

theorem findFrom?_begins (h : Begins data index) :
    findFrom? data index = some ⟨index, if data[index + 2]? = some 1 then 2 else 3⟩ := by
  have hSize := h.lt_size
  obtain ⟨hFirst, hSecond, hThird⟩ := h
  rw [findFrom?, dif_pos hSize]
  simp only [← getElem?_eq_some_iff_getElem, hFirst, hSecond, true_and]
  rcases hThird with hThird | ⟨hThird, hFourth⟩
  · simp [hThird]
  · simp [hThird, hFourth]

theorem findFrom?_next (h : ¬Begins data index) :
    findFrom? data index = findFrom? data (index + 1) := by
  by_cases hSize : index + 2 < data.size
  · rw [findFrom?, dif_pos hSize]
    simp only [← getElem?_eq_some_iff_getElem]
    rw [if_neg fun ⟨hFirst, hSecond, hThird⟩ => h ⟨hFirst, hSecond, .inr hThird⟩,
      if_neg fun ⟨hFirst, hSecond, hThird⟩ => h ⟨hFirst, hSecond, .inl hThird⟩]
  · rw [findFrom?, dif_neg hSize, findFrom?, dif_neg (by omega)]

theorem findFrom?_past (h : data.size ≤ index) : findFrom? data index = none := by
  rw [findFrom?, dif_neg (by omega)]

/-- Indices where no start code begins can be left out of the search. -/
theorem findFrom?_skip {stop : Nat} (hLe : index ≤ stop)
    (h : ∀ j, index ≤ j → j < stop → ¬Begins data j) :
    findFrom? data index = findFrom? data stop := by
  induction hLe with
  | refl => rfl
  | step hLe ih =>
    rw [ih fun j hLow hHigh => h j hLow (by omega), findFrom?_next (h _ hLe (by omega))]

/-- What the search finds is the first place at or after its index where a start code begins. -/
theorem findFrom?_sound {code : StartCode} (h : findFrom? data index = some code) :
    index ≤ code.offset ∧ Begins data code.offset ∧
      ∀ j, index ≤ j → j < code.offset → ¬Begins data j := by
  induction hLeft : data.size - index using Nat.strongRecOn generalizing index with
  | ind left ih =>
    by_cases hBegins : Begins data index
    · rw [findFrom?_begins hBegins] at h
      cases h
      exact ⟨Nat.le_refl _, hBegins, fun j hLow hHigh => absurd hHigh (Nat.not_lt.mpr hLow)⟩
    · rcases Nat.lt_or_ge index data.size with hIn | hOut
      · rw [findFrom?_next hBegins] at h
        obtain ⟨hLow, hAt, hBefore⟩ := ih _ (by omega) h rfl
        refine ⟨by omega, hAt, fun j hIndex hHigh => ?_⟩
        rcases Nat.eq_or_lt_of_le hIndex with rfl | hLater
        · exact hBegins
        · exact hBefore j hLater hHigh
      · rw [findFrom?_past hOut] at h
        cases h

/-- A search that begins between the index of another and what that finds, finds the same. -/
theorem findFrom?_between {code : StartCode} {start : Nat} (h : findFrom? data index = some code)
    (hLow : index ≤ start) (hHigh : start ≤ code.offset) : findFrom? data start = some code := by
  obtain ⟨-, -, hBefore⟩ := findFrom?_sound h
  rw [← findFrom?_skip hLow fun j hIndex hStart => hBefore j hIndex (by omega), h]

/-! ### Scans -/

/-- What a scan of the whole data has found. -/
def WindowScan.code? : WindowScan → Option StartCode
  | .found index zeros => some ⟨index - zeros, zeros⟩
  | .exhausted _ => none

section Counted

variable {zeros : Nat} (hMax : zeros ≤ maxZeros) (hIndex : zeros ≤ index)
  (hZeros : ∀ j, index - zeros ≤ j → j < index → data[j]? = some 0)

include hMax hIndex hZeros

/-- After counted zeros, a byte that ends no start code rules out those that would begin at one of
the zeros or at the byte. -/
theorem not_begins_of_counted {byte : UInt8} (hByte : data[index]? = some byte)
    (hZero : byte ≠ 0) (hOne : ¬(byte = 1 ∧ 2 ≤ zeros)) {j : Nat} (hLow : index - zeros ≤ j)
    (hHigh : j < index + 1) : ¬Begins data j := by
  rintro ⟨hFirst, hSecond, hThird⟩
  have hMax : zeros ≤ 3 := hMax
  obtain rfl | rfl | rfl | rfl :
      index = j ∨ index = j + 1 ∨ index = j + 2 ∨ index = j + 3 := by omega
  · exact hZero (Option.some.inj (hByte.symm.trans hFirst))
  · exact hZero (Option.some.inj (hByte.symm.trans hSecond))
  · rcases hThird with hThird | ⟨hThird, -⟩
    · exact hOne ⟨Option.some.inj (hByte.symm.trans hThird), by omega⟩
    · exact hZero (Option.some.inj (hByte.symm.trans hThird))
  · rcases hThird with hThird | ⟨-, hFourth⟩
    · cases hThird.symm.trans (hZeros (j + 2) (by omega) (by omega))
    · exact hOne ⟨Option.some.inj (hByte.symm.trans hFourth), by omega⟩

/-- After two counted zeros or more, a one ends the start code that begins at the first of them. -/
theorem findFrom?_counted (hByte : data[index]? = some 1) (hTwo : 2 ≤ zeros) :
    findFrom? data (index - zeros) = some ⟨index - zeros, zeros⟩ := by
  have hMax : zeros ≤ 3 := hMax
  have hFirst := hZeros (index - zeros) (Nat.le_refl _) (by omega)
  have hSecond := hZeros (index - zeros + 1) (by omega) (by omega)
  obtain rfl | rfl : zeros = 2 ∨ zeros = 3 := by omega
  · have hThird : data[index - 2 + 2]? = some 1 := by rwa [Nat.sub_add_cancel hIndex]
    rw [findFrom?_begins ⟨hFirst, hSecond, .inl hThird⟩, if_pos hThird]
  · have hThird := hZeros (index - 3 + 2) (by omega) (by omega)
    have hFourth : data[index - 3 + 3]? = some 1 := by rwa [Nat.sub_add_cancel hIndex]
    rw [findFrom?_begins ⟨hFirst, hSecond, .inr ⟨hThird, hFourth⟩⟩, if_neg (by simp [hThird])]

/-- A scan that has counted the zeros before its index finds what a search from the first of them
finds. Of more than three zeros only the last three are counted; no start code begins at those
before them. -/
theorem code?_scanWindow :
    (scanWindow data index zeros).code? = findFrom? data (index - zeros) := by
  fun_induction scanWindow data index zeros with
  | case1 index zeros hSize hZero ih =>
    have hMax : zeros ≤ 3 := hMax
    have hByte := (getElem?_eq_some_iff_getElem hSize).mpr hZero
    have hMore : ∀ j, index + 1 - min (zeros + 1) maxZeros ≤ j → j < index + 1 →
        data[j]? = some 0 := by
      intro j hLow hHigh
      rcases Nat.eq_or_lt_of_le (Nat.le_of_lt_succ hHigh) with rfl | hBefore
      · exact hByte
      · exact hZeros j (by simp only [maxZeros] at hLow; omega) hBefore
    rw [ih (Nat.min_le_right _ _) (by omega) hMore]
    refine (findFrom?_skip (by simp only [maxZeros]; omega) fun j hLow hHigh hBegins => ?_).symm
    obtain ⟨place, hPlace, hOne⟩ := hBegins.one
    simp only [maxZeros] at hMore hHigh
    cases hOne.symm.trans (hMore place (by omega) (by omega))
  | case2 index zeros hSize hZero hOne =>
    exact (findFrom?_counted hMax hIndex hZeros
      ((getElem?_eq_some_iff_getElem hSize).mpr hOne.1) hOne.2).symm
  | case3 index zeros hSize hZero hOne ih =>
    rw [ih (Nat.zero_le _) (Nat.zero_le _) fun j hLow hHigh => absurd hHigh (by omega)]
    refine (findFrom?_skip (by omega) fun j hLow hHigh => ?_).symm
    exact not_begins_of_counted hMax hIndex hZeros (getElem?_pos data index hSize) hZero hOne
      hLow hHigh
  | case4 index zeros hSize =>
    have hNone : ∀ j, index - zeros ≤ j → j < index → ¬Begins data j := by
      intro j hLow hHigh hBegins
      obtain ⟨place, hPlace, hOne⟩ := hBegins.one
      have hIn := lt_size_of_getElem? hOne
      cases hOne.symm.trans (hZeros place (by omega) (by omega))
    rw [findFrom?_skip (Nat.sub_le _ _) hNone, findFrom?_past (by omega)]
    rfl

end Counted

/-! ### Windows -/

/-- A scan of a piece of the data is a scan of the data that goes on after the piece. -/
theorem scanWindow_extract {first last : Nat} (zeros : Nat) (hLast : last ≤ data.size)
    (hIndex : first + index ≤ last) :
    scanWindow data (first + index) zeros =
      match scanWindow (data.extract first last) index zeros with
      | .found found counted => .found (first + found) counted
      | .exhausted counted => scanWindow data last counted := by
  have hSize : (data.extract first last).size = last - first := by
    rw [ByteArray.size_extract]; omega
  fun_induction scanWindow (data.extract first last) index zeros with
  | case1 index zeros hIn hZero ih =>
    rw [ByteArray.getElem_extract] at hZero
    rw [scanWindow, dif_pos (by omega), if_pos hZero]
    exact ih (by omega)
  | case2 index zeros hIn hZero hOne =>
    rw [ByteArray.getElem_extract] at hZero hOne
    rw [scanWindow, dif_pos (by omega), if_neg hZero, if_pos hOne]
  | case3 index zeros hIn hZero hOne ih =>
    rw [ByteArray.getElem_extract] at hZero hOne
    rw [scanWindow, dif_pos (by omega), if_neg hZero, if_neg hOne]
    exact ih (by omega)
  | case4 index zeros hIn =>
    rw [show first + index = last by omega]

/-- The zeros that a scan counts before a one have come before it. -/
theorem scanWindow_zeros_le {zeros found counted : Nat}
    (h : scanWindow data index zeros = .found found counted) (hZeros : zeros ≤ index) :
    counted ≤ found := by
  fun_induction scanWindow data index zeros with
  | case1 index zeros _ _ ih => exact ih h (by omega)
  | case2 index zeros => cases h; exact hZeros
  | case3 index zeros _ _ _ ih => exact ih h (Nat.zero_le _)
  | case4 => cases h

/-- Where a scan of data of a size leaves off, if it began at an offset. -/
def WindowScan.stop (offset size : Nat) : WindowScan → Nat
  | .found index _ => index + 1
  | .exhausted _ => max offset size

/-- Inside the data, where a scan began has no say in where it leaves off. -/
theorem WindowScan.stop_eq {offset start size : Nat} (hOffset : offset ≤ size)
    (hStart : start ≤ size) (scan : WindowScan) : scan.stop start size = scan.stop offset size := by
  cases scan with
  | found => rfl
  | exhausted =>
    show max start size = max offset size
    omega

variable {medium : Medium} {reach offset : Nat} {cursor : Cursor}

/-- A scan of the window of a cursor is a scan of the data from where the cursor stands. -/
theorem scanWindow_standsAt {zeros : Nat} (h : cursor.StandsAt medium reach offset)
    (hBuffered : cursor.buffered ≠ 0) :
    scanWindow medium.data offset zeros =
      match scanWindow cursor.window cursor.used zeros with
      | .found index counted => .found (offset + (index - cursor.used)) counted
      | .exhausted counted => scanWindow medium.data (offset + cursor.buffered) counted := by
  obtain ⟨first, rfl, hWindow⟩ := h.window_eq
  have hSize := h.buffered_le hBuffered
  rw [scanWindow_extract zeros hSize (Nat.le_add_right _ _), ← hWindow]
  cases hScan : scanWindow cursor.window cursor.used zeros with
  | found index counted =>
    obtain ⟨hLow, -⟩ := scanWindow_bounds hScan
    simp only
    congr 1
    omega
  | exhausted counted => rfl

/-- A scan through windows comes to what a scan of the whole data comes to. The induction is on
the windows; each one hands its count of zeros to the next. -/
theorem scanFrom_standsAt (zeros : Nat) (h : cursor.StandsAt medium reach offset) :
    ∃ after, scanFrom zeros cursor = .ok (scanWindow medium.data offset zeros).code? after ∧
      after.StandsAt medium reach
        ((scanWindow medium.data offset zeros).stop offset medium.data.size) := by
  fun_induction scanFrom zeros cursor generalizing offset with
  | case1 zeros cursor fault failed hFill =>
    obtain ⟨_, hOk, -⟩ := h.fill
    cases hFill.symm.trans hOk
  | case2 zeros cursor _ filled hFill hEmpty =>
    obtain ⟨_, hOk, hFilled, hEnd⟩ := h.fill
    cases hFill.symm.trans hOk
    have hPast := hEnd.mp hEmpty
    rw [scanWindow, dif_neg (by omega)]
    refine ⟨filled, rfl, ?_⟩
    rwa [WindowScan.stop, Nat.max_eq_left hPast]
  | case3 zeros cursor _ filled hFill hSome index counted hFound =>
    obtain ⟨_, hOk, hFilled, -⟩ := h.fill
    cases hFill.symm.trans hOk
    obtain ⟨hLow, hHigh⟩ := scanWindow_bounds hFound
    rw [scanWindow_standsAt hFilled hSome, hFound]
    refine ⟨_, by rw [hFilled.position_eq]; rfl, ?_⟩
    have hStands := hFilled.advance (index - filled.used + 1)
    rwa [Nat.min_eq_left (by simp only [Cursor.buffered]; omega)] at hStands
  | case4 zeros cursor _ filled hFill hSome counted hExhausted _ ih =>
    obtain ⟨_, hOk, hFilled, -⟩ := h.fill
    cases hFill.symm.trans hOk
    have hStands := hFilled.advance filled.buffered
    rw [Nat.min_self] at hStands
    obtain ⟨after, hScan, hAfter⟩ := ih hStands
    rw [scanWindow_standsAt hFilled hSome, hExhausted]
    refine ⟨after, hScan, ?_⟩
    have hSize := hFilled.buffered_le hSome
    rw [WindowScan.stop_eq (Nat.le_of_add_right_le hSize) hSize] at hAfter
    exact hAfter

/-- The next start code is the one that a search in memory finds; the cursor is past it
afterwards, or at the end if there is none. -/
theorem scan_standsAt (h : cursor.StandsAt medium reach offset) :
    ∃ after, scan cursor = .ok (findFrom? medium.data offset) after ∧
      after.StandsAt medium reach (match findFrom? medium.data offset with
        | some code => code.nalOffset
        | none => max offset medium.data.size) := by
  obtain ⟨after, hScan, hAfter⟩ := scanFrom_standsAt 0 h
  have hCode : (scanWindow medium.data offset 0).code? = findFrom? medium.data offset :=
    code?_scanWindow (Nat.zero_le _) (Nat.zero_le _) fun j hLow hHigh =>
      absurd hHigh (Nat.not_lt.mpr hLow)
  refine ⟨after, hCode ▸ hScan, ?_⟩
  rw [← hCode]
  cases hInside : scanWindow medium.data offset 0 with
  | found index counted =>
    have hZeros := scanWindow_zeros_le hInside (Nat.zero_le _)
    rw [hInside] at hAfter
    simp only [WindowScan.code?, nalOffset, Nat.sub_add_cancel hZeros]
    exact hAfter
  | exhausted counted =>
    rw [hInside] at hAfter
    exact hAfter

end FrameFeed.StartCode
