import FrameFeed.Proofs.StartCode.Search
import FrameFeed.Proofs.Steps

/-! The search in memory and the scan through windows find the same start code. The one looks for
the first zero of a start code, the other counts zeros and looks for the one that closes it; both
find the first one that two zeros or more come right before. -/

namespace FrameFeed.StartCode

open EStateM (Result)

/-- The number of zeros that come right before an index. -/
def zerosBefore (data : ByteArray) : Nat → Nat
  | 0 => 0
  | index + 1 => if data[index]? = some 0 then zerosBefore data index + 1 else 0

/-- A one at an index that two zeros or more come right before. -/
def Closes (data : ByteArray) (index : Nat) : Prop :=
  data[index]? = some 1 ∧ 2 ≤ zerosBefore data index

/-- A start code that is closed by the first one that closes any. Its zeros are those before that
one, but for three of them at the most. -/
structure IsFirst (data : ByteArray) (code : StartCode) : Prop where
  closes : Closes data (code.offset + code.zeros)
  zeros_eq : code.zeros = min 3 (zerosBefore data (code.offset + code.zeros))
  first : ∀ index < code.offset + code.zeros, ¬Closes data index

variable {data : ByteArray} {index : Nat}

/-! ### Counting zeros -/

/-- A scan that goes on with the right count stops at the first one that closes a start code. -/
theorem scanWindow_found {zeros place counted : Nat}
    (h : scanWindow data index zeros = .found place counted)
    (hZeros : zeros = min 3 (zerosBefore data index)) :
    Closes data place ∧ counted = min 3 (zerosBefore data place) ∧
      ∀ earlier, index ≤ earlier → earlier < place → ¬Closes data earlier := by
  fun_induction scanWindow data index zeros with
  | case1 index zeros hSize hZero ih =>
    have hByte := (getElem?_eq_some_iff_getElem hSize).mpr hZero
    obtain ⟨hCloses, hCounted, hFirst⟩ := ih h (by
      simp only [zerosBefore, if_pos hByte, maxZeros]
      omega)
    refine ⟨hCloses, hCounted, fun earlier hLow hHigh => ?_⟩
    rcases Nat.eq_or_lt_of_le hLow with rfl | hLater
    · rintro ⟨hOne, -⟩
      cases hByte.symm.trans hOne
    · exact hFirst earlier hLater hHigh
  | case2 index zeros hSize hZero hOne =>
    cases h
    refine ⟨⟨(getElem?_eq_some_iff_getElem hSize).mpr hOne.1, by omega⟩, hZeros, ?_⟩
    intro earlier hLow hHigh
    omega
  | case3 index zeros hSize hZero hOne ih =>
    have hByte : data[index]? ≠ some 0 := mt (getElem?_eq_some_iff_getElem hSize).mp hZero
    obtain ⟨hCloses, hCounted, hFirst⟩ := ih h (by simp only [zerosBefore, if_neg hByte]; rfl)
    refine ⟨hCloses, hCounted, fun earlier hLow hHigh => ?_⟩
    rcases Nat.eq_or_lt_of_le hLow with rfl | hLater
    · rintro ⟨hHere, hTwo⟩
      exact hOne ⟨(getElem?_eq_some_iff_getElem hSize).mp hHere, by omega⟩
    · exact hFirst earlier hLater hHigh
  | case4 => cases h

theorem scanWindow_exhausted {zeros counted : Nat}
    (h : scanWindow data index zeros = .exhausted counted)
    (hZeros : zeros = min 3 (zerosBefore data index)) {later : Nat} (hLater : index ≤ later) :
    ¬Closes data later := by
  fun_induction scanWindow data index zeros with
  | case1 index zeros hSize hZero ih =>
    have hByte := (getElem?_eq_some_iff_getElem hSize).mpr hZero
    rcases Nat.eq_or_lt_of_le hLater with rfl | hAfter
    · rintro ⟨hOne, -⟩
      cases hByte.symm.trans hOne
    · exact ih h (by simp only [zerosBefore, if_pos hByte, maxZeros]; omega) hAfter
  | case2 => cases h
  | case3 index zeros hSize hZero hOne ih =>
    have hByte : data[index]? ≠ some 0 := mt (getElem?_eq_some_iff_getElem hSize).mp hZero
    rcases Nat.eq_or_lt_of_le hLater with rfl | hAfter
    · rintro ⟨hHere, hTwo⟩
      exact hOne ⟨(getElem?_eq_some_iff_getElem hSize).mp hHere, by omega⟩
    · exact ih h (by simp only [zerosBefore, if_neg hByte]; rfl) hAfter
  | case4 index zeros hSize =>
    rintro ⟨hOne, -⟩
    have := lt_size_of_getElem? hOne
    omega

/-- The search in memory comes to what a scan of all the data comes to. -/
theorem find?_eq_code? (data : ByteArray) : find? data = (scanWindow data 0 0).code? :=
  (code?_scanWindow (Nat.zero_le _) (Nat.zero_le _) fun _ _ hHigh =>
    absurd hHigh (Nat.not_lt_zero _)).symm

theorem find?_eq_none_iff : find? data = none ↔ ∀ index, ¬Closes data index := by
  rw [find?_eq_code?]
  cases hScan : scanWindow data 0 0 with
  | found place counted =>
    obtain ⟨hCloses, -⟩ := scanWindow_found hScan rfl
    simp only [WindowScan.code?, reduceCtorEq, false_iff]
    exact fun hNone => hNone place hCloses
  | exhausted counted =>
    simp only [WindowScan.code?, true_iff]
    exact fun later => scanWindow_exhausted hScan rfl (Nat.zero_le later)

theorem IsFirst.eq {code other : StartCode} (h : IsFirst data code) (hOther : IsFirst data other) :
    code = other := by
  have hPlace : code.offset + code.zeros = other.offset + other.zeros := by
    rcases Nat.lt_trichotomy (code.offset + code.zeros) (other.offset + other.zeros) with
      hLess | hEq | hGreater
    · exact absurd h.closes (hOther.first _ hLess)
    · exact hEq
    · exact absurd hOther.closes (h.first _ hGreater)
  have hZeros : code.zeros = other.zeros := by
    rw [h.zeros_eq, hOther.zeros_eq, hPlace]
  obtain ⟨offset, zeros⟩ := code
  obtain ⟨offset', zeros'⟩ := other
  simp only [StartCode.mk.injEq] at *
  omega

theorem find?_eq_some_iff {code : StartCode} : find? data = some code ↔ IsFirst data code := by
  have hSound : ∀ found, find? data = some found → IsFirst data found := by
    intro found hFound
    rw [find?_eq_code?] at hFound
    cases hScan : scanWindow data 0 0 with
    | found place counted =>
      rw [hScan] at hFound
      cases hFound
      obtain ⟨hCloses, hCounted, hFirst⟩ := scanWindow_found hScan rfl
      have hPlace := Nat.sub_add_cancel (scanWindow_zeros_le hScan (Nat.zero_le _))
      constructor <;> simp only [hPlace]
      · exact hCloses
      · exact hCounted
      · exact fun earlier hEarlier => hFirst earlier (Nat.zero_le _) hEarlier
    | exhausted counted =>
      rw [hScan] at hFound
      cases hFound
  refine ⟨hSound code, fun hFirst => ?_⟩
  cases hFound : find? data with
  | none => exact absurd hFirst.closes (find?_eq_none_iff.mp hFound _)
  | some found => rw [hFirst.eq (hSound found hFound)]

/-! ### The rest of the data -/

theorem begins_rest (data : ByteArray) (start index : Nat) :
    Begins (data.extract start data.size) index ↔ Begins data (start + index) := by
  simp only [Begins, getElem?_rest, Nat.add_assoc]

/-- The start code as it stands in data that some bytes come before. -/
def shift (start : Nat) (code : StartCode) : StartCode := ⟨start + code.offset, code.zeros⟩

/-- A search in the rest of the data is a search in the data from where the rest begins. -/
theorem findFrom?_rest (data : ByteArray) (start index : Nat) :
    findFrom? data (start + index) =
      (findFrom? (data.extract start data.size) index).map (shift start) := by
  induction hLeft : data.size - (start + index) using Nat.strongRecOn generalizing index with
  | ind left ih =>
    have hIff := begins_rest data start index
    by_cases hBegins : Begins data (start + index)
    · rw [findFrom?_begins hBegins, findFrom?_begins (hIff.mpr hBegins), getElem?_rest]
      rfl
    · rcases Nat.lt_or_ge (start + index) data.size with hIn | hOut
      · rw [findFrom?_next hBegins, findFrom?_next (mt hIff.mp hBegins)]
        exact ih _ (by omega) (index + 1) rfl
      · rw [findFrom?_past hOut, findFrom?_past (by rw [ByteArray.size_extract]; omega)]
        rfl

theorem findFrom?_eq_shift (data : ByteArray) (start : Nat) :
    findFrom? data start = (find? (data.extract start data.size)).map (shift start) :=
  findFrom?_rest data start 0

theorem findFrom?_eq_some_iff {start : Nat} {code : StartCode} :
    findFrom? data start = some code ↔ start ≤ code.offset ∧
      find? (data.extract start data.size) = some ⟨code.offset - start, code.zeros⟩ := by
  rw [findFrom?_eq_shift, Option.map_eq_some_iff]
  constructor
  · rintro ⟨found, hFound, rfl⟩
    refine ⟨Nat.le_add_right _ _, ?_⟩
    simp only [shift, Nat.add_sub_cancel_left]
    exact hFound
  · rintro ⟨hLow, hFound⟩
    refine ⟨_, hFound, ?_⟩
    simp only [shift, Nat.add_sub_cancel' hLow]

theorem findFrom?_eq_none_iff {start : Nat} :
    findFrom? data start = none ↔ find? (data.extract start data.size) = none := by
  rw [findFrom?_eq_shift, Option.map_eq_none_iff]

/-! ### Both searches -/

variable {medium : Medium} {reach offset : Nat} {cursor : Cursor}

/-- The scan through windows from an offset inside the data and the search in memory of the data
from there on agree. The scan gives a start code just when the search gives it, counted from that
offset, and the cursor is then past it; it gives none just when the search does, and the cursor is
then at the end. What they find is closed by the first one that two zeros or more come right before,
no zero before the offset being counted, and has three of those zeros at the most. -/
theorem searches_agree (h : cursor.StandsAt medium reach offset)
    (hInside : offset ≤ medium.data.size) :
    (∀ code, resultOf (scan cursor) = .ok (some code) ↔ offset ≤ code.offset ∧
      find? (medium.data.extract offset medium.data.size) =
        some ⟨code.offset - offset, code.zeros⟩) ∧
    (∀ code, resultOf (scan cursor) = .ok (some code) →
      (stateOf (scan cursor)).position = code.offset + code.zeros + 1) ∧
    (resultOf (scan cursor) = .ok none ↔
      find? (medium.data.extract offset medium.data.size) = none) ∧
    (resultOf (scan cursor) = .ok none →
      (stateOf (scan cursor)).position = medium.data.size) ∧
    (∀ code, find? (medium.data.extract offset medium.data.size) = some code ↔
      IsFirst (medium.data.extract offset medium.data.size) code) ∧
    (find? (medium.data.extract offset medium.data.size) = none ↔
      ∀ index, ¬Closes (medium.data.extract offset medium.data.size) index) := by
  obtain ⟨after, hScan, hAfter⟩ := scan_standsAt h
  have hResult : resultOf (scan cursor) = .ok (findFrom? medium.data offset) := by
    rw [hScan]
    rfl
  have hState : stateOf (scan cursor) = after := by
    rw [hScan]
    rfl
  rw [hResult, hState]
  simp only [Except.ok.injEq]
  refine ⟨fun code => findFrom?_eq_some_iff, fun code hCode => ?_, findFrom?_eq_none_iff,
    fun hNone => ?_, fun code => find?_eq_some_iff, find?_eq_none_iff⟩
  · rw [hCode] at hAfter
    exact hAfter.position_eq
  · rw [hNone, Nat.max_eq_right hInside] at hAfter
    exact hAfter.position_eq

/-- A one after five zeros, handed over in twos. -/
def fiveZeros : Medium := .ofFlaky ⟨#[0x65, 0, 0, 0, 0, 0, 1, 0x65]⟩ (some 8) (some 2) none

/-- The cursor stands behind the third zero. -/
def fiveZerosCut : Cursor := stateOf (Cursor.seek (.fromStart 4) (.ofMedium fiveZeros 16))

theorem fiveZerosCut_standsAt : fiveZerosCut.StandsAt fiveZeros 0x7fff_ffff_ffff_ffff 4 := by
  have hSteady : fiveZeros.Steady 0x7fff_ffff_ffff_ffff :=
    Medium.steady_ofFlaky (by decide) (by decide)
  obtain ⟨after, hSeek, hAfter⟩ :=
    (Cursor.standsAt_ofMedium hSteady 16).seekStart (show 4 ≤ _ by decide)
  rwa [fiveZerosCut, hSeek]

theorem searches_agree_fiveZerosCut :
    resultOf (scan fiveZerosCut) = .ok (some ⟨4, 2⟩) ∧
      (stateOf (scan fiveZerosCut)).position = 7 := by
  have hFound : find? (fiveZeros.data.extract 4 fiveZeros.data.size) = some ⟨0, 2⟩ := by
    decide +kernel
  obtain ⟨hAgree, hPosition, -⟩ := searches_agree fiveZerosCut_standsAt (by decide)
  have hCode := (hAgree ⟨4, 2⟩).mpr ⟨Nat.le_refl _, hFound⟩
  exact ⟨hCode, hPosition _ hCode⟩

end FrameFeed.StartCode
