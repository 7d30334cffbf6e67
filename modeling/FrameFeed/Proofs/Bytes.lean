/-! Pieces of byte arrays and the bytes in them. -/

namespace FrameFeed

/-- A claim about every byte can be tried on all of them. -/
instance decidableForallByte (claim : UInt8 → Prop) [DecidablePred claim] :
    Decidable (∀ byte, claim byte) :=
  decidable_of_decidable_of_iff (p := ∀ bits : BitVec 8, claim ⟨bits⟩)
    ⟨fun h byte => h byte.toBitVec, fun h bits => h ⟨bits⟩⟩

variable {data : ByteArray} {start stop index : Nat}

/-- A piece that starts past the end holds nothing. -/
theorem extract_past (h : data.size ≤ start) : data.extract start stop = ByteArray.empty :=
  ByteArray.extract_eq_empty_iff.mpr (Nat.le_trans (Nat.min_le_right _ _) h)

theorem getElem?_eq_some_iff_getElem (h : index < data.size) {byte : UInt8} :
    data[index]? = some byte ↔ data[index] = byte := by
  rw [getElem?_pos data index h, Option.some.injEq]

theorem lt_size_of_getElem? {byte : UInt8} (h : data[index]? = some byte) : index < data.size := by
  rcases Nat.lt_or_ge index data.size with hIn | hOut
  · exact hIn
  · rw [getElem?_neg data index (Nat.not_lt.mpr hOut)] at h
    cases h

theorem getElem?_toList (data : ByteArray) (index : Nat) :
    data.data.toList[index]? = data[index]? := by
  by_cases hIn : index < data.size
  · rw [getElem?_pos data index hIn, List.getElem?_eq_getElem hIn]
    rfl
  · rw [getElem?_neg data index hIn, List.getElem?_eq_none (Nat.not_lt.mp hIn)]

theorem eq_of_toList {other : ByteArray} (h : data.data.toList = other.data.toList) :
    data = other :=
  ByteArray.ext (Array.toList_inj.mp h)

theorem toList_push (data : ByteArray) (byte : UInt8) :
    (data.push byte).data.toList = data.data.toList ++ [byte] := by
  rw [ByteArray.data_push, Array.toList_push]

theorem getElem?_push_of_lt (h : index < data.size) (byte : UInt8) :
    (data.push byte)[index]? = data[index]? := by
  rw [← getElem?_toList, toList_push, List.getElem?_append_left h, getElem?_toList]

theorem getElem?_push_size (data : ByteArray) (byte : UInt8) :
    (data.push byte)[data.size]? = some byte := by
  rw [← getElem?_toList, toList_push]
  exact List.getElem?_concat_length

theorem getElem?_extract (h : start + index < stop) :
    (data.extract start stop)[index]? = data[start + index]? := by
  by_cases hIn : start + index < data.size
  · rw [getElem?_pos data _ hIn, getElem?_pos _ index (by rw [ByteArray.size_extract]; omega),
      ByteArray.getElem_extract]
  · rw [getElem?_neg data _ hIn, getElem?_neg _ index (by rw [ByteArray.size_extract]; omega)]

theorem getElem?_rest (data : ByteArray) (start index : Nat) :
    (data.extract start data.size)[index]? = data[start + index]? := by
  by_cases hIn : start + index < data.size
  · exact getElem?_extract hIn
  · rw [getElem?_neg data _ hIn, getElem?_neg _ index (by rw [ByteArray.size_extract]; omega)]

theorem getElem?_append_left {other : ByteArray} (h : index < data.size) :
    (data ++ other)[index]? = data[index]? := by
  rw [getElem?_pos data _ h, getElem?_pos _ index (by rw [ByteArray.size_append]; omega),
    ByteArray.getElem_append_left h]

/-- A byte stays at its index when more bytes follow. -/
theorem getElem?_append_of_some {byte : UInt8} (h : data[index]? = some byte)
    (other : ByteArray) : (data ++ other)[index]? = some byte := by
  rw [getElem?_append_left (lt_size_of_getElem? h), h]

theorem getElem?_append_right (data other : ByteArray) (index : Nat) :
    (data ++ other)[data.size + index]? = other[index]? := by
  by_cases hIn : index < other.size
  · rw [getElem?_pos other _ hIn, getElem?_pos _ _ (by rw [ByteArray.size_append]; omega),
      ByteArray.getElem_append_right (Nat.le_add_right _ _)]
    simp only [Nat.add_sub_cancel_left]
  · rw [getElem?_neg other _ hIn, getElem?_neg _ _ (by rw [ByteArray.size_append]; omega)]

theorem extract_eq_extract {other : ByteArray} {start' count : Nat}
    (hLeft : start + count ≤ data.size) (hRight : start' + count ≤ other.size)
    (h : ∀ index < count, data[start + index]? = other[start' + index]?) :
    data.extract start (start + count) = other.extract start' (start' + count) := by
  apply ByteArray.ext_getElem
  · simp only [ByteArray.size_extract]
    omega
  · intro index hIn hIn'
    rw [ByteArray.size_extract] at hIn
    have hByte := h index (by omega)
    rw [getElem?_pos data _ (by omega), getElem?_pos other _ (by omega)] at hByte
    simpa only [ByteArray.getElem_extract] using Option.some.inj hByte

/-- A piece ends with the whole. -/
theorem extract_min (data : ByteArray) (start stop : Nat) :
    data.extract start (min stop data.size) = data.extract start stop := by
  apply ByteArray.ext_getElem
  · simp only [ByteArray.size_extract]
    omega
  · intro index hLeft hRight
    simp only [ByteArray.getElem_extract]

/-- The number that the two bytes at an index stand for, the more significant one first. -/
def pairAt (data : ByteArray) (index : Nat) : Nat :=
  256 * (data[index]?.getD 0).toNat + (data[index + 1]?.getD 0).toNat

theorem pairAt_lt (data : ByteArray) (index : Nat) : pairAt data index < 65536 := by
  have := (data[index]?.getD 0).toNat_lt
  have := (data[index + 1]?.getD 0).toNat_lt
  simp only [pairAt]
  omega

end FrameFeed
