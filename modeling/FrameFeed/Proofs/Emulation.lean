import FrameFeed.Emulation
import FrameFeed.Proofs.Bytes
import Mathlib.Data.List.Basic

/-! Which bytes emulation prevention takes out: each 3 whose two bytes right before it are zeros,
and no other. The removal counts zeros among the bytes as they stand, and a 3 that is taken out ends
a run of zeros like any other byte. So it takes out just what the insertion puts in. -/

namespace FrameFeed.Emulation

/-- The two bytes right before an index are zeros. -/
def FollowsZeros (data : ByteArray) (index : Nat) : Prop :=
  2 ≤ index ∧ data[index - 2]? = some 0 ∧ data[index - 1]? = some 0

instance (data : ByteArray) (index : Nat) : Decidable (FollowsZeros data index) :=
  inferInstanceAs (Decidable (_ ∧ _ ∧ _))

/-- The byte at an index is there to prevent a start code. -/
def Prevents (data : ByteArray) (index : Nat) : Prop :=
  FollowsZeros data index ∧ data[index]? = some 3

instance (data : ByteArray) (index : Nat) : Decidable (Prevents data index) :=
  inferInstanceAs (Decidable (_ ∧ _))

/-- The byte at an index, if it belongs to the payload. -/
def payloadAt (data : ByteArray) (index : Nat) : Option UInt8 :=
  if Prevents data index then none else data[index]?

/-- The bytes of the payload from an index on. -/
def payloadFrom (data : ByteArray) (index : Nat) : List UInt8 :=
  (List.range' index (data.size - index)).filterMap (payloadAt data)

def EndsInZeros (out : ByteArray) : Prop := FollowsZeros out out.size

instance (out : ByteArray) : Decidable (EndsInZeros out) :=
  inferInstanceAs (Decidable (FollowsZeros _ _))

/-- Puts a byte behind others; if it is 3 or less and would follow two zeros, a 3 goes between. -/
def protectByte (out : ByteArray) (byte : UInt8) : ByteArray :=
  if byte ≤ 3 ∧ EndsInZeros out then (out.push 3).push byte else out.push byte

/-- A payload as it stands in a NAL unit. -/
def protect (payload : ByteArray) : ByteArray :=
  payload.data.toList.foldl protectByte ByteArray.empty

variable {data out : ByteArray} {index zeros : Nat} {byte : UInt8}

/-! ### Removal -/

theorem payloadFrom_zero (data : ByteArray) :
    payloadFrom data 0 = (List.range data.size).filterMap (payloadAt data) := by
  rw [payloadFrom, Nat.sub_zero, List.range_eq_range']

theorem payloadFrom_end (h : data.size ≤ index) : payloadFrom data index = [] := by
  rw [payloadFrom, Nat.sub_eq_zero_of_le h]
  rfl

theorem payloadFrom_step (h : index < data.size) :
    payloadFrom data index = (payloadAt data index).toList ++ payloadFrom data (index + 1) := by
  rw [payloadFrom, show data.size - index = data.size - (index + 1) + 1 by omega, List.range'_succ]
  cases hByte : payloadAt data index with
  | none => exact List.filterMap_cons_none hByte
  | some byte => exact List.filterMap_cons_some hByte

/-- What the count of zeros before an index tells about the bytes before it. -/
structure Counts (data : ByteArray) (index zeros : Nat) : Prop where
  one_le_iff : 1 ≤ zeros ↔ 1 ≤ index ∧ data[index - 1]? = some 0
  two_le_iff : 2 ≤ zeros ↔ FollowsZeros data index

theorem counts_start (data : ByteArray) : Counts data 0 0 where
  one_le_iff := by omega
  two_le_iff := by simp only [FollowsZeros]; omega

theorem Counts.zero (h : Counts data index zeros) (hByte : data[index]? = some 0) :
    Counts data (index + 1) (zeros + 1) where
  one_le_iff := by simp [hByte]
  two_le_iff := by
    have hPlace : index + 1 - 2 = index - 1 := by omega
    rw [FollowsZeros, hPlace, Nat.add_sub_cancel, Nat.succ_le_succ_iff, Nat.succ_le_succ_iff,
      h.one_le_iff]
    simp [hByte]

theorem counts_other (hByte : data[index]? ≠ some 0) : Counts data (index + 1) 0 where
  one_le_iff := by simp [hByte]
  two_le_iff := by simp [FollowsZeros, hByte]

theorem Counts.payloadAt_eq (h : Counts data index zeros) (hIndex : index < data.size) :
    payloadAt data index = if 2 ≤ zeros ∧ data[index] = 3 then none else some data[index] := by
  have hPrevents : Prevents data index ↔ 2 ≤ zeros ∧ data[index] = 3 := by
    rw [Prevents, h.two_le_iff, getElem?_eq_some_iff_getElem hIndex]
  simp only [payloadAt, hPrevents, getElem?_pos data index hIndex]

/-- The removal goes on with the bytes of the payload that are still to come. -/
theorem toList_removeFrom (h : Counts data index zeros) :
    (removeFrom data index zeros out).data.toList = out.data.toList ++ payloadFrom data index := by
  fun_induction removeFrom data index zeros out with
  | case1 index zeros out hIndex hThree ih =>
    have hByte := (getElem?_eq_some_iff_getElem hIndex).mpr hThree.2
    rw [ih (counts_other (by simp [hByte])), payloadFrom_step hIndex, h.payloadAt_eq hIndex,
      if_pos hThree]
    rfl
  | case2 index zeros out hIndex hKept hZero ih =>
    have hByte := (getElem?_eq_some_iff_getElem hIndex).mpr hZero
    rw [ih (h.zero hByte), toList_push, payloadFrom_step hIndex, h.payloadAt_eq hIndex,
      if_neg hKept, List.append_assoc]
    rfl
  | case3 index zeros out hIndex hKept hOther ih =>
    have hByte := mt (getElem?_eq_some_iff_getElem hIndex).mp hOther
    rw [ih (counts_other hByte), toList_push, payloadFrom_step hIndex, h.payloadAt_eq hIndex,
      if_neg hKept, List.append_assoc]
    rfl
  | case4 index zeros out hIndex =>
    rw [payloadFrom_end (Nat.not_lt.mp hIndex), List.append_nil]

theorem toList_remove (data : ByteArray) : (remove data).data.toList = payloadFrom data 0 :=
  toList_removeFrom (counts_start data)

/-! ### One more byte -/

theorem followsZeros_push (h : index ≤ data.size) :
    FollowsZeros (data.push byte) index ↔ FollowsZeros data index := by
  unfold FollowsZeros
  by_cases hIndex : 2 ≤ index
  · rw [getElem?_push_of_lt (by omega), getElem?_push_of_lt (by omega)]
  · simp only [hIndex, false_and]

theorem payloadAt_push (h : index < data.size) :
    payloadAt (data.push byte) index = payloadAt data index := by
  have hPrevents : Prevents (data.push byte) index ↔ Prevents data index := by
    rw [Prevents, Prevents, followsZeros_push (Nat.le_of_lt h), getElem?_push_of_lt h]
  exact if_congr hPrevents rfl (getElem?_push_of_lt h byte)

theorem payloadAt_push_size (data : ByteArray) (byte : UInt8) :
    payloadAt (data.push byte) data.size =
      if EndsInZeros data ∧ byte = 3 then none else some byte := by
  have hPrevents : Prevents (data.push byte) data.size ↔ EndsInZeros data ∧ byte = 3 := by
    rw [Prevents, followsZeros_push (Nat.le_refl _), getElem?_push_size, Option.some.injEq,
      EndsInZeros]
  exact if_congr hPrevents rfl (getElem?_push_size data byte)

theorem not_endsInZeros_push (hByte : byte ≠ 0) : ¬EndsInZeros (out.push byte) := by
  rintro ⟨-, -, hZero⟩
  rw [ByteArray.size_push, Nat.add_sub_cancel, getElem?_push_size] at hZero
  exact hByte (Option.some.inj hZero)

/-- A byte that comes last goes into the payload, unless it is a 3 behind two zeros. -/
theorem toList_remove_push (data : ByteArray) (byte : UInt8) :
    (remove (data.push byte)).data.toList = (remove data).data.toList ++
      if EndsInZeros data ∧ byte = 3 then [] else [byte] := by
  have hBefore : (List.range data.size).filterMap (payloadAt (data.push byte)) =
      (List.range data.size).filterMap (payloadAt data) :=
    List.filterMap_congr fun index hIndex => payloadAt_push (List.mem_range.mp hIndex)
  have hLast : [data.size].filterMap (payloadAt (data.push byte)) =
      if EndsInZeros data ∧ byte = 3 then [] else [byte] := by
    rw [List.filterMap_cons, payloadAt_push_size]
    by_cases hTaken : EndsInZeros data ∧ byte = 3
    · rw [if_pos hTaken, if_pos hTaken]
      rfl
    · rw [if_neg hTaken, if_neg hTaken]
      rfl
  rw [toList_remove, toList_remove, payloadFrom_zero, payloadFrom_zero, ByteArray.size_push,
    List.range_succ, List.filterMap_append, hBefore, hLast]

/-! ### Insertion -/

theorem toList_remove_protectByte (out : ByteArray) (byte : UInt8) :
    (remove (protectByte out byte)).data.toList = (remove out).data.toList ++ [byte] := by
  unfold protectByte
  by_cases hInsert : byte ≤ 3 ∧ EndsInZeros out
  · -- The 3 that goes between is taken out, and ends the zeros for the byte behind it.
    have hEnds : ¬(EndsInZeros (out.push 3) ∧ byte = 3) :=
      fun h => not_endsInZeros_push (by decide) h.1
    rw [if_pos hInsert, toList_remove_push, if_neg hEnds, toList_remove_push,
      if_pos ⟨hInsert.2, rfl⟩, List.append_nil]
  · have hKept : ¬(EndsInZeros out ∧ byte = 3) := by
      rintro ⟨hZeros, rfl⟩
      exact hInsert ⟨by decide, hZeros⟩
    rw [if_neg hInsert, toList_remove_push, if_neg hKept]

theorem toList_remove_foldl (bytes : List UInt8) (out : ByteArray) :
    (remove (bytes.foldl protectByte out)).data.toList = (remove out).data.toList ++ bytes := by
  induction bytes generalizing out with
  | nil => exact (List.append_nil _).symm
  | cons byte bytes ih =>
    rw [List.foldl_cons, ih, toList_remove_protectByte, List.append_assoc, List.singleton_append]

theorem remove_protect (payload : ByteArray) : remove (protect payload) = payload := by
  have hEmpty : remove ByteArray.empty = ByteArray.empty := eq_of_toList (toList_remove _)
  have hBytes := toList_remove_foldl payload.data.toList ByteArray.empty
  rw [hEmpty] at hBytes
  exact eq_of_toList hBytes

/-- Emulation prevention is taken out exactly. What the removal leaves are the bytes without each 3
whose two bytes right before it are zeros. It gives back every payload that has gone through the
insertion, also where a last 3 stands behind two zeros at the end. -/
theorem remove_exact (data payload : ByteArray) :
    (remove data).data.toList = (List.range data.size).filterMap (fun index =>
      if FollowsZeros data index ∧ data[index]? = some 3 then none else data[index]?) ∧
    remove (protect payload) = payload ∧
    (EndsInZeros (protect payload) → remove ((protect payload).push 3) = payload) := by
  refine ⟨?_, remove_protect payload, fun hZeros => ?_⟩
  · rw [toList_remove, payloadFrom_zero]
    rfl
  · apply eq_of_toList
    rw [toList_remove_push, if_pos ⟨hZeros, rfl⟩, List.append_nil, remove_protect]

/-- Zeros and threes, of which two zeros are the last. -/
def zerosAndThrees : ByteArray := ⟨#[0, 0, 0, 3, 0, 0, 3, 3, 0, 0]⟩

theorem remove_exact_zerosAndThrees :
    (protect zerosAndThrees).data.toList = [0, 0, 3, 0, 3, 0, 0, 3, 3, 3, 0, 0] ∧
      EndsInZeros (protect zerosAndThrees) ∧
      remove ((protect zerosAndThrees).push 3) = zerosAndThrees := by
  have hZeros : EndsInZeros (protect zerosAndThrees) := by decide +kernel
  obtain ⟨-, -, hLast⟩ := remove_exact ByteArray.empty zerosAndThrees
  exact ⟨by decide +kernel, hZeros, hLast hZeros⟩

end FrameFeed.Emulation
