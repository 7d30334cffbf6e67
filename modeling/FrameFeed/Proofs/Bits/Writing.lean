import FrameFeed.Proofs.Bits.Cutting

/-! Writing bits. A `BitWriter` puts bits behind one another into bytes, the most significant bit of
each byte first, and writes numbers in fields of up to 32 bits and in variable-length codes. What it
writes for a number is what a `BitReader` takes off for it, and nothing else. -/

namespace FrameFeed

/-- The bytes that bits have been put into, and the number of these bits. -/
structure BitWriter where
  bytes : Array UInt8 := #[]
  length : Nat := 0

namespace BitWriter

def data (writer : BitWriter) : ByteArray := ⟨writer.bytes⟩

/-- Puts one bit, 0 or 1, behind the others; where the last byte is full, into a new one. -/
def writeBit (writer : BitWriter) (bit : UInt8) : BitWriter :=
  let bytes := if writer.length % 8 = 0 then writer.bytes.push 0 else writer.bytes
  let place := UInt8.ofNat (7 - writer.length % 8)
  { bytes := bytes.modify (bytes.size - 1) (· ||| bit <<< place)
    length := writer.length + 1 }

/-- Writes a field of `count` bits. -/
def writeBits (writer : BitWriter) (value : UInt32) : (count : Nat) → BitWriter
  | 0 => writer
  | count + 1 =>
    (writer.writeBit ((value >>> UInt32.ofNat count) &&& 1).toUInt8).writeBits value count

/-- Writes an unsigned code. -/
def writeUnsigned (writer : BitWriter) (value : UInt32) : BitWriter :=
  let code := value + 1
  let length := code.toNat.log2 + 1
  (writer.writeBits 0 (length - 1)).writeBits code length

/-- Writes a signed code. -/
def writeSigned (writer : BitWriter) (value : Int32) : BitWriter :=
  writer.writeUnsigned
    (if 0 < value then value.toUInt32 * 2 - 1 else UInt32.ofNat value.toInt.natAbs * 2)

/-- Fills the last byte with zeros. -/
def fill (writer : BitWriter) : BitWriter :=
  if writer.length % 8 = 0 then writer else (writer.writeBit 0).fill
termination_by (8 - writer.length % 8) % 8
decreasing_by
  simp only [writeBit]
  omega

/-- The bytes of a payload: the bits, a one, and zeros up to the end of the byte. -/
def finish (writer : BitWriter) : ByteArray := (writer.writeBit 1).fill.data

open BitReader

/-- The writer has put just these bits into its bytes; the rest of the last byte is zeros. -/
structure Holds (writer : BitWriter) (bits : List Bool) : Prop where
  length_eq : writer.length = bits.length
  size_eq : writer.bytes.size = (writer.length + 7) / 8
  bitAt_eq : ∀ index, bitAt writer.data index = bits[index]?.getD false

variable {writer : BitWriter} {bits : List Bool}

theorem holds_empty : Holds {} [] where
  length_eq := rfl
  size_eq := rfl
  bitAt_eq _ := bitAt_past (Nat.zero_le _)

theorem byteAt_eq (bytes : Array UInt8) (index : Nat) :
    byteAt ⟨bytes⟩ index = (bytes[index]?.getD 0).toNat := by
  rw [byteAt, ← getElem?_toList, Array.getElem?_toList]

/-- A new byte has no bits set. -/
theorem bitAt_push (bytes : Array UInt8) (index : Nat) :
    bitAt ⟨bytes.push 0⟩ index = bitAt ⟨bytes⟩ index := by
  rw [bitAt, bitAt, byteAt_eq, byteAt_eq, Array.getElem?_push]
  split
  · rename_i hLast
    rw [hLast, Array.getElem?_eq_none (Nat.le_refl _)]
    rfl
  · rfl

theorem toNat_shiftLeft (bit : Bool) {place : Nat} (h : place < 8) :
    (bit.toUInt8 <<< UInt8.ofNat place).toNat = bit.toNat <<< place := by
  have hPlace : (UInt8.ofNat place).toNat % 8 = place := by
    rw [UInt8.toNat_ofNat']
    omega
  have hBit : bit.toUInt8.toNat = bit.toNat := by
    cases bit <;> rfl
  have hPower : 2 ^ place ≤ 2 ^ 7 := Nat.pow_le_pow_right Nat.two_pos (by omega)
  have hSmall : bit.toNat <<< place < 2 ^ 8 := by
    rw [Nat.shiftLeft_eq]
    cases bit <;> simp only [Bool.toNat_true, Bool.toNat_false] <;> omega
  rw [UInt8.toNat_shiftLeft, hPlace, hBit, Nat.mod_eq_of_lt hSmall]

/-- A bit is set at its place; the others stay as they are. -/
theorem bitAt_modify {bytes : Array UInt8} {place : Nat} (h : place < 8 * bytes.size) (bit : Bool)
    (index : Nat) :
    bitAt ⟨bytes.modify (place / 8) (· ||| bit.toUInt8 <<< UInt8.ofNat (7 - place % 8))⟩ index =
      (bitAt ⟨bytes⟩ index || (decide (index = place) && bit)) := by
  rw [bitAt, bitAt, byteAt_eq, byteAt_eq, Array.getElem?_modify]
  by_cases hByte : place / 8 = index / 8
  · have hIn : index / 8 < bytes.size := by omega
    rw [if_pos hByte, Array.getElem?_eq_getElem hIn, Option.map_some, Option.getD_some,
      Option.getD_some, UInt8.toNat_or, toNat_shiftLeft _ (by omega), Nat.testBit_or,
      Nat.testBit_shiftLeft, Nat.testBit_bool_toNat, ← Bool.and_assoc]
    congr 2
    rw [← Bool.decide_and]
    apply decide_eq_decide.mpr
    omega
  · rw [if_neg hByte, decide_eq_false (by omega), Bool.false_and, Bool.or_false]

theorem Holds.writeBit (h : writer.Holds bits) (bit : Bool) :
    (writer.writeBit bit.toUInt8).Holds (bits ++ [bit]) := by
  obtain ⟨hLength, hSize, hBits⟩ := h
  have hBytes : ∃ bytes : Array UInt8, bytes.size = writer.length / 8 + 1 ∧
      (∀ index, bitAt ⟨bytes⟩ index = bits[index]?.getD false) ∧
      (if writer.length % 8 = 0 then writer.bytes.push 0 else writer.bytes) = bytes := by
    by_cases hFull : writer.length % 8 = 0
    · refine ⟨writer.bytes.push 0, ?_, fun index => ?_, if_pos hFull⟩
      · rw [Array.size_push]
        omega
      · rw [bitAt_push]
        exact hBits index
    · exact ⟨writer.bytes, by omega, hBits, if_neg hFull⟩
  obtain ⟨bytes, hCount, hBefore, hEq⟩ := hBytes
  have hWritten : writer.writeBit bit.toUInt8 =
      { bytes := bytes.modify (writer.length / 8)
          (· ||| bit.toUInt8 <<< UInt8.ofNat (7 - writer.length % 8))
        length := writer.length + 1 } := by
    simp only [BitWriter.writeBit, hEq, hCount, Nat.add_sub_cancel]
  rw [hWritten]
  constructor
  · rw [List.length_append, ← hLength, List.length_singleton]
  · simp only [Array.size_modify]
    omega
  · intro index
    rw [data, bitAt_modify (by omega), hBefore, hLength, List.getElem?_append]
    rcases Nat.lt_trichotomy index bits.length with hBelow | rfl | hAbove
    · rw [if_pos hBelow, decide_eq_false (by omega), Bool.false_and, Bool.or_false]
    · rw [if_neg (Nat.lt_irrefl _), List.getElem?_eq_none (Nat.le_refl _), Nat.sub_self]
      simp
    · rw [if_neg (by omega), List.getElem?_eq_none (by omega), decide_eq_false (by omega),
        List.getElem?_eq_none (by simp; omega)]
      rfl

/-! ### Numbers -/

theorem toUInt8_and_one (value : UInt32) {place : Nat} (h : place < 32) :
    ((value >>> UInt32.ofNat place) &&& 1).toUInt8 = (value.toNat.testBit place).toUInt8 := by
  have hPlace : (UInt32.ofNat place).toNat % 32 = place := by
    rw [UInt32.toNat_ofNat']
    omega
  have hBit : ((value >>> UInt32.ofNat place) &&& 1).toNat = (value.toNat.testBit place).toNat := by
    rw [UInt32.toNat_and, UInt32.toNat_shiftRight, hPlace, Nat.toNat_testBit,
      Nat.shiftRight_eq_div_pow]
    exact Nat.and_one_is_mod _
  apply UInt8.toNat_inj.mp
  rw [UInt32.toNat_toUInt8, hBit]
  cases value.toNat.testBit place <;> rfl

theorem Holds.writeBits (h : writer.Holds bits) (value : UInt32) {count : Nat}
    (hCount : count ≤ 32) :
    (writer.writeBits value count).Holds (bits ++ fixedBits count value.toNat) := by
  induction count generalizing writer bits with
  | zero => rwa [fixedBits, List.append_nil]
  | succ count ih =>
    rw [BitWriter.writeBits, fixedBits, toUInt8_and_one value (by omega), ← List.singleton_append,
      ← List.append_assoc]
    exact ih (h.writeBit _) (by omega)

theorem fixedBits_zero (count : Nat) : fixedBits count 0 = List.replicate count false := by
  induction count with
  | zero => rfl
  | succ count ih => rw [fixedBits, Nat.zero_testBit, ih, List.replicate_succ]

theorem Holds.writeUnsigned (h : writer.Holds bits) {value : UInt32}
    (hValue : value.toNat ≤ greatestCode) :
    (writer.writeUnsigned value).Holds (bits ++ unsignedBits value.toNat) := by
  simp only [greatestCode] at hValue
  have hCode : (value + 1).toNat = value.toNat + 1 := by
    rw [UInt32.toNat_add]
    exact Nat.mod_eq_of_lt (by rw [UInt32.toNat_one]; omega)
  have hLength : (value.toNat + 1).log2 < 32 := by
    rw [Nat.log2_lt (Nat.succ_ne_zero _)]
    omega
  have hZeros := h.writeBits 0 (Nat.le_of_lt hLength)
  have hAll := hZeros.writeBits (value + 1) hLength
  rw [UInt32.toNat_zero, fixedBits_zero, hCode, List.append_assoc] at hAll
  simp only [BitWriter.writeUnsigned, hCode, Nat.add_sub_cancel]
  exact hAll

/-- A number that is not negative is the same without a sign. -/
theorem toNat_toUInt32 {value : Int32} (h : 0 ≤ value.toInt) :
    value.toUInt32.toNat = value.toInt.toNat := by
  have hCond : value.toInt = if 2 * value.toUInt32.toNat < 2 ^ 32 then (value.toUInt32.toNat : Int)
      else value.toUInt32.toNat - (2 ^ 32 : Nat) := BitVec.toInt_eq_toNat_cond _
  have hLt := value.toUInt32.toNat_lt
  split at hCond <;> omega

theorem Holds.writeSigned (h : writer.Holds bits) {value : Int32}
    (hValue : value.toInt.natAbs < 2 ^ 31) :
    (writer.writeSigned value).Holds (bits ++ signedBits value.toInt) := by
  have hCode : (if 0 < value then value.toUInt32 * 2 - 1
      else UInt32.ofNat value.toInt.natAbs * 2).toNat = signedCode value.toInt := by
    have hTwo : (2 : UInt32).toNat = 2 := rfl
    have hSign : 0 < value ↔ 0 < value.toInt := Int32.lt_iff_toInt_lt
    rw [signedCode]
    by_cases hPositive : 0 < value.toInt
    · rw [if_pos (hSign.mpr hPositive), if_pos hPositive, UInt32.toNat_sub,
        UInt32.toNat_mul, toNat_toUInt32 (Int.le_of_lt hPositive), UInt32.toNat_one, hTwo]
      omega
    · rw [if_neg (mt hSign.mp hPositive), if_neg hPositive, UInt32.toNat_mul,
        UInt32.toNat_ofNat', hTwo]
      omega
  rw [BitWriter.writeSigned, signedBits, ← hCode]
  exact h.writeUnsigned (hCode ▸ signedCode_le hValue)

theorem Holds.fill (h : writer.Holds bits) : ∃ rest, writer.fill.Holds (bits ++ rest) := by
  fun_induction BitWriter.fill writer generalizing bits with
  | case1 => exact ⟨[], by rwa [List.append_nil]⟩
  | case2 writer hSome ih =>
    obtain ⟨rest, hRest⟩ := ih (h.writeBit false)
    exact ⟨[false] ++ rest, by rwa [← List.append_assoc]⟩

theorem Holds.length_le (h : writer.Holds bits) : bits.length ≤ 8 * writer.data.size := by
  have hSize : writer.data.size = (writer.length + 7) / 8 := h.size_eq
  have hLength := h.length_eq
  omega

theorem Holds.prefix_bitsOf (h : writer.Holds bits) : bits <+: bitsOf writer.data := by
  rw [List.prefix_iff_eq_take]
  have hLength := h.length_le
  apply List.ext_getElem
  · rw [List.length_take, length_bitsOf, Nat.min_eq_left hLength]
  · intro index hIndex _
    simp only [bitsOf, List.getElem_take, List.getElem_map, List.getElem_range, h.bitAt_eq,
      List.getElem?_eq_getElem hIndex, Option.getD_some]

/-- The bits that have been written. -/
def content (writer : BitWriter) : List Bool := (bitsOf writer.data).take writer.length

theorem Holds.content_eq (h : writer.Holds bits) : writer.content = bits := by
  rw [content, h.length_eq]
  exact (List.prefix_iff_eq_take.mp h.prefix_bitsOf).symm

theorem Holds.finish (h : writer.Holds bits) : bits <+: bitsOf writer.finish := by
  obtain ⟨rest, hRest⟩ := (h.writeBit true).fill
  exact (List.prefix_append bits ([true] ++ rest)).trans
    (List.append_assoc .. ▸ hRest.prefix_bitsOf)

end BitWriter

end FrameFeed
