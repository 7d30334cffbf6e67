import FrameFeed.Proofs.Bits.Reading

/-! How numbers are written in bits: in fields of a fixed size, and in variable-length codes. What
is written is read back, whatever bits come after it. -/

namespace FrameFeed.BitReader

/-! ### Fields -/

/-- A number in a field of `count` bits, the most significant one first. -/
def fixedBits : (count value : Nat) → List Bool
  | 0, _ => []
  | count + 1, value => value.testBit count :: fixedBits count value

theorem length_fixedBits (count value : Nat) : (fixedBits count value).length = count := by
  induction count with
  | zero => rfl
  | succ count ih => rw [fixedBits, List.length_cons, ih]

theorem getElem_fixedBits {count value index : Nat}
    (h : index < (fixedBits count value).length) :
    (fixedBits count value)[index] = value.testBit (count - 1 - index) := by
  induction count generalizing index with
  | zero => cases h
  | succ count ih =>
    cases index with
    | zero => rfl
    | succ index =>
      simp only [fixedBits, List.getElem_cons_succ, ih]
      congr 1
      omega

/-- A field holds the bits of a number below its size. -/
theorem fixedBits_mod (count value : Nat) :
    fixedBits count (value % 2 ^ count) = fixedBits count value := by
  apply List.ext_getElem
  · simp only [length_fixedBits]
  · intro index hIndex _
    rw [length_fixedBits] at hIndex
    rw [getElem_fixedBits, getElem_fixedBits, Nat.testBit_mod_two_pow,
      decide_eq_true (by omega), Bool.true_and]

/-- A field in the bits is the number that was written. -/
theorem field_eq_of_piece {reader : BitReader} {count value : Nat} (hValue : value < 2 ^ count)
    (h : fixedBits count value <+: reader.unread) :
    field reader.data reader.position count = value := by
  apply eq_of_testBit_lt (field_lt ..) hValue
  intro place hPlace
  have hBit := bitAt_of_piece h (count - 1 - place) (by rw [length_fixedBits]; omega)
  rw [testBit_field _ _ _ hPlace, hBit, getElem_fixedBits]
  congr 1
  omega

theorem reads_readBits {count value : Nat} (hCount : count ≤ 32) (hValue : value < 2 ^ count) :
    Reads (readBits count) (fixedBits count value) value := by
  intro reader hPiece
  have hLeft := length_le_remaining hPiece
  rw [length_fixedBits] at hLeft
  rw [length_fixedBits]
  by_cases hNone : count = 0
  · subst hNone
    rw [readBits, if_pos rfl, show value = 0 by omega]
    rfl
  · rw [readBits, if_neg hNone, if_neg (by omega), if_neg (by omega),
      field_eq_of_piece hValue hPiece]
    rfl

/-! ### Variable-length codes -/

/-- The greatest number that has an unsigned code. -/
def greatestCode : Nat := 2 ^ 32 - 2

/-- The unsigned code of a number: the number after it without leading zeros, behind as many zeros
as it has bits after its first one. -/
def unsignedBits (value : Nat) : List Bool :=
  List.replicate (value + 1).log2 false ++ fixedBits ((value + 1).log2 + 1) (value + 1)

/-- The number whose unsigned code is the signed code of a number. -/
def signedCode (number : Int) : Nat :=
  if 0 < number then (2 * number - 1).toNat else (-2 * number).toNat

def signedBits (number : Int) : List Bool := unsignedBits (signedCode number)

/-- Zeros and the one after them are counted if they are not too many. -/
theorem reads_leadingZeros {zeros allowance : Nat} (h : zeros < allowance) :
    Reads (leadingZeros allowance) (List.replicate zeros false ++ [true]) zeros := by
  induction allowance generalizing zeros with
  | zero => omega
  | succ allowance ih =>
    cases zeros with
    | zero => exact (reads_readBit true).bind (.pure 0)
    | succ zeros =>
      exact (reads_readBit false).bind ((ih (Nat.lt_of_succ_lt_succ h)).bind_pure (· + 1))

theorem unsignedBits_eq (value : Nat) :
    unsignedBits value = (List.replicate (value + 1).log2 false ++ [true]) ++
      fixedBits (value + 1).log2 ((value + 1) - 2 ^ (value + 1).log2) := by
  have hLow : 2 ^ (value + 1).log2 ≤ value + 1 := Nat.log2_self_le (Nat.succ_ne_zero _)
  have hHigh : value + 1 < 2 ^ ((value + 1).log2 + 1) := Nat.lt_log2_self
  have hRest : (value + 1) % 2 ^ (value + 1).log2 = value + 1 - 2 ^ (value + 1).log2 := by
    rw [Nat.mod_eq_sub_mod hLow, Nat.mod_eq_of_lt (by rw [Nat.pow_succ] at hHigh; omega)]
  have hFirst : (value + 1).testBit (value + 1).log2 = true :=
    Nat.testBit_log2 (Nat.succ_ne_zero _)
  rw [unsignedBits, fixedBits, hFirst, ← hRest, fixedBits_mod, List.append_assoc,
    List.singleton_append]

theorem reads_readUnsigned {value : Nat} (h : value ≤ greatestCode) :
    Reads readUnsigned (unsignedBits value) value := by
  have hLow : 2 ^ (value + 1).log2 ≤ value + 1 := Nat.log2_self_le (Nat.succ_ne_zero _)
  have hHigh : value + 1 < 2 ^ ((value + 1).log2 + 1) := Nat.lt_log2_self
  have hZeros : (value + 1).log2 < 32 := by
    rw [Nat.log2_lt (Nat.succ_ne_zero _)]
    simp only [greatestCode] at h
    omega
  -- Behind its first bit, the number after the value is less its greatest power of two.
  rw [Nat.pow_succ] at hHigh
  have hSuffix : value + 1 - 2 ^ (value + 1).log2 < 2 ^ (value + 1).log2 := by omega
  rw [unsignedBits_eq]
  have hRead : Reads readUnsigned _ (_ - 1 + _) := (reads_leadingZeros hZeros).bind
    ((reads_readBits (Nat.le_of_lt hZeros) hSuffix).bind_pure
      ((1 <<< (value + 1).log2) - 1 + ·))
  have hPositive := Nat.two_pow_pos (value + 1).log2
  rwa [Nat.one_shiftLeft, show 2 ^ (value + 1).log2 - 1 + (value + 1 - 2 ^ (value + 1).log2) = value
    by omega] at hRead

theorem signedValue_signedCode (number : Int) : signedValue (signedCode number) = number := by
  unfold signedCode signedValue
  split <;> split <;> omega

theorem signedCode_le {number : Int} (h : number.natAbs < 2 ^ 31) :
    signedCode number ≤ greatestCode := by
  unfold signedCode greatestCode
  split <;> omega

theorem reads_readSigned {number : Int} (h : number.natAbs < 2 ^ 31) :
    Reads readSigned (signedBits number) number := by
  have hRead := (reads_readUnsigned (signedCode_le h)).bind_pure signedValue
  rwa [signedValue_signedCode] at hRead

theorem reads_skipUnsigned {value : Nat} (h : value ≤ greatestCode) :
    Reads skipUnsigned (unsignedBits value) () :=
  (reads_readUnsigned h).bind_pure fun _ => ()

end FrameFeed.BitReader
