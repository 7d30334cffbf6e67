import FrameFeed.Bits
import FrameFeed.Proofs.Steps
import Mathlib.Algebra.Group.Nat.Defs

/-! Reading as taking pieces off a list of bits. The bits of some bytes form one list, and a reader
is a position in it. `Reads` says of an action that it takes exactly a given piece off the bits and
gives the value that the piece stands for, whatever comes after the piece. -/

namespace FrameFeed.BitReader

/-- The bit at an index, of each byte the most significant one first. -/
def bitAt (data : ByteArray) (index : Nat) : Bool :=
  (byteAt data (index / 8)).testBit (7 - index % 8)

/-- The bits of all bytes, one after another. -/
def bitsOf (data : ByteArray) : List Bool := (List.range (8 * data.size)).map (bitAt data)

/-- The bits that are still to be read. -/
def unread (reader : BitReader) : List Bool := (bitsOf reader.data).drop reader.position

/-- The reader behind the next bits. -/
def past (reader : BitReader) (count : Nat) : BitReader :=
  { reader with position := reader.position + count }

variable {reader : BitReader} {data : ByteArray}

theorem length_bitsOf (data : ByteArray) : (bitsOf data).length = 8 * data.size := by
  simp [bitsOf]

theorem length_unread (reader : BitReader) : reader.unread.length = reader.remaining := by
  simp [unread, remaining, length_bitsOf]

theorem unread_past (reader : BitReader) (count : Nat) :
    (reader.past count).unread = reader.unread.drop count := by
  simp [unread, past, List.drop_drop]

theorem past_past (reader : BitReader) (first second : Nat) :
    (reader.past first).past second = reader.past (first + second) := by
  simp [past, Nat.add_assoc]

/-- A piece that comes next stands in the data from the reader's position on. -/
theorem bitAt_of_piece {piece : List Bool} (h : piece <+: reader.unread) (index : Nat)
    (hIndex : index < piece.length) :
    bitAt reader.data (reader.position + index) = piece[index] := by
  have hBit := h.getElem hIndex
  rw [hBit]
  simp [unread, bitsOf]

theorem length_le_remaining {piece : List Bool} (h : piece <+: reader.unread) :
    piece.length ≤ reader.remaining := by
  rw [← length_unread]
  exact h.length_le

/-! ### Fields -/

theorem byteAt_lt (data : ByteArray) (index : Nat) : byteAt data index < 256 :=
  (data[index]?.getD 0).toNat_lt

/-- The bits of a number that is written by whole bytes are the bits of these bytes. -/
theorem testBit_bigEndian (data : ByteArray) (first count : Nat) {place : Nat}
    (h : place < 8 * count) :
    (bigEndian data first count).testBit place =
      bitAt data (8 * first + (8 * count - 1 - place)) := by
  induction count generalizing place with
  | zero => omega
  | succ count ih =>
    have hByte : byteAt data (first + count) < 2 ^ 8 := byteAt_lt data (first + count)
    rw [bigEndian, show 256 = 2 ^ 8 from rfl, Nat.testBit_two_pow_mul_add _ hByte]
    by_cases hLast : place < 8
    · rw [if_pos hLast, bitAt]
      congr 2 <;> omega
    · rw [if_neg hLast, ih (by omega)]
      congr 1
      omega

theorem testBit_field (data : ByteArray) (position count : Nat) {place : Nat}
    (h : place < count) :
    (field data position count).testBit place = bitAt data (position + (count - 1 - place)) := by
  simp only [field, Nat.one_shiftLeft, Nat.testBit_mod_two_pow, h, decide_true, Bool.true_and,
    Nat.testBit_shiftRight]
  rw [testBit_bigEndian _ _ _ (by omega)]
  congr 1
  omega

theorem field_lt (data : ByteArray) (position count : Nat) :
    field data position count < 2 ^ count := by
  rw [field, Nat.one_shiftLeft]
  exact Nat.mod_lt _ (Nat.two_pow_pos count)

/-- Numbers below a power of two are told apart by their bits below it. -/
theorem eq_of_testBit_lt {count left right : Nat} (hLeft : left < 2 ^ count)
    (hRight : right < 2 ^ count)
    (h : ∀ place < count, left.testBit place = right.testBit place) : left = right := by
  apply Nat.eq_of_testBit_eq
  intro place
  by_cases hPlace : place < count
  · exact h place hPlace
  · have hBound : 2 ^ count ≤ 2 ^ place := Nat.pow_le_pow_right Nat.two_pos (by omega)
    rw [Nat.testBit_lt_two_pow (Nat.lt_of_lt_of_le hLeft hBound),
      Nat.testBit_lt_two_pow (Nat.lt_of_lt_of_le hRight hBound)]

/-- A field is its first bits, moved up, and the others behind them. -/
theorem field_add (data : ByteArray) (position first second : Nat) :
    field data position (first + second) =
      field data position first * 2 ^ second + field data (position + first) second := by
  have hFirst := field_lt data position first
  have hSecond := field_lt data (position + first) second
  rw [Nat.mul_comm]
  apply eq_of_testBit_lt (field_lt ..)
  · rw [Nat.add_comm first, Nat.pow_add]
    calc 2 ^ second * field data position first + field data (position + first) second
        < 2 ^ second * (field data position first + 1) := by rw [Nat.mul_succ]; omega
      _ ≤ 2 ^ second * 2 ^ first := Nat.mul_le_mul_left _ hFirst
  · intro place hPlace
    rw [Nat.testBit_two_pow_mul_add _ hSecond, testBit_field _ _ _ hPlace]
    split
    · rename_i hLow
      rw [testBit_field _ _ _ hLow]
      congr 1
      omega
    · rw [testBit_field _ _ _ (by omega)]
      congr 1
      omega

/-- A field inside one byte is the byte without the bits after it and before it. -/
theorem field_inside (data : ByteArray) {byte bit count : Nat} (h : bit + count ≤ 8) :
    field data (8 * byte + bit) count = byteAt data byte >>> (8 - bit - count) % 2 ^ count := by
  apply eq_of_testBit_lt (field_lt ..) (Nat.mod_lt _ (Nat.two_pow_pos count))
  intro place hPlace
  rw [testBit_field _ _ _ hPlace, Nat.testBit_mod_two_pow, Nat.testBit_shiftRight, bitAt,
    decide_eq_true hPlace, Bool.true_and]
  congr 2 <;> omega

/-! ### Actions -/

/-- In front of a piece of bits, an action gives a value and leaves the reader behind the piece. -/
def Reads {Value : Type} (action : Action Value) (piece : List Bool) (value : Value) : Prop :=
  ∀ reader : BitReader, piece <+: reader.unread →
    action reader = .ok value (reader.past piece.length)

section Reads

variable {Value Value' : Type} {action : Action Value} {next : Value → Action Value'}
  {piece rest : List Bool} {value : Value} {value' : Value'}

theorem Reads.pure (value : Value) : Reads (Pure.pure value) [] value := by
  intro reader _
  rfl

/-- What two actions read one after the other are their pieces one after the other. -/
theorem Reads.bind (h : Reads action piece value) (hNext : Reads (next value) rest value') :
    Reads (action >>= next) (piece ++ rest) value' := by
  intro reader hPiece
  obtain ⟨later, hLater⟩ := hPiece
  have hFirst : piece <+: reader.unread := ⟨rest ++ later, by rw [← hLater, List.append_assoc]⟩
  have hSecond : rest <+: (reader.past piece.length).unread :=
    ⟨later, by rw [unread_past, ← hLater, List.append_assoc, List.drop_left]⟩
  rw [bind_of_ok (h reader hFirst), hNext _ hSecond, past_past, List.length_append]

theorem Reads.bind_pure (h : Reads action piece value) (change : Value → Value') :
    Reads (action >>= fun given => Pure.pure (change given)) piece (change value) := by
  have hBoth : Reads (action >>= fun given => Pure.pure (change given)) (piece ++ [])
      (change value) := h.bind (.pure (change value))
  rwa [List.append_nil] at hBoth

/-- An action for each item of a list reads their pieces one after another. -/
theorem Reads.forM {Item : Type} {step : Item → Action Unit} {pieceOf : Item → List Bool}
    {items : List Item} (h : ∀ item ∈ items, Reads (step item) (pieceOf item) ()) :
    Reads (items.forM step) (items.flatMap pieceOf) () := by
  induction items with
  | nil => exact .pure ()
  | cons item items ih =>
    have hRest := ih fun other hOther => h other (List.mem_cons_of_mem _ hOther)
    exact (h item List.mem_cons_self).bind hRest

end Reads

theorem reads_readBit (bit : Bool) : Reads readBit [bit] bit.toNat := by
  intro reader hPiece
  have hLeft := length_le_remaining hPiece
  have hBit := bitAt_of_piece hPiece 0 Nat.one_pos
  have hIn : reader.position / 8 < reader.data.size := by
    simp only [remaining, List.length_singleton] at hLeft
    omega
  have hValue : (byteAt reader.data (reader.position / 8) >>> (7 - reader.position % 8)) % 2 =
      bit.toNat := by
    rw [Nat.shiftRight_eq_div_pow, ← Nat.toNat_testBit]
    exact congrArg Bool.toNat hBit
  simp only [readBit, if_pos hIn, hValue]
  rfl

theorem reads_readFlag (flag : Bool) : Reads readFlag [flag] flag := by
  have hRead := (reads_readBit flag).bind_pure (· == 1)
  cases flag <;> exact hRead

theorem reads_skipBits {piece : List Bool} {count : Nat} (h : piece.length = count) :
    Reads (skipBits count) piece () := by
  intro reader hPiece
  have hLeft := length_le_remaining hPiece
  rw [skipBits, if_neg (by omega), h]
  rfl

end FrameFeed.BitReader
