import FrameFeed.Proofs.Bits.Writing

/-! Reading back what has been written, and writing again what has been read. A list of fields that
is written and closed is read back field by field. And a variable-length code that is read, wherever
it stands, has the bits that a writer gives to its number: a number has one code only. -/

namespace FrameFeed.BitReader

/-! ### Fields -/

/-- How a number is written. -/
inductive FieldKind where
  | fixed (count : Nat)
  | unsigned
  | signed
  deriving DecidableEq, Repr

/-- A number that can be written, and how. -/
inductive Field where
  | fixed (count : Nat) (value : UInt32) (count_le : count ≤ 32)
      (value_lt : value.toNat < 2 ^ count)
  | unsigned (value : UInt32) (value_le : value.toNat ≤ greatestCode)
  | signed (value : Int32) (natAbs_lt : value.toInt.natAbs < 2 ^ 31)

namespace Field

def kind : Field → FieldKind
  | fixed count _ _ _ => .fixed count
  | unsigned _ _ => .unsigned
  | signed _ _ => .signed

def value : Field → Int
  | fixed _ value _ _ => value.toNat
  | unsigned value _ => value.toNat
  | signed value _ => value.toInt

def bits : Field → List Bool
  | fixed count value _ _ => fixedBits count value.toNat
  | unsigned value _ => unsignedBits value.toNat
  | signed value _ => signedBits value.toInt

def write (writer : BitWriter) : Field → BitWriter
  | fixed count value _ _ => writer.writeBits value count
  | unsigned value _ => writer.writeUnsigned value
  | signed value _ => writer.writeSigned value

/-- The bytes of fields that are written one after another and closed. -/
def written (fields : List Field) : ByteArray := (fields.foldl write {}).finish

end Field

/-- Reads a number that is written in a way. -/
def FieldKind.read : FieldKind → Action Int
  | fixed count => do return (← readBits count : Nat)
  | unsigned => do return (← readUnsigned : Nat)
  | signed => readSigned

theorem Field.holds_write {writer : BitWriter} {bits : List Bool} (h : writer.Holds bits)
    (field : Field) : (field.write writer).Holds (bits ++ field.bits) := by
  cases field with
  | fixed count value hCount hValue => exact h.writeBits value hCount
  | unsigned value hValue => exact h.writeUnsigned hValue
  | signed value hValue => exact h.writeSigned hValue

theorem Field.holds_foldl {writer : BitWriter} {bits : List Bool} (h : writer.Holds bits)
    (fields : List Field) :
    (fields.foldl write writer).Holds (bits ++ fields.flatMap Field.bits) := by
  induction fields generalizing writer bits with
  | nil => rwa [List.flatMap_nil, List.append_nil]
  | cons field fields ih =>
    rw [List.flatMap_cons, ← List.append_assoc]
    exact ih (field.holds_write h)

theorem Field.reads_kind (field : Field) : Reads field.kind.read field.bits field.value := by
  cases field with
  | fixed count value hCount hValue => exact (reads_readBits hCount hValue).bind_pure Int.ofNat
  | unsigned value hValue => exact (reads_readUnsigned hValue).bind_pure Int.ofNat
  | signed value hValue => exact reads_readSigned hValue

theorem Field.reads_kinds (fields : List Field) :
    Reads ((fields.map kind).mapM FieldKind.read) (fields.flatMap Field.bits)
      (fields.map value) := by
  induction fields with
  | nil => exact .pure []
  | cons field fields ih =>
    rw [List.map_cons, List.mapM_cons, List.flatMap_cons, List.map_cons]
    exact field.reads_kind.bind (ih.bind_pure (field.value :: ·))

/-! ### What a code takes -/

/-- Where the action succeeds, its value is allowed and it has taken the bits of the value. -/
def Takes {Value : Type} (action : Action Value) (Allowed : Value → Prop)
    (bitsFor : Value → List Bool) : Prop :=
  ∀ ⦃reader value after⦄, action reader = .ok value after →
    Allowed value ∧ bitsFor value <+: reader.unread ∧
      after = reader.past (bitsFor value).length

theorem takes_readBit : Takes readBit (· < 2) (fixedBits 1) := by
  intro reader value after h
  by_cases hIn : reader.position < 8 * reader.data.size
  · have hPiece := bitAt_prefix_unread hIn
    have hRead := reads_readBit _ reader hPiece
    rw [h] at hRead
    cases hRead
    have hBits : fixedBits 1 (bitAt reader.data reader.position).toNat =
        [bitAt reader.data reader.position] := by
      cases bitAt reader.data reader.position <;> rfl
    rw [hBits]
    exact ⟨Bool.toNat_lt _, hPiece, rfl⟩
  · have hEnd : readBit reader = .error .endOfStream reader := if_neg (by omega)
    cases h.symm.trans hEnd

/-- Zeros and the one after them. -/
def zerosAndOne (zeros : Nat) : List Bool := List.replicate zeros false ++ [true]

theorem takes_leadingZeros (allowance : Nat) :
    Takes (leadingZeros allowance) (· < allowance) zerosAndOne := by
  induction allowance with
  | zero =>
    intro reader value after h
    cases h
  | succ allowance ih =>
    intro reader value after h
    obtain ⟨bit, middle, hBit, hRest⟩ := ok_of_bind h
    obtain ⟨hLt, hPiece, rfl⟩ := takes_readBit hBit
    by_cases hZero : bit = 0
    · subst hZero
      obtain ⟨zeros, last, hZeros, hValue⟩ := ok_of_bind hRest
      obtain ⟨hAllowed, hLater, rfl⟩ := ih hZeros
      cases hValue
      have hBits : zerosAndOne (zeros + 1) = fixedBits 1 0 ++ zerosAndOne zeros := rfl
      rw [hBits, List.length_append, ← past_past]
      exact ⟨Nat.succ_lt_succ hAllowed, piece_append hPiece hLater, rfl⟩
    · obtain rfl : bit = 1 := by omega
      cases hRest
      exact ⟨Nat.succ_pos _, hPiece, rfl⟩

theorem takes_readBits {count : Nat} (h : count ≤ 32) :
    Takes (readBits count) (· < 2 ^ count) (fixedBits count) := by
  intro reader value after hRead
  by_cases hNone : count = 0
  · subst hNone
    cases hRead
    exact ⟨Nat.one_pos, List.nil_prefix, rfl⟩
  · rw [readBits_eq count reader hNone h] at hRead
    split at hRead
    · cases hRead
    · rename_i hLeft
      cases hRead
      refine ⟨field_lt .., ?_, by rw [length_fixedBits]⟩
      rw [fixedBits_field (Nat.not_lt.mp hLeft)]
      exact List.take_prefix _ _

/-- The unsigned code of a number that has been put together from a count of zeros and the bits
behind the one after them. -/
theorem unsignedBits_of_parts {zeros suffix : Nat} (h : suffix < 2 ^ zeros) :
    unsignedBits (2 ^ zeros - 1 + suffix) = zerosAndOne zeros ++ fixedBits zeros suffix := by
  have hPositive := Nat.two_pow_pos zeros
  have hSum : 2 ^ zeros - 1 + suffix + 1 = 2 ^ zeros + suffix := by omega
  have hLog : (2 ^ zeros + suffix).log2 = zeros := by
    rw [Nat.log2_eq_iff (by omega), Nat.pow_succ]
    omega
  rw [unsignedBits_eq, hSum, hLog, Nat.add_sub_cancel_left, zerosAndOne]

theorem takes_readUnsigned : Takes readUnsigned (· ≤ greatestCode) unsignedBits := by
  intro reader value after h
  obtain ⟨zeros, middle, hZeros, hRest⟩ := ok_of_bind h
  obtain ⟨hAllowed, hPiece, rfl⟩ := takes_leadingZeros 32 hZeros
  obtain ⟨suffix, last, hSuffix, hValue⟩ := ok_of_bind hRest
  obtain ⟨hLt, hLater, rfl⟩ := takes_readBits (Nat.le_of_lt hAllowed) hSuffix
  cases hValue
  have hPower : 2 ^ zeros ≤ 2 ^ 31 := Nat.pow_le_pow_right Nat.two_pos (by omega)
  rw [Nat.one_shiftLeft, unsignedBits_of_parts hLt]
  refine ⟨by simp only [greatestCode]; omega, piece_append hPiece hLater, ?_⟩
  rw [past_past, List.length_append]

theorem signedCode_signedValue (code : Nat) : signedCode (signedValue code) = code := by
  unfold signedCode signedValue
  split <;> split <;> omega

theorem takes_readSigned : Takes readSigned (·.natAbs < 2 ^ 31) signedBits := by
  intro reader value after h
  obtain ⟨code, last, hCode, hValue⟩ := ok_of_bind h
  obtain ⟨hAllowed, hPiece, rfl⟩ := takes_readUnsigned hCode
  cases hValue
  rw [signedBits, signedCode_signedValue]
  refine ⟨?_, hPiece, rfl⟩
  simp only [greatestCode] at hAllowed
  unfold signedValue
  split <;> omega

/-! ### Both ways -/

theorem content_writeUnsigned {word : UInt32} (h : word.toNat ≤ greatestCode) :
    (BitWriter.writeUnsigned {} word).content = unsignedBits word.toNat :=
  (BitWriter.holds_empty.writeUnsigned h).content_eq

theorem content_writeSigned {word : Int32} (h : word.toInt.natAbs < 2 ^ 31) :
    (BitWriter.writeSigned {} word).content = signedBits word.toInt :=
  (BitWriter.holds_empty.writeSigned h).content_eq

theorem read_written (fields : List Field) :
    resultOf ((fields.map Field.kind).mapM FieldKind.read { data := Field.written fields }) =
      .ok (fields.map Field.value) := by
  have hBits := (Field.holds_foldl BitWriter.holds_empty fields).finish
  rw [Field.reads_kinds fields { data := Field.written fields } hBits]
  rfl

/-- Numbers come back as they were written, and codes are written as they were read. Whatever fields
are written and closed, reading them in the same order gives their numbers. And where a code is
read, at any place of any bytes, its number is one that can be written, and the bits that come next
and are passed over are those that a writer puts for it. -/
theorem fields_return (fields : List Field) :
    resultOf ((fields.map Field.kind).mapM FieldKind.read { data := Field.written fields }) =
      .ok (fields.map Field.value) ∧
    (∀ reader value after, readUnsigned reader = .ok value after →
      ∃ (word : UInt32) (bits : List Bool), word.toNat = value ∧
        (BitWriter.writeUnsigned {} word).content = bits ∧
        bits <+: reader.unread ∧ after = reader.past bits.length) ∧
    (∀ reader value after, readSigned reader = .ok value after →
      ∃ (word : Int32) (bits : List Bool), word.toInt = value ∧
        (BitWriter.writeSigned {} word).content = bits ∧
        bits <+: reader.unread ∧ after = reader.past bits.length) := by
  refine ⟨read_written fields, fun reader value after h => ?_, fun reader value after h => ?_⟩
  · obtain ⟨hAllowed, hTaken⟩ := takes_readUnsigned h
    have hWord : (UInt32.ofNat value).toNat = value := by
      simp only [greatestCode] at hAllowed
      rw [UInt32.toNat_ofNat', Nat.mod_eq_of_lt (by omega)]
    have hContent := content_writeUnsigned (hWord.symm ▸ hAllowed)
    rw [hWord] at hContent
    exact ⟨_, _, hWord, hContent, hTaken⟩
  · obtain ⟨hAllowed, hTaken⟩ := takes_readSigned h
    have hWord : (Int32.ofInt value).toInt = value :=
      Int32.toInt_ofInt_of_le (by omega) (by omega)
    have hContent := content_writeSigned (hWord.symm ▸ hAllowed)
    rw [hWord] at hContent
    exact ⟨_, _, hWord, hContent, hTaken⟩

/-- A field of three bits, the greatest number with an unsigned code, and a negative number. -/
def threeKinds : List Field :=
  [.fixed 3 5 (by decide) (by decide), .unsigned 4294967294 (by decide),
    .signed (-2) (by decide)]

/-- The bytes of the three fields. -/
def threeKindsBytes : ByteArray := ⟨#[0xa0, 0, 0, 0, 0x3f, 0xff, 0xff, 0xff, 0xcb]⟩

theorem fields_return_threeKinds :
    (Field.written threeKinds).data.toList = threeKindsBytes.data.toList ∧
      resultOf ((threeKinds.map Field.kind).mapM FieldKind.read
        { data := Field.written threeKinds }) = .ok [5, 4294967294, -2] ∧
      (∃ (after : BitReader) (word : UInt32) (bits : List Bool),
        readUnsigned { data := threeKindsBytes, position := 3 } = .ok 4294967294 after ∧
        word.toNat = 4294967294 ∧ (BitWriter.writeUnsigned {} word).content = bits ∧
        after.position = 3 + bits.length) ∧
      ∃ (after : BitReader) (word : Int32) (bits : List Bool),
        readSigned { data := threeKindsBytes, position := 66 } = .ok (-2) after ∧
        word.toInt = -2 ∧ (BitWriter.writeSigned {} word).content = bits ∧
        after.position = 66 + bits.length := by
  obtain ⟨hRead, hUnsigned, hSigned⟩ := fields_return threeKinds
  refine ⟨by decide +kernel, hRead, ?_, ?_⟩
  · have hCode : resultOf (readUnsigned { data := threeKindsBytes, position := 3 }) =
        .ok 4294967294 := ok_of_toOption (by decide +kernel)
    obtain ⟨after, hAfter⟩ := ok_of_resultOf hCode
    obtain ⟨word, bits, hWord, hContent, -, hPast⟩ := hUnsigned _ _ _ hAfter
    exact ⟨after, word, bits, hAfter, hWord, hContent, congrArg position hPast⟩
  · have hCode : resultOf (readSigned { data := threeKindsBytes, position := 66 }) = .ok (-2) :=
      ok_of_toOption (by decide +kernel)
    obtain ⟨after, hAfter⟩ := ok_of_resultOf hCode
    obtain ⟨word, bits, hWord, hContent, -, hPast⟩ := hSigned _ _ _ hAfter
    exact ⟨after, word, bits, hAfter, hWord, hContent, congrArg position hPast⟩

end FrameFeed.BitReader
