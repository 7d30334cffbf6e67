import FrameFeed.Proofs.Bits.Codes
import Mathlib.Algebra.Group.Int.Defs

/-! Reading bits in the words of a machine. A `WordReader` holds its place as the index of a byte
and of a bit in it, and its numbers have 8, 32 or 64 bits; a number, a shift or an index out of
range stops it. It reads what a `BitReader` reads, and nothing is ever out of range. -/

namespace FrameFeed

open EStateM (Result)

/-- What ends a reading in words. -/
inductive Stop where
  | fault (fault : Fault)
  /-- A number does not fit in its word, a shift is as long as its word, or no byte is at an
  index. -/
  | outOfRange
  deriving DecidableEq, Repr

/-- Bytes and the place of the next bit: the index of its byte, and how many bits of that byte come
before it. No count of bytes or bits may be larger than `limit`. -/
structure WordReader where
  data : ByteArray
  limit : Nat
  byteIndex : Nat := 0
  bitIndex : Nat := 0

namespace WordReader

/-- A step in words. -/
abbrev Action := EStateM Stop WordReader

/-! ### Arithmetic -/

/-- A number without a sign, in a word of so many bits. -/
def unsigned (bits value : Nat) : Action Nat :=
  if value < 2 ^ bits then pure value else throw .outOfRange

/-- A number with a sign, in a word of so many bits. -/
def signed (bits : Nat) (value : Int) : Action Int :=
  if -2 ^ (bits - 1) ≤ value ∧ value < 2 ^ (bits - 1) then pure value else throw .outOfRange

/-- A difference that may not be negative. -/
def less (value amount : Nat) : Action Nat :=
  if amount ≤ value then pure (value - amount) else throw .outOfRange

/-- A shift in a word of so many bits; what is shifted out is lost. -/
def shiftedLeft (bits value amount : Nat) : Action Nat :=
  if amount < bits then pure ((value <<< amount) % 2 ^ bits) else throw .outOfRange

def shiftedRight (bits value amount : Nat) : Action Nat :=
  if amount < bits then pure (value >>> amount) else throw .outOfRange

/-- A count of bytes or bits. -/
def counted (value : Nat) : Action Nat := fun reader =>
  if value ≤ reader.limit then .ok value reader else .error .outOfRange reader

def byteAt (index : Nat) : Action Nat := fun reader =>
  match reader.data[index]? with
  | some byte => .ok byte.toNat reader
  | none => .error .outOfRange reader

section

variable {bits value amount : Nat}

theorem unsigned_eq (h : value < 2 ^ bits) : unsigned bits value = pure value := if_pos h

theorem signed_eq {value : Int} (h : -2 ^ (bits - 1) ≤ value ∧ value < 2 ^ (bits - 1)) :
    signed bits value = pure value := if_pos h

theorem less_eq (h : amount ≤ value) : less value amount = pure (value - amount) := if_pos h

theorem shiftedLeft_eq (hAmount : amount < bits) (hValue : value * 2 ^ amount < 2 ^ bits) :
    shiftedLeft bits value amount = pure (value <<< amount) := by
  rw [shiftedLeft, if_pos hAmount, Nat.mod_eq_of_lt (by rwa [Nat.shiftLeft_eq])]

theorem shiftedRight_eq (h : amount < bits) :
    shiftedRight bits value amount = pure (value >>> amount) := if_pos h

end

/-! ### Reading -/

def bitsLeft : Action Nat := do
  let reader ← get
  if reader.data.size ≤ reader.byteIndex then
    return 0
  else
    let bytes ← less reader.data.size reader.byteIndex
    let bits ← counted (bytes * 8)
    less bits reader.bitIndex

def bitsRead : Action Nat := do
  let reader ← get
  let bits ← counted (reader.byteIndex * 8)
  counted (bits + reader.bitIndex)

/-- Goes on by some bits, no further than to the end of the byte. -/
def advance (count : Nat) : Action Unit := do
  let reader ← get
  let bitIndex ← unsigned 8 (reader.bitIndex + count)
  if 8 ≤ bitIndex then
    let byteIndex ← counted (reader.byteIndex + 1)
    set { reader with byteIndex, bitIndex := 0 }
  else
    set { reader with bitIndex }

def readBit : Action Nat := do
  let reader ← get
  if reader.data.size ≤ reader.byteIndex then
    throw (.fault .endOfStream)
  else
    let byte ← byteAt reader.byteIndex
    let shift ← less 7 reader.bitIndex
    let shifted ← shiftedRight 8 byte shift
    advance 1
    return shifted &&& 1

def readFlag : Action Bool := do return (← readBit) == 1

/-- Reads, of `remaining` bits, those that are in one byte, and puts them behind the bits in
`result`. Gives the new result and the number of bits that remain. -/
def readPart (result remaining : Nat) : Action (Nat × Nat) := do
  let reader ← get
  let available ← less 8 reader.bitIndex
  let taken := min remaining available
  let shift ← less available taken
  let power ← shiftedLeft 32 1 taken
  let mask ← less power 1
  let byte ← byteAt reader.byteIndex
  let shifted ← shiftedRight 8 byte shift
  let moved ← shiftedLeft 32 result taken
  advance (taken % 256)
  let rest ← less remaining taken
  return (moved ||| (shifted &&& mask % 256), rest)

/-- Reads part after part until no bits remain. -/
def readParts : (passes result remaining : Nat) → Action Nat
  | 0, result, remaining => if remaining = 0 then pure result else throw .outOfRange
  | passes + 1, result, remaining => do
    if remaining = 0 then
      return result
    else
      let (result, remaining) ← readPart result remaining
      readParts passes result remaining

def readBits (count : Nat) : Action Nat := do
  if count = 0 then
    return 0
  else if 32 < count then
    throw (.fault (.bitCount count))
  else if (← bitsLeft) < count then
    throw (.fault .endOfStream)
  else
    readParts count 0 count

def skipBits (count : Nat) : Action Unit := do
  if (← bitsLeft) < count then
    throw (.fault .endOfStream)
  else
    let reader ← get
    let bits ← unsigned 32 (reader.bitIndex + count)
    let byteIndex ← counted (reader.byteIndex + bits / 8)
    set { reader with byteIndex, bitIndex := bits % 8 }

/-- Counts the zeros before the next one on top of those that have been counted. -/
def leadingZeros : (passes zeros : Nat) → Action Nat
  | 0, _ => throw .outOfRange
  | passes + 1, zeros => do
    if (← readBit) == 0 then
      let zeros ← unsigned 32 (zeros + 1)
      if 31 < zeros then
        throw (.fault .codeTooLong)
      else
        leadingZeros passes zeros
    else
      return zeros

def readUnsigned : Action Nat := do
  let zeros ← leadingZeros 32 0
  if zeros = 0 then
    return 0
  else
    let suffix ← readBits zeros
    let power ← shiftedLeft 32 1 zeros
    let least ← less power 1
    unsigned 32 (least + suffix)

/-- A number as a word of 32 bits with a sign has it. -/
def asSigned (value : Int) : Int := value.bmod (2 ^ 32)

def readSigned : Action Int := do
  let code ← readUnsigned
  let value := asSigned ((code + 1) / 2 : Nat)
  if code &&& 1 = 0 then
    signed 32 (-value)
  else
    return value

def skipUnsigned : Action Unit := do
  let _ ← readUnsigned

/-! ### Places -/

/-- The place is inside the data or at its end, and the bits of the data can be counted. -/
structure Sound (words : WordReader) : Prop where
  bitIndex_lt : words.bitIndex < 8
  place_le : 8 * words.byteIndex + words.bitIndex ≤ 8 * words.data.size
  limit_le : 8 * words.data.size ≤ words.limit

/-- The reader that is at the same place. -/
def plain (words : WordReader) : BitReader :=
  { data := words.data, position := 8 * words.byteIndex + words.bitIndex }

variable {words : WordReader}

theorem sound_start {data : ByteArray} {limit : Nat} (h : 8 * data.size ≤ limit) :
    Sound { data, limit } where
  bitIndex_lt := Nat.succ_pos 7
  place_le := Nat.zero_le _
  limit_le := h

theorem Sound.bitsLeft_eq (h : words.Sound) :
    bitsLeft words = .ok words.plain.remaining words := by
  obtain ⟨hBit, hPlace, hLimit⟩ := h
  unfold bitsLeft
  rw [get_bind]
  by_cases hEnd : words.data.size ≤ words.byteIndex
  · have hNone : words.plain.remaining = 0 := by
      simp only [plain, BitReader.remaining]
      omega
    rw [if_pos hEnd, hNone]
    rfl
  · have hSome : words.plain.remaining =
        (words.data.size - words.byteIndex) * 8 - words.bitIndex := by
      simp only [plain, BitReader.remaining]
      omega
    have hCount : counted ((words.data.size - words.byteIndex) * 8) words =
        .ok ((words.data.size - words.byteIndex) * 8) words := if_pos (by omega)
    rw [if_neg hEnd, less_eq (by omega), pure_bind, bind_of_ok hCount, less_eq (by omega), hSome]
    rfl

theorem Sound.bitsRead_eq (h : words.Sound) :
    bitsRead words = .ok words.plain.position words := by
  obtain ⟨-, hPlace, hLimit⟩ := h
  have hBytes : counted (words.byteIndex * 8) words = .ok (words.byteIndex * 8) words :=
    if_pos (by omega)
  have hBits : counted (words.byteIndex * 8 + words.bitIndex) words =
      .ok (words.byteIndex * 8 + words.bitIndex) words := if_pos (by omega)
  have hPosition : words.plain.position = words.byteIndex * 8 + words.bitIndex := by
    simp only [plain]
    omega
  rw [bitsRead, get_bind, bind_of_ok hBytes, hBits, hPosition]

theorem Sound.advance (h : words.Sound) {count : Nat} (hByte : words.bitIndex + count ≤ 8)
    (hPlace : words.plain.position + count ≤ 8 * words.data.size) :
    ∃ after, after.Sound ∧ after.plain = words.plain.past count ∧
      advance count words = .ok () after := by
  obtain ⟨hBit, -, hLimit⟩ := h
  simp only [plain] at hPlace
  unfold WordReader.advance
  rw [get_bind, unsigned_eq (show words.bitIndex + count < 2 ^ 8 by omega), pure_bind]
  by_cases hNext : 8 ≤ words.bitIndex + count
  · have hCount : counted (words.byteIndex + 1) words = .ok (words.byteIndex + 1) words :=
      if_pos (by omega)
    rw [if_pos hNext, bind_of_ok hCount]
    refine ⟨{ words with byteIndex := words.byteIndex + 1, bitIndex := 0 },
      ⟨Nat.succ_pos 7, ?_, hLimit⟩, ?_, rfl⟩
    · show 8 * (words.byteIndex + 1) + 0 ≤ 8 * words.data.size
      omega
    · simp only [plain, BitReader.past]
      congr 1
      omega
  · rw [if_neg hNext]
    refine ⟨{ words with bitIndex := words.bitIndex + count },
      ⟨Nat.not_le.mp hNext, ?_, hLimit⟩, ?_, rfl⟩
    · show 8 * words.byteIndex + (words.bitIndex + count) ≤ 8 * words.data.size
      omega
    · simp only [plain, BitReader.past, Nat.add_assoc]

/-! ### Steps -/

/-- The faults that data can have: it ends too early, or what it says is not allowed. -/
def DataFault (fault : Fault) : Prop := fault.kind = .endOfStream ∨ fault.kind = .invalidData

section InWords

variable {Value Value' : Type} {Holds : Value → Prop} {Holds' : Value' → Prop}
  {step : Action Value} {action : BitReader.Action Value}
  {next : Value → Action Value'} {next' : Value → BitReader.Action Value'}

/-- In words a step does what the action does: it gives the same value or comes upon the same
fault, and leaves off at the same place. The value has a property; the fault is one of the data. -/
def InWords (Holds : Value → Prop) (step : Action Value) (action : BitReader.Action Value) : Prop :=
  ∀ words : WordReader, words.Sound → ∃ after : WordReader, after.Sound ∧
    ((∃ value, Holds value ∧ step words = .ok value after ∧
        action words.plain = .ok value after.plain) ∨
      ∃ fault, DataFault fault ∧ step words = .error (.fault fault) after ∧
        action words.plain = .error fault after.plain)

theorem inWords_pure {value : Value} (h : Holds value) : InWords Holds (pure value) (pure value) :=
  fun words hWords => ⟨words, hWords, .inl ⟨value, h, rfl, rfl⟩⟩

theorem inWords_throw {fault : Fault} (h : DataFault fault) :
    InWords Holds (throw (.fault fault)) (throw fault) :=
  fun words hWords => ⟨words, hWords, .inr ⟨fault, h, rfl, rfl⟩⟩

theorem InWords.bind (h : InWords Holds step action)
    (hNext : ∀ value, Holds value → InWords Holds' (next value) (next' value)) :
    InWords Holds' (step >>= next) (action >>= next') := by
  intro words hWords
  obtain ⟨middle, hMiddle, ⟨value, hValue, hStep, hAction⟩ | ⟨fault, hFault, hStep, hAction⟩⟩ :=
    h words hWords
  · rw [bind_of_ok hStep, bind_of_ok hAction]
    exact hNext value hValue middle hMiddle
  · rw [bind_of_error hStep, bind_of_error hAction]
    exact ⟨middle, hMiddle, .inr ⟨fault, hFault, rfl, rfl⟩⟩

theorem InWords.map (h : InWords Holds step action) (change : Value → Value')
    (hChange : ∀ value, Holds value → Holds' (change value)) :
    InWords Holds' (do return change (← step)) (do return change (← action)) :=
  h.bind fun value hValue => inWords_pure (hChange value hValue)

theorem InWords.ite {condition : Prop} [Decidable condition] {other : Action Value}
    {other' : BitReader.Action Value} (h : condition → InWords Holds step action)
    (hOther : ¬condition → InWords Holds other other') :
    InWords Holds (if condition then step else other) (if condition then action else other') := by
  by_cases hCondition : condition
  · rw [if_pos hCondition, if_pos hCondition]
    exact h hCondition
  · rw [if_neg hCondition, if_neg hCondition]
    exact hOther hCondition

theorem inWords_forM {Item : Type} {step : Item → Action Unit}
    {action : Item → BitReader.Action Unit} (items : List Item)
    (h : ∀ item, InWords (fun _ => True) (step item) (action item)) :
    InWords (fun _ => True) (items.forM step) (items.forM action) := by
  induction items with
  | nil => exact inWords_pure trivial
  | cons item items ih => exact (h item).bind fun _ _ => ih

end InWords

theorem byteAt_eq {index : Nat} (h : index < words.data.size) :
    byteAt index words = .ok (BitReader.byteAt words.data index) words := by
  simp only [byteAt, BitReader.byteAt, getElem?_pos words.data index h, Option.getD_some]

/-- What a byte still has from a place in it on, as many of its bits as are asked for. -/
theorem part_eq {count : Nat} (h : words.bitIndex + count ≤ 8) :
    BitReader.byteAt words.data words.byteIndex >>> (8 - words.bitIndex - count) &&&
        (2 ^ count - 1) =
      BitReader.field words.plain.data words.plain.position count := by
  rw [Nat.and_two_pow_sub_one_eq_mod]
  exact (BitReader.field_inside words.data h).symm

theorem inWords_readBit : InWords (fun _ => True) readBit BitReader.readBit := by
  intro words hWords
  have hBit := hWords.bitIndex_lt
  unfold readBit
  rw [get_bind]
  by_cases hEnd : words.data.size ≤ words.byteIndex
  · refine ⟨words, hWords, .inr ⟨.endOfStream, .inl rfl, ?_, ?_⟩⟩
    · rw [if_pos hEnd]
      rfl
    · exact if_neg (by simp only [plain]; omega)
  · obtain ⟨after, hAfter, hPlain, hAdvance⟩ :=
      hWords.advance (show words.bitIndex + 1 ≤ 8 by omega) (by simp only [plain]; omega)
    have hByte := byteAt_eq (Nat.not_le.mp hEnd)
    have hRead : BitReader.readBit words.plain =
        .ok (BitReader.byteAt words.data words.byteIndex >>> (7 - words.bitIndex) &&& 1)
          (words.plain.past 1) := by
      rw [BitReader.readBit, if_pos (by simp only [plain]; omega), Nat.and_one_is_mod]
      simp only [plain, BitReader.past]
      congr 4 <;> omega
    refine ⟨after, hAfter, .inl ⟨_, trivial, ?_, hPlain ▸ hRead⟩⟩
    rw [if_neg hEnd, bind_of_ok hByte, less_eq (by omega), pure_bind, shiftedRight_eq (by omega),
      pure_bind, bind_of_ok hAdvance]
    rfl

theorem readParts_none (passes result : Nat) : readParts passes result 0 = pure result := by
  cases passes <;> exact if_pos rfl

theorem readPart_eq {result done remaining taken : Nat} (hWords : words.Sound)
    (hSome : remaining ≠ 0) (hResult : result < 2 ^ done) (hWord : done + remaining ≤ 32)
    (hLeft : remaining ≤ words.plain.remaining)
    (hTaken : taken = min remaining (8 - words.bitIndex)) :
    ∃ after, after.Sound ∧ after.plain = words.plain.past taken ∧
      readPart result remaining words = .ok (result * 2 ^ taken +
        BitReader.field words.plain.data words.plain.position taken, remaining - taken) after := by
  have hBit := hWords.bitIndex_lt
  simp only [plain, BitReader.remaining] at hLeft
  obtain ⟨after, hAfter, hPlain, hAdvance⟩ :=
    hWords.advance (show words.bitIndex + taken ≤ 8 by omega) (by simp only [plain]; omega)
  refine ⟨after, hAfter, hPlain, ?_⟩
  have hMask : 2 ^ taken ≤ 2 ^ 8 := Nat.pow_le_pow_right Nat.two_pos (by omega)
  have hPositive := Nat.two_pow_pos taken
  have hMoved : result * 2 ^ taken < 2 ^ 32 := calc
    result * 2 ^ taken < 2 ^ done * 2 ^ taken := Nat.mul_lt_mul_of_pos_right hResult hPositive
    _ = 2 ^ (done + taken) := (Nat.pow_add ..).symm
    _ ≤ 2 ^ 32 := Nat.pow_le_pow_right Nat.two_pos (by omega)
  have hByte := byteAt_eq (show words.byteIndex < words.data.size by omega)
  have hPart := part_eq (show words.bitIndex + taken ≤ 8 by omega)
  have hField := BitReader.field_lt words.plain.data words.plain.position taken
  unfold readPart
  rw [get_bind, less_eq (by omega), pure_bind, ← hTaken, less_eq (by omega), pure_bind,
    shiftedLeft_eq (by omega) (by omega), pure_bind,
    less_eq (by rw [Nat.one_shiftLeft]; exact hPositive), pure_bind, bind_of_ok hByte,
    shiftedRight_eq (by omega), pure_bind, shiftedLeft_eq (by omega) hMoved, pure_bind,
    Nat.mod_eq_of_lt (show taken < 256 by omega), bind_of_ok hAdvance, less_eq (by omega),
    pure_bind]
  -- What is left are the numbers: the new bits go where the shift has left zeros.
  rw [Nat.one_shiftLeft, Nat.mod_eq_of_lt (show 2 ^ taken - 1 < 256 by omega), hPart,
    ← Nat.shiftLeft_add_eq_or_of_lt hField, Nat.shiftLeft_eq]
  rfl

theorem readParts_nothing {passes result : Nat} (hWords : words.Sound) :
    ∃ after, after.Sound ∧ after.plain = words.plain.past 0 ∧
      readParts passes result 0 words =
        .ok (result * 2 ^ 0 + BitReader.field words.plain.data words.plain.position 0) after := by
  have hField := BitReader.field_lt words.plain.data words.plain.position 0
  refine ⟨words, hWords, rfl, ?_⟩
  rw [readParts_none, Nat.lt_one_iff.mp hField, Nat.pow_zero, Nat.mul_one]
  rfl

/-- The passes read a field behind the bits that have been read. -/
theorem readParts_eq {passes result done remaining : Nat} (hWords : words.Sound)
    (hPasses : remaining ≤ passes) (hResult : result < 2 ^ done) (hWord : done + remaining ≤ 32)
    (hLeft : remaining ≤ words.plain.remaining) :
    ∃ after, after.Sound ∧ after.plain = words.plain.past remaining ∧
      readParts passes result remaining words =
        .ok (result * 2 ^ remaining +
          BitReader.field words.plain.data words.plain.position remaining) after := by
  -- A pass reads at least one bit, so that there are enough of them.
  induction passes generalizing words result done remaining with
  | zero =>
    obtain rfl : remaining = 0 := by omega
    exact readParts_nothing hWords
  | succ passes ih =>
    by_cases hNone : remaining = 0
    · subst hNone
      exact readParts_nothing hWords
    · obtain ⟨taken, hTaken⟩ : ∃ taken, taken = min remaining (8 - words.bitIndex) := ⟨_, rfl⟩
      obtain ⟨middle, hMiddle, hPlain, hPart⟩ :=
        readPart_eq hWords hNone hResult hWord hLeft hTaken
      have hBit := hWords.bitIndex_lt
      have hRest : taken + (remaining - taken) = remaining := by omega
      have hField := BitReader.field_lt words.plain.data words.plain.position taken
      have hMore : result * 2 ^ taken +
          BitReader.field words.plain.data words.plain.position taken < 2 ^ (done + taken) := by
        rw [Nat.pow_add]
        calc result * 2 ^ taken + BitReader.field words.plain.data words.plain.position taken
            < (result + 1) * 2 ^ taken := by rw [Nat.succ_mul]; omega
          _ ≤ 2 ^ done * 2 ^ taken := Nat.mul_le_mul_right _ hResult
      have hLater : remaining - taken ≤ middle.plain.remaining := by
        rw [hPlain]
        simp only [BitReader.remaining, BitReader.past] at hLeft ⊢
        omega
      obtain ⟨after, hAfter, hPast, hParts⟩ := ih hMiddle (by omega) hMore (by omega) hLater
      refine ⟨after, hAfter, by rw [hPast, hPlain, BitReader.past_past, hRest], ?_⟩
      rw [readParts, if_neg hNone, bind_of_ok hPart]
      refine hParts.trans ?_
      have hWhole := BitReader.field_add words.plain.data words.plain.position taken
        (remaining - taken)
      have hPower : 2 ^ taken * 2 ^ (remaining - taken) = 2 ^ remaining := by
        rw [← Nat.pow_add, hRest]
      rw [hRest] at hWhole
      rw [hPlain, hWhole, Nat.add_mul, Nat.mul_assoc, hPower, Nat.add_assoc]
      rfl

theorem inWords_readFlag : InWords (fun _ => True) readFlag BitReader.readFlag :=
  inWords_readBit.map (· == 1) fun _ _ => trivial

theorem inWords_readBits {count : Nat} (hCount : count ≤ 32) :
    InWords (· < 2 ^ count) (readBits count) (BitReader.readBits count) := by
  intro words hWords
  by_cases hNone : count = 0
  · subst hNone
    exact ⟨words, hWords, .inl ⟨0, Nat.one_pos, rfl, rfl⟩⟩
  · rw [readBits, if_neg hNone, if_neg (Nat.not_lt.mpr hCount), bind_of_ok hWords.bitsLeft_eq,
      BitReader.readBits, if_neg hNone, if_neg (Nat.not_lt.mpr hCount)]
    by_cases hLeft : words.plain.remaining < count
    · rw [if_pos hLeft, if_pos hLeft]
      exact ⟨words, hWords, .inr ⟨.endOfStream, .inl rfl, rfl, rfl⟩⟩
    · obtain ⟨after, hAfter, hPlain, hParts⟩ := readParts_eq hWords (Nat.le_refl count)
        (show 0 < 2 ^ 0 from Nat.one_pos) (by omega) (Nat.not_lt.mp hLeft)
      rw [Nat.zero_mul, Nat.zero_add] at hParts
      rw [if_neg hLeft, if_neg hLeft]
      exact ⟨after, hAfter, .inl ⟨_, BitReader.field_lt .., hParts, by rw [hPlain]; rfl⟩⟩

theorem Sound.skipBits_short (h : words.Sound) {count : Nat}
    (hLeft : words.plain.remaining < count) :
    skipBits count words = .error (.fault .endOfStream) words := by
  rw [skipBits, bind_of_ok h.bitsLeft_eq, if_pos hLeft]
  rfl

/-- Bits that there are can be skipped if their number, together with the index in the byte, fits in
a word. -/
theorem Sound.skipBits_ok (h : words.Sound) {count : Nat} (hLeft : count ≤ words.plain.remaining)
    (hWord : words.bitIndex + count < 2 ^ 32) :
    ∃ after, after.Sound ∧ after.plain = words.plain.past count ∧
      skipBits count words = .ok () after := by
  rw [skipBits, bind_of_ok h.bitsLeft_eq]
  obtain ⟨hBit, hPlace, hLimit⟩ := h
  rw [if_neg (Nat.not_lt.mpr hLeft), get_bind, unsigned_eq hWord, pure_bind]
  simp only [plain, BitReader.remaining] at hLeft
  have hCounted : counted (words.byteIndex + (words.bitIndex + count) / 8) words =
      .ok (words.byteIndex + (words.bitIndex + count) / 8) words := if_pos (by omega)
  rw [bind_of_ok hCounted]
  refine ⟨{ words with
      byteIndex := words.byteIndex + (words.bitIndex + count) / 8
      bitIndex := (words.bitIndex + count) % 8 },
    ⟨Nat.mod_lt _ (Nat.succ_pos 7), ?_, hLimit⟩, ?_, rfl⟩
  · show 8 * (words.byteIndex + (words.bitIndex + count) / 8) + (words.bitIndex + count) % 8 ≤
      8 * words.data.size
    omega
  · simp only [plain, BitReader.past]
    congr 1
    omega

theorem inWords_skipBits {count : Nat} (hCount : count ≤ 32) :
    InWords (fun _ => True) (skipBits count) (BitReader.skipBits count) := by
  intro words hWords
  by_cases hLeft : words.plain.remaining < count
  · rw [hWords.skipBits_short hLeft, BitReader.skipBits, if_pos hLeft]
    exact ⟨words, hWords, .inr ⟨.endOfStream, .inl rfl, rfl, rfl⟩⟩
  · have hBit := hWords.bitIndex_lt
    obtain ⟨after, hAfter, hPlain, hSkip⟩ :=
      hWords.skipBits_ok (Nat.not_lt.mp hLeft) (by omega)
    rw [BitReader.skipBits, if_neg hLeft]
    exact ⟨after, hAfter, .inl ⟨(), trivial, hSkip, by rw [hPlain]; rfl⟩⟩

/-! ### Variable-length codes -/

theorem inWords_leadingZeros_succ {allowance zeros : Nat} (hZeros : zeros < 32)
    (hRest : InWords (· < 32)
      (if 31 < zeros + 1 then throw (.fault .codeTooLong) else leadingZeros allowance (zeros + 1))
      (do return (← BitReader.leadingZeros allowance) + (zeros + 1))) :
    InWords (· < 32) (leadingZeros (allowance + 1) zeros)
      (do return (← BitReader.leadingZeros (allowance + 1)) + zeros) := by
  rw [leadingZeros, BitReader.leadingZeros, bind_assoc]
  refine inWords_readBit.bind fun bit _ => ?_
  rw [ite_bind, pure_bind, Nat.zero_add, bind_assoc]
  refine InWords.ite (fun _ => ?_) fun _ => inWords_pure hZeros
  rw [unsigned_eq (show zeros + 1 < 2 ^ 32 by omega), pure_bind]
  simp only [pure_bind, Nat.add_right_comm _ 1 zeros, Nat.add_assoc]
  exact hRest

/-- The zeros are counted on top of those that have been counted; the last one that is allowed is
the 31st of all. -/
theorem inWords_leadingZeros {allowance zeros : Nat} (h : zeros + (allowance + 1) = 32) :
    InWords (· < 32) (leadingZeros (allowance + 1) zeros)
      (do return (← BitReader.leadingZeros (allowance + 1)) + zeros) := by
  induction allowance generalizing zeros with
  | zero =>
    apply inWords_leadingZeros_succ (by omega)
    rw [if_pos (by omega)]
    exact inWords_throw (.inr rfl)
  | succ allowance ih =>
    apply inWords_leadingZeros_succ (by omega)
    rw [if_neg (by omega)]
    exact ih (by omega)

theorem inWords_readUnsigned :
    InWords (· ≤ BitReader.greatestCode) readUnsigned BitReader.readUnsigned := by
  have hZeros : InWords (· < 32) (leadingZeros 32 0) (BitReader.leadingZeros 32) := by
    have hCounted := inWords_leadingZeros (show 0 + (31 + 1) = 32 from rfl)
    simpa only [Nat.add_zero, bind_pure] using hCounted
  refine hZeros.bind fun zeros hLt => ?_
  by_cases hNone : zeros = 0
  · subst hNone
    exact fun words hWords => ⟨words, hWords, .inl ⟨0, Nat.zero_le _, rfl, rfl⟩⟩
  · rw [if_neg hNone]
    refine (inWords_readBits (Nat.le_of_lt hLt)).bind fun suffix hSuffix => ?_
    have hPower : 2 ^ zeros ≤ 2 ^ 31 := Nat.pow_le_pow_right Nat.two_pos (by omega)
    have hPositive := Nat.two_pow_pos zeros
    rw [shiftedLeft_eq hLt (by omega), pure_bind, Nat.one_shiftLeft, less_eq hPositive, pure_bind,
      unsigned_eq (by omega)]
    exact inWords_pure (by simp only [BitReader.greatestCode]; omega)

theorem inWords_skipUnsigned : InWords (fun _ => True) skipUnsigned BitReader.skipUnsigned :=
  inWords_readUnsigned.map (fun _ => ()) fun _ _ => trivial

theorem asSigned_eq {value : Int} (h : -2 ^ 31 ≤ value ∧ value < 2 ^ 31) : asSigned value = value :=
  Int.bmod_eq_of_le (by omega) (by omega)

theorem inWords_readSigned :
    InWords (fun value => value.natAbs < 2 ^ 31) readSigned BitReader.readSigned := by
  refine inWords_readUnsigned.bind fun code hCode => ?_
  simp only [BitReader.greatestCode] at hCode
  have hHalf : asSigned ((code + 1) / 2 : Nat) = ((code + 1) / 2 : Nat) :=
    asSigned_eq (by omega)
  rw [hHalf, Nat.and_one_is_mod, BitReader.signedValue]
  by_cases hEven : code % 2 = 0
  · rw [if_pos hEven, if_pos hEven, signed_eq (by omega)]
    exact inWords_pure (by omega)
  · rw [if_neg hEven, if_neg hEven]
    exact inWords_pure (by omega)

end WordReader

end FrameFeed
