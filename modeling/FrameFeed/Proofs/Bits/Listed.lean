import FrameFeed.Proofs.Bits.Cutting

/-! Reading off a plain list of bits. What is left to be read is a list, and reading takes bits off
its front: a field is the number that its bits stand for, and a code is told by the zeros at the
front. A `BitReader` reads the same off the list of its bits, with the same faults, and moves on by
the bits that it takes. -/

namespace FrameFeed

/-! ### The plain list -/

namespace BitList

/-- A step that takes bits off the front of a list. -/
abbrev Action := EStateM Fault (List Bool)

/-- The number that bits stand for, the most significant one first. -/
def numberOf : List Bool → Nat
  | [] => 0
  | bit :: rest => bit.toNat * 2 ^ rest.length + numberOf rest

def readBit : Action Nat
  | [] => .error .endOfStream []
  | bit :: rest => .ok bit.toNat rest

def readFlag : Action Bool
  | [] => .error .endOfStream []
  | bit :: rest => .ok bit rest

def readBits (count : Nat) : Action Nat := fun bits =>
  if 32 < count then .error (.bitCount count) bits
  else if bits.length < count then .error .endOfStream bits
  else .ok (numberOf (bits.take count)) (bits.drop count)

def skipBits (count : Nat) : Action Unit := fun bits =>
  if bits.length < count then .error .endOfStream bits else .ok () (bits.drop count)

/-- The number of zeros at the front. -/
def zerosAhead (bits : List Bool) : Nat := (bits.takeWhile (!·)).length

/-- Takes the zeros at the front and the one behind them, if there are not too many zeros. -/
def leadingZeros (allowance : Nat) : Action Nat := fun bits =>
  if allowance ≤ zerosAhead bits then .error .codeTooLong (bits.drop allowance)
  else if bits.length ≤ zerosAhead bits then .error .endOfStream []
  else .ok (zerosAhead bits) (bits.drop (zerosAhead bits + 1))

def readUnsigned : Action Nat := do
  let zeros ← leadingZeros 32
  let suffix ← readBits zeros
  return 2 ^ zeros - 1 + suffix

/-- Odd codes are positive numbers, even ones are zero and the negative numbers. -/
def readSigned : Action Int := do
  let code ← readUnsigned
  return if code % 2 = 0 then -(code / 2 : Nat) else (code / 2 : Nat) + 1

def skipUnsigned : Action Unit := do
  let _ ← readUnsigned

theorem zerosAhead_zero (rest : List Bool) :
    zerosAhead (false :: rest) = zerosAhead rest + 1 := rfl

/-- Zeros are counted one by one. -/
theorem leadingZeros_succ (allowance : Nat) : leadingZeros (allowance + 1) =
    (do
      if (← readBit) == 0 then
        return (← leadingZeros allowance) + 1
      else
        return 0) := by
  funext bits
  match bits with
  | [] => rfl
  | true :: rest => rfl
  | false :: rest =>
    have hRest : (do
        if (← readBit) == 0 then
          return (← leadingZeros allowance) + 1
        else
          return 0 : Action Nat) (false :: rest) =
        (do return (← leadingZeros allowance) + 1 : Action Nat) rest := rfl
    rw [hRest]
    simp only [leadingZeros, zerosAhead_zero, Nat.succ_le_succ_iff, List.length_cons,
      List.drop_succ_cons, bind, EStateM.bind]
    split
    · rfl
    · split
      · rfl
      · rfl

theorem numberOf_fixedBits (count value : Nat) :
    numberOf (BitReader.fixedBits count value) = value % 2 ^ count := by
  induction count with
  | zero => exact (Nat.mod_one value).symm
  | succ count ih =>
    rw [BitReader.fixedBits, numberOf, BitReader.length_fixedBits, ih, Nat.toNat_testBit,
      Nat.pow_succ, Nat.mod_mul, Nat.mul_comm, Nat.add_comm]

end BitList

/-! ### Readers -/

namespace BitReader

variable {reader : BitReader}

/-- A field is the number that its bits stand for. -/
theorem field_eq_numberOf {count : Nat} (h : count ≤ reader.remaining) :
    field reader.data reader.position count = BitList.numberOf (reader.unread.take count) := by
  rw [← fixedBits_field h, BitList.numberOf_fixedBits, Nat.mod_eq_of_lt (field_lt ..)]

section Lists

variable {Value Value' : Type} {action : Action Value} {listed : BitList.Action Value}
  {next : Value → Action Value'} {nextListed : Value → BitList.Action Value'}

/-- Off the list of the bits that are left, `listed` does what the action does: it gives the same
value or fault, and takes as many bits as the action passes over. -/
def Lists (action : Action Value) (listed : BitList.Action Value) : Prop :=
  ∀ reader : BitReader, ∃ count ≤ reader.remaining,
    (∃ value, action reader = .ok value (reader.past count) ∧
      listed reader.unread = .ok value (reader.unread.drop count)) ∨
    ∃ fault, action reader = .error fault (reader.past count) ∧
      listed reader.unread = .error fault (reader.unread.drop count)

theorem lists_pure (value : Value) : Lists (pure value) (pure value) :=
  fun _ => ⟨0, Nat.zero_le _, .inl ⟨value, rfl, rfl⟩⟩

theorem lists_throw (fault : Fault) : Lists (throw fault : Action Value) (throw fault) :=
  fun _ => ⟨0, Nat.zero_le _, .inr ⟨fault, rfl, rfl⟩⟩

theorem Lists.bind (h : Lists action listed)
    (hNext : ∀ value, Lists (next value) (nextListed value)) :
    Lists (action >>= next) (listed >>= nextListed) := by
  intro reader
  obtain ⟨first, hFirst, ⟨value, hAction, hListed⟩ | ⟨fault, hAction, hListed⟩⟩ := h reader
  · obtain ⟨second, hSecond, hRest⟩ := hNext value (reader.past first)
    rw [remaining_past] at hSecond
    rw [past_past, unread_past, List.drop_drop] at hRest
    refine ⟨first + second, by omega, ?_⟩
    rw [bind_of_ok hAction, bind_of_ok hListed]
    exact hRest
  · refine ⟨first, hFirst, .inr ⟨fault, ?_, ?_⟩⟩
    · exact bind_of_error hAction
    · exact bind_of_error hListed

theorem Lists.ite {condition : Prop} [Decidable condition] {other : Action Value}
    {otherListed : BitList.Action Value} (h : Lists action listed)
    (hOther : Lists other otherListed) :
    Lists (if condition then action else other) (if condition then listed else otherListed) := by
  split
  · exact h
  · exact hOther

end Lists

theorem unread_of_end (h : reader.remaining = 0) : reader.unread = [] := by
  apply List.eq_nil_of_length_eq_zero
  rw [length_unread, h]

theorem unread_cons (h : reader.position < 8 * reader.data.size) :
    reader.unread = bitAt reader.data reader.position :: (reader.past 1).unread := by
  obtain ⟨rest, hRest⟩ := bitAt_prefix_unread h
  rw [unread_past, ← hRest]
  rfl

theorem lists_readBit : Lists readBit BitList.readBit := by
  intro reader
  by_cases hIn : reader.position < 8 * reader.data.size
  · have hLeft : 1 ≤ reader.remaining := by simp only [remaining]; omega
    refine ⟨1, hLeft, .inl ⟨_, reads_readBit _ reader (bitAt_prefix_unread hIn), ?_⟩⟩
    rw [unread_cons hIn]
    rfl
  · have hEnd : reader.remaining = 0 := by simp only [remaining]; omega
    refine ⟨0, Nat.zero_le _, .inr ⟨.endOfStream, if_neg (by omega), ?_⟩⟩
    rw [unread_of_end hEnd]
    rfl

theorem lists_readFlag : Lists readFlag BitList.readFlag := by
  have hListed : BitList.readFlag = (do return (← BitList.readBit) == 1) := by
    funext bits
    rcases bits with - | ⟨- | -, rest⟩ <;> rfl
  rw [hListed]
  exact lists_readBit.bind fun _ => lists_pure _

theorem lists_readBits (count : Nat) : Lists (readBits count) (BitList.readBits count) := by
  intro reader
  simp only [readBits, BitList.readBits, length_unread]
  split
  · rename_i hNone
    subst hNone
    exact ⟨0, Nat.zero_le _, .inl ⟨0, rfl, rfl⟩⟩
  · split
    · exact ⟨0, Nat.zero_le _, .inr ⟨_, rfl, rfl⟩⟩
    · split
      · exact ⟨0, Nat.zero_le _, .inr ⟨_, rfl, rfl⟩⟩
      · rename_i hLeft
        rw [field_eq_numberOf (Nat.not_lt.mp hLeft)]
        exact ⟨count, Nat.not_lt.mp hLeft, .inl ⟨_, rfl, rfl⟩⟩

theorem lists_skipBits (count : Nat) : Lists (skipBits count) (BitList.skipBits count) := by
  intro reader
  simp only [skipBits, BitList.skipBits, length_unread]
  split
  · exact ⟨0, Nat.zero_le _, .inr ⟨_, rfl, rfl⟩⟩
  · rename_i hLeft
    exact ⟨count, Nat.not_lt.mp hLeft, .inl ⟨(), rfl, rfl⟩⟩

theorem lists_leadingZeros (allowance : Nat) :
    Lists (leadingZeros allowance) (BitList.leadingZeros allowance) := by
  induction allowance with
  | zero => exact lists_throw .codeTooLong
  | succ allowance ih =>
    rw [BitList.leadingZeros_succ]
    exact lists_readBit.bind fun _ => .ite (ih.bind fun _ => lists_pure _) (lists_pure 0)

theorem lists_readUnsigned : Lists readUnsigned BitList.readUnsigned :=
  (lists_leadingZeros 32).bind fun zeros => (lists_readBits zeros).bind fun suffix => by
    rw [Nat.one_shiftLeft]
    exact lists_pure _

theorem lists_readSigned : Lists readSigned BitList.readSigned :=
  lists_readUnsigned.bind fun code => by
    have hValue : signedValue code =
        if code % 2 = 0 then -((code / 2 : Nat) : Int) else (code / 2 : Nat) + 1 := by
      unfold signedValue
      split <;> omega
    rw [hValue]
    exact lists_pure _

theorem lists_skipUnsigned : Lists skipUnsigned BitList.skipUnsigned :=
  lists_readUnsigned.bind fun _ => lists_pure ()

end BitReader

end FrameFeed
