import FrameFeed.Proofs.Bits.Listed
import FrameFeed.Proofs.Bits.Words

/-! Calls of a reader, one after another, where a call that fails does not end them. A reader of
bytes, one in the words of a machine, and one of a plain list of bits answer all calls alike and
stay at the same place. -/

namespace FrameFeed

/-! ### Calls -/

/-- What a reader of bits can be asked for. -/
inductive BitCall where
  | readBit
  | readFlag
  | readBits (count : UInt32)
  | skipBits (count : UInt32)
  | readUnsigned
  | readSigned
  | skipUnsigned
  deriving DecidableEq, Repr

/-- What a call gives. -/
inductive BitAnswer where
  | done
  | number (value : Nat)
  | flag (value : Bool)
  | integer (value : Int)
  deriving DecidableEq, Repr

/-- The steps that a reader of bits takes, one for each call. -/
structure BitSteps (Failure State : Type) where
  readBit : EStateM Failure State Nat
  readFlag : EStateM Failure State Bool
  readBits : Nat → EStateM Failure State Nat
  skipBits : Nat → EStateM Failure State Unit
  readUnsigned : EStateM Failure State Nat
  readSigned : EStateM Failure State Int
  skipUnsigned : EStateM Failure State Unit

namespace BitSteps

variable {Failure State : Type} (steps : BitSteps Failure State)

def perform : BitCall → EStateM Failure State BitAnswer
  | .readBit => do return .number (← steps.readBit)
  | .readFlag => do return .flag (← steps.readFlag)
  | .readBits count => do return .number (← steps.readBits count.toNat)
  | .skipBits count => do
    steps.skipBits count.toNat
    return .done
  | .readUnsigned => do return .number (← steps.readUnsigned)
  | .readSigned => do return .integer (← steps.readSigned)
  | .skipUnsigned => do
    steps.skipUnsigned
    return .done

/-- What the calls give and where they leave off; after one that fails the next one is made. -/
def replay : List BitCall → State → List (Except Failure BitAnswer) × State
  | [], state => ([], state)
  | call :: calls, state =>
    let result := steps.perform call state
    let (answers, after) := replay calls (stateOf result)
    (resultOf result :: answers, after)

variable {steps}

theorem replay_cons {call : BitCall} {calls : List BitCall} {state after : State}
    {answers : List (Except Failure BitAnswer)}
    (h : steps.replay calls (stateOf (steps.perform call state)) = (answers, after)) :
    steps.replay (call :: calls) state =
      (resultOf (steps.perform call state) :: answers, after) := by
  rw [replay, h]

end BitSteps

def BitReader.steps : BitSteps Fault BitReader where
  readBit := readBit
  readFlag := readFlag
  readBits := readBits
  skipBits := skipBits
  readUnsigned := readUnsigned
  readSigned := readSigned
  skipUnsigned := skipUnsigned

def WordReader.steps : BitSteps Stop WordReader where
  readBit := readBit
  readFlag := readFlag
  readBits := readBits
  skipBits := skipBits
  readUnsigned := readUnsigned
  readSigned := readSigned
  skipUnsigned := skipUnsigned

def BitList.steps : BitSteps Fault (List Bool) where
  readBit := readBit
  readFlag := readFlag
  readBits := readBits
  skipBits := skipBits
  readUnsigned := readUnsigned
  readSigned := readSigned
  skipUnsigned := skipUnsigned

/-! ### On a plain list -/

namespace BitReader

theorem lists_perform (call : BitCall) :
    Lists (steps.perform call) (BitList.steps.perform call) := by
  cases call with
  | readBit => exact lists_readBit.bind fun _ => lists_pure _
  | readFlag => exact lists_readFlag.bind fun _ => lists_pure _
  | readBits count => exact (lists_readBits _).bind fun _ => lists_pure _
  | skipBits count => exact (lists_skipBits _).bind fun _ => lists_pure _
  | readUnsigned => exact lists_readUnsigned.bind fun _ => lists_pure _
  | readSigned => exact lists_readSigned.bind fun _ => lists_pure _
  | skipUnsigned => exact lists_skipUnsigned.bind fun _ => lists_pure _

/-- A call answers what it answers on the list, and passes over the bits that it takes off. -/
theorem perform_listed (call : BitCall) (reader : BitReader) : ∃ count ≤ reader.remaining,
    stateOf (steps.perform call reader) = reader.past count ∧
    stateOf (BitList.steps.perform call reader.unread) = reader.unread.drop count ∧
    resultOf (BitList.steps.perform call reader.unread) = resultOf (steps.perform call reader) := by
  obtain ⟨count, hCount, hBoth⟩ := lists_perform call reader
  refine ⟨count, hCount, ?_⟩
  rcases hBoth with ⟨value, hAction, hListed⟩ | ⟨fault, hAction, hListed⟩
  · rw [hAction, hListed]
    exact ⟨rfl, rfl, rfl⟩
  · rw [hAction, hListed]
    exact ⟨rfl, rfl, rfl⟩

theorem replay_listed (calls : List BitCall) (reader : BitReader) :
    ∃ answers, ∃ count ≤ reader.remaining,
      steps.replay calls reader = (answers, reader.past count) ∧
      BitList.steps.replay calls reader.unread = (answers, reader.unread.drop count) := by
  induction calls generalizing reader with
  | nil => exact ⟨[], 0, Nat.zero_le _, rfl, rfl⟩
  | cons call calls ih =>
    obtain ⟨first, hFirst, hAfter, hListedAfter, hSame⟩ := perform_listed call reader
    obtain ⟨answers, second, hSecond, hReplay, hListed⟩ := ih (reader.past first)
    rw [remaining_past] at hSecond
    rw [past_past] at hReplay
    rw [unread_past, List.drop_drop] at hListed
    refine ⟨_ :: answers, first + second, by omega, BitSteps.replay_cons (by rwa [hAfter]), ?_⟩
    rw [← hSame]
    exact BitSteps.replay_cons (by rwa [hListedAfter])

end BitReader

/-! ### In words -/

namespace WordReader

variable {words : WordReader}

/-- At a place, a step in words gives what the action gives, and leaves off where it does. -/
def SameAt {Value : Type} (step : Action Value) (action : BitReader.Action Value)
    (words : WordReader) : Prop :=
  ∃ after : WordReader, after.Sound ∧ stateOf (step words) = after ∧
    stateOf (action words.plain) = after.plain ∧
    resultOf (step words) = (resultOf (action words.plain)).mapError Stop.fault

theorem InWords.sameAt {Value : Type} {Holds : Value → Prop} {step : Action Value}
    {action : BitReader.Action Value} (h : InWords Holds step action) (hWords : words.Sound) :
    SameAt step action words := by
  obtain ⟨after, hAfter, ⟨value, -, hStep, hAction⟩ | ⟨fault, -, hStep, hAction⟩⟩ := h words hWords
  · rw [SameAt, hStep, hAction]
    exact ⟨after, hAfter, rfl, rfl, rfl⟩
  · rw [SameAt, hStep, hAction]
    exact ⟨after, hAfter, rfl, rfl, rfl⟩

theorem SameAt.map {Value Value' : Type} {step : Action Value} {action : BitReader.Action Value}
    (h : SameAt step action words) (change : Value → Value') :
    SameAt (do return change (← step)) (do return change (← action)) words := by
  obtain ⟨after, hAfter, hStep, hAction, hResult⟩ := h
  refine ⟨after, hAfter, ?_, ?_, ?_⟩
  · rw [stateOf_bind_pure, hStep]
  · rw [stateOf_bind_pure, hAction]
  · rw [resultOf_bind_pure, resultOf_bind_pure, hResult]
    cases resultOf (action words.plain) <;> rfl

theorem sameAt_readBits (hWords : words.Sound) (count : Nat) :
    SameAt (readBits count) (BitReader.readBits count) words := by
  by_cases hCount : count ≤ 32
  · exact (inWords_readBits hCount).sameAt hWords
  · have hStep : readBits count words = .error (.fault (.bitCount count)) words := by
      rw [readBits, if_neg (by omega), if_pos (by omega)]
      rfl
    have hAction : BitReader.readBits count words.plain = .error (.bitCount count) words.plain := by
      rw [BitReader.readBits, if_neg (by omega), if_pos (by omega)]
    rw [SameAt, hStep, hAction]
    exact ⟨words, hWords, rfl, rfl, rfl⟩

/-- As the bits of the data are fewer than a word can count, so are those that are left. -/
theorem sameAt_skipBits (hWords : words.Sound) (hSize : words.data.size < 2 ^ 29) (count : Nat) :
    SameAt (skipBits count) (BitReader.skipBits count) words := by
  by_cases hLeft : words.plain.remaining < count
  · rw [SameAt, hWords.skipBits_short hLeft, BitReader.skipBits, if_pos hLeft]
    exact ⟨words, hWords, rfl, rfl, rfl⟩
  · have hWord : words.bitIndex + count < 2 ^ 32 := by
      simp only [plain, BitReader.remaining] at hLeft
      have hPlace := hWords.place_le
      omega
    obtain ⟨after, hAfter, hPlain, hSkip⟩ := hWords.skipBits_ok (Nat.not_lt.mp hLeft) hWord
    rw [SameAt, hSkip, BitReader.skipBits, if_neg hLeft]
    exact ⟨after, hAfter, rfl, hPlain.symm, rfl⟩

theorem sameAt_perform (hWords : words.Sound) (hSize : words.data.size < 2 ^ 29)
    (call : BitCall) :
    SameAt (steps.perform call) (BitReader.steps.perform call) words := by
  cases call with
  | readBit => exact (inWords_readBit.sameAt hWords).map BitAnswer.number
  | readFlag => exact (inWords_readFlag.sameAt hWords).map BitAnswer.flag
  | readBits count => exact (sameAt_readBits hWords count.toNat).map BitAnswer.number
  | skipBits count => exact (sameAt_skipBits hWords hSize count.toNat).map fun _ => BitAnswer.done
  | readUnsigned => exact (inWords_readUnsigned.sameAt hWords).map BitAnswer.number
  | readSigned => exact (inWords_readSigned.sameAt hWords).map BitAnswer.integer
  | skipUnsigned => exact (inWords_skipUnsigned.sameAt hWords).map fun _ => BitAnswer.done

theorem replay_inWords (calls : List BitCall) (hWords : words.Sound)
    (hSize : words.data.size < 2 ^ 29) :
    ∃ answers after, after.Sound ∧
      BitReader.steps.replay calls words.plain = (answers, after.plain) ∧
      steps.replay calls words = (answers.map (·.mapError Stop.fault), after) := by
  induction calls generalizing words with
  | nil => exact ⟨[], words, hWords, rfl, rfl⟩
  | cons call calls ih =>
    obtain ⟨middle, hMiddle, hStep, hAction, hSame⟩ := sameAt_perform hWords hSize call
    -- No call changes the data, so that their size is the same for the next call.
    have hData : middle.data = words.data := by
      obtain ⟨count, -, hPast, -⟩ := BitReader.perform_listed call words.plain
      rw [hAction] at hPast
      exact congrArg BitReader.data hPast
    obtain ⟨answers, after, hAfter, hReplay, hReplayWords⟩ := ih hMiddle (by rwa [hData])
    refine ⟨_ :: answers, after, hAfter, BitSteps.replay_cons (by rwa [hAction]), ?_⟩
    rw [List.map_cons, ← hSame]
    exact BitSteps.replay_cons (by rwa [hStep])

end WordReader

/-! ### At every place -/

namespace BitReader

variable {reader : BitReader} {data : ByteArray}

theorem replay_readBit {count : Nat} (h : count ≤ reader.remaining) :
    (steps.replay (List.replicate count .readBit) reader).2 = reader.past count := by
  induction count generalizing reader with
  | zero => rfl
  | succ count ih =>
    have hIn : reader.position < 8 * reader.data.size := by
      simp only [remaining] at h
      omega
    have hBit : stateOf (steps.perform .readBit reader) = reader.past 1 := by
      rw [BitSteps.perform, stateOf_bind_pure]
      exact congrArg stateOf (reads_readBit _ reader (bitAt_prefix_unread hIn))
    have hLeft : count ≤ (reader.past 1).remaining := by
      rw [remaining_past]
      omega
    rw [List.replicate_succ, BitSteps.replay, hBit, Nat.add_comm count, ← past_past]
    exact ih hLeft

/-- What holds of a field of `count` bits at the place of a reader. It is there if as many bits are
left, and reading it, skipping it, and reading its bits one by one all lead behind it. Where it is
not there, or is longer than a word, the reader stays. -/
structure FieldLaw (reader : BitReader) (count : Nat) : Prop where
  readBits_there : count ≤ 32 → count ≤ reader.remaining → readBits count reader =
    .ok (BitList.numberOf (reader.unread.take count)) (reader.past count)
  skipBits_there : count ≤ reader.remaining → skipBits count reader = .ok () (reader.past count)
  readBit_there : count ≤ reader.remaining →
    (steps.replay (List.replicate count .readBit) reader).2 = reader.past count
  readBits_short : count ≤ 32 → reader.remaining < count →
    readBits count reader = .error .endOfStream reader
  readBits_long : 32 < count → readBits count reader = .error (.bitCount count) reader
  skipBits_short : reader.remaining < count → skipBits count reader = .error .endOfStream reader

theorem fieldLaw (reader : BitReader) (count : Nat) : FieldLaw reader count where
  readBits_there hCount hLeft := by
    have hPiece : fixedBits count (field reader.data reader.position count) <+: reader.unread :=
      fixedBits_field hLeft ▸ List.take_prefix ..
    rw [← field_eq_numberOf hLeft, reads_readBits hCount (field_lt ..) reader hPiece,
      length_fixedBits]
  skipBits_there hLeft := if_neg (Nat.not_lt.mpr hLeft)
  readBit_there := replay_readBit
  readBits_short hCount hLeft := by
    rw [readBits_eq count reader (by omega) hCount, if_pos hLeft]
  readBits_long hCount := by
    rw [readBits, if_neg (by omega), if_pos hCount]
  skipBits_short hLeft := if_pos hLeft

/-- A reader is a place in the list of the bits of its data. Whatever is called, also after calls
that have failed, the answers are those that the list gives, and a field at the place follows
`FieldLaw`. If a word can count the bits of the data, a reader in words gives the same answers and
is at the same place: none of its numbers, shifts and indices is ever out of range. The bits that it
has read and those that are left are always all of them. -/
theorem calls_refine (data : ByteArray) (limit : Nat) (hSize : data.size < 2 ^ 29)
    (hLimit : 2 ^ 32 - 1 ≤ limit) (calls : List BitCall) :
    ∃ answers position, position ≤ 8 * data.size ∧
      BitList.steps.replay calls (bitsOf data) = (answers, (bitsOf data).drop position) ∧
      steps.replay calls { data } = (answers, { data, position }) ∧
      (∀ count, FieldLaw { data, position } count) ∧
      ∃ words : WordReader, words.data = data ∧
        words.byteIndex = position / 8 ∧ words.bitIndex = position % 8 ∧
        WordReader.steps.replay calls { data, limit } =
          (answers.map (·.mapError Stop.fault), words) ∧
        resultOf (WordReader.bitsRead words) = .ok position ∧
        resultOf (WordReader.bitsLeft words) = .ok (8 * data.size - position) := by
  have hCountable : 8 * data.size ≤ limit := by omega
  obtain ⟨answers, position, hPosition, hReplay, hListed⟩ := replay_listed calls { data }
  obtain ⟨answersPlain, words, hWords, hPlain, hReplayWords⟩ :=
    WordReader.replay_inWords calls (WordReader.sound_start hCountable) hSize
  -- Both replays are those of the reader at the start of the data.
  have hStart : past { data } position = { data, position } := by
    rw [past, Nat.zero_add]
  rw [hStart] at hReplay
  obtain ⟨rfl, hPlace⟩ := Prod.mk.inj (hReplay.symm.trans hPlain)
  have hByte : position = 8 * words.byteIndex + words.bitIndex := congrArg BitReader.position hPlace
  have hBit := hWords.bitIndex_lt
  refine ⟨answers, position, hPosition, hListed, hReplay, fieldLaw _, words,
    (congrArg BitReader.data hPlace).symm, by omega, by omega, hReplayWords, ?_, ?_⟩
  · rw [hWords.bitsRead_eq, ← hPlace]
    rfl
  · rw [hWords.bitsLeft_eq, ← hPlace]
    rfl

/-- A field that is too long, bits that are too many to be skipped, and a code that the data ends
inside: the next call goes on where each of them left off. -/
theorem calls_refine_afterFailures :
    ∃ words : WordReader, words.byteIndex = 2 ∧ words.bitIndex = 6 ∧
      WordReader.steps.replay [.readBits 3, .readBits 33, .readFlag, .skipBits 100, .readUnsigned,
          .readSigned, .readUnsigned, .readBits 5, .readBits 3]
          { data := ⟨#[0xA5, 0x00, 0x9F]⟩, limit := 2 ^ 32 - 1 } =
        ([.ok (.number 5), .error (.fault (.bitCount 33)), .ok (.flag false),
          .error (.fault .endOfStream), .ok (.number 1), .ok (.integer 0),
          .error (.fault .endOfStream), .ok (.number 7), .error (.fault .endOfStream)], words) := by
  obtain ⟨answers, position, hPosition, hListed, -, -, words, -, hByte, hBit, hReplay, -, -⟩ :=
    calls_refine ⟨#[0xA5, 0x00, 0x9F]⟩ (2 ^ 32 - 1) (by decide) (Nat.le_refl _) [.readBits 3,
      .readBits 33, .readFlag, .skipBits 100, .readUnsigned, .readSigned, .readUnsigned,
      .readBits 5, .readBits 3]
  obtain ⟨hAnswers, hRest⟩ := Prod.mk.inj hListed
  have hLeft := congrArg List.length hRest
  rw [List.length_drop] at hLeft
  have hTwo : 2 = 24 - position := hLeft
  have hAll : position ≤ 24 := hPosition
  exact ⟨words, by omega, by omega, by rw [hReplay, ← hAnswers]; rfl⟩

end BitReader

end FrameFeed
