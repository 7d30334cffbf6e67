import FrameFeed.Proofs.Bits.Words
import FrameFeed.Proofs.Sps.Sizes
import Mathlib.Control.Monad.Basic

/-! Reading a parameter set in the words of a machine. Whatever the bytes are, no index, number or
shift is ever out of range, and what comes out is what comes out in numbers of any size. -/

namespace FrameFeed.Sps.Words

open WordReader

/-! ### The parameter set in words -/

def skipScales : (count : Nat) → (last next : Int) → Action Unit
  | 0, _, _ => pure ()
  | count + 1, last, next => do
    let next ← if next = 0 then pure 0 else do
      let difference ← readSigned
      let sum ← signed 64 (last + difference)
      pure (asSigned (sum % 256))
    skipScales count (if next = 0 then last else next) next

def skipScalingLists (count : Nat) : Action Unit :=
  (List.range count).forM fun index => do
    if ← readFlag then
      skipScales (if index < 6 then 16 else 64) 8 8

def readChroma : Action Nat := do
  let declared ← readUnsigned
  if 3 < declared then
    throw (.fault (.chromaFormat declared))
  let chroma ← if declared = 3 then do
      if ← readFlag then pure 0 else pure 3
    else
      pure declared
  skipUnsigned
  skipUnsigned
  skipBits 1
  if ← readFlag then
    skipScalingLists (if chroma = 3 then 12 else 8)
  return chroma

def skipSigned : (count : Nat) → Action Unit
  | 0 => pure ()
  | count + 1 => do
    let _ ← readSigned
    skipSigned count

def skipOrderCount : Action Unit := do
  match ← readUnsigned with
  | 0 => skipUnsigned
  | 1 =>
    skipBits 1
    skipSigned 2
    let cycle ← readUnsigned
    if 255 < cycle then
      throw (.fault (.orderCountCycle cycle))
    skipSigned cycle
  | _ => pure ()

def readStart : Action Start := do
  let profile ← readBits 8
  skipBits 8
  let level ← readBits 8
  skipUnsigned
  let chroma ← if hasChroma (profile % 256) then readChroma else pure 1
  return { profile := profile % 256, level := level % 256, chroma }

def readHead (start : Start) : Action Head := do
  skipUnsigned
  skipOrderCount
  skipUnsigned
  skipBits 1
  let blocksAcross ← readUnsigned
  let unitsDown ← readUnsigned
  let framesOnly ← readFlag
  if !framesOnly then
    skipBits 1
  skipBits 1
  return { profile := start.profile, level := start.level, chroma := start.chroma
           blocksAcross, unitsDown, framesOnly }

/-- The number if it fits in 32 bits; nothing else happens if it does not. -/
def fitting? (value : Nat) : Option Nat := if value < 2 ^ 32 then some value else none

/-- A sum, times a factor, that has to fit. -/
def checkedSize (field : SizeField) (first second factor : Nat) : Action Nat :=
  match (fitting? (first + second)).bind fun sum => fitting? (sum * factor) with
  | some value => pure value
  | none => throw (.fault (.sizeOverflow field))

def codedSize (head : Head) : Action (Nat × Nat) := do
  let width ← checkedSize .width head.blocksAcross 1 16
  let unit ← unsigned 32 (16 * head.fieldFactor)
  let height ← checkedSize .height head.unitsDown 1 unit
  return (width, height)

def cropUnit (head : Head) : Action (Nat × Nat) :=
  match head.chroma with
  | 0 => pure (1, head.fieldFactor)
  | 1 => do return (2, ← unsigned 32 (2 * head.fieldFactor))
  | 2 => pure (2, head.fieldFactor)
  | _ => pure (1, head.fieldFactor)

def applyCrop (crop : Crop) (head : Head) (coded : Nat × Nat) : Action (Nat × Nat) := do
  let unit ← cropUnit head
  let across ← checkedSize .cropAcross crop.left crop.right unit.1
  let down ← checkedSize .cropDown crop.top crop.bottom unit.2
  if coded.1 ≤ across ∨ coded.2 ≤ down then
    throw (.fault (.cropTooLarge across down coded.1 coded.2))
  else
    let width ← less coded.1 across
    let height ← less coded.2 down
    return (width, height)

def readCropFields : Action Crop := do
  return { left := ← readUnsigned, right := ← readUnsigned
           top := ← readUnsigned, bottom := ← readUnsigned }

def readPicture (head : Head) : Action Sps := do
  let coded ← codedSize head
  let size ← if ← readFlag then do
      let crop ← readCropFields
      applyCrop crop head coded
    else
      pure coded
  return { profile := head.profile, level := head.level, width := size.1, height := size.2
           framesOnly := head.framesOnly, aspect := .undeclared }

/-- Reads a flag; where the data has ended there is none. -/
def readFlagIfAny : Action Bool := fun words =>
  match readFlag words with
  | .error (.fault _) words => .ok false words
  | result => result

def readAspect : Action AspectRatio := do
  if !(← readFlagIfAny) then
    return .undeclared
  if !(← readFlagIfAny) then
    return .undeclared
  let index ← readBits 8
  if index = 255 then
    return .explicit (← readBits 16) (← readBits 16)
  else if index < AspectRatio.table.size then
    return .listed index
  else
    return .reserved index

def read : Action Sps := do
  let start ← readStart
  let head ← readHead start
  let picture ← readPicture head
  let aspect ← readAspect
  return { picture with aspect }

/-- The parameter set in a payload, on a machine that counts up to `limit`. -/
def parse (limit : Nat) (payload : ByteArray) : Except Stop Sps :=
  if payload.size < 4 then
    .error (.fault (.spsTooShort payload.size))
  else
    resultOf (read { data := payload, limit })

/-! ### Steps in words -/

/-- A scale is below 256, so that its sum with a difference is far from 64 bits. -/
def Scale (value : Int) : Prop := 0 ≤ value ∧ value < 256

theorem inWords_skipScales {count : Nat} {last next : Int} (hLast : Scale last)
    (hNext : Scale next) :
    InWords (fun _ => True) (skipScales count last next) (Sps.skipScales count last next) := by
  induction count generalizing last next with
  | zero => exact inWords_pure trivial
  | succ count ih =>
    have hRest {next : Int} (hNext : Scale next) : InWords (fun _ => True)
        (skipScales count (if next = 0 then last else next) next)
        (Sps.skipScales count (if next = 0 then last else next) next) := by
      refine ih ?_ hNext
      split
      · exact hLast
      · exact hNext
    unfold skipScales Sps.skipScales
    dsimp only
    refine InWords.ite (fun _ => hRest ⟨Int.le_refl 0, by decide⟩) fun _ => ?_
    refine inWords_readSigned.bind fun difference hDifference => ?_
    obtain ⟨hLow, hHigh⟩ := hLast
    have hScale : Scale ((last + difference) % 256) := ⟨by omega, by omega⟩
    have hWord : asSigned ((last + difference) % 256) = (last + difference) % 256 :=
      asSigned_eq (by omega)
    rw [signed_eq (by omega), pure_bind, hWord]
    exact hRest hScale

theorem inWords_skipScalingLists (count : Nat) :
    InWords (fun _ => True) (skipScalingLists count) (Sps.skipScalingLists count) := by
  refine inWords_forM _ fun index => inWords_readFlag.bind fun present _ => ?_
  refine InWords.ite (fun _ => inWords_skipScales ?_ ?_) fun _ => inWords_pure trivial
  · exact ⟨by decide, by decide⟩
  · exact ⟨by decide, by decide⟩

theorem inWords_readChroma : InWords (fun _ => True) readChroma Sps.readChroma := by
  refine inWords_readUnsigned.bind fun declared _ => ?_
  dsimp only
  have hLists (chroma : Nat) : InWords (fun _ => True)
      (do
        skipUnsigned
        skipUnsigned
        skipBits 1
        if ← readFlag then
          skipScalingLists (if chroma = 3 then 12 else 8)
        return chroma)
      (do
        BitReader.skipUnsigned
        BitReader.skipUnsigned
        BitReader.skipBits 1
        if ← BitReader.readFlag then
          Sps.skipScalingLists (if chroma = 3 then 12 else 8)
        return chroma) := by
    refine inWords_skipUnsigned.bind fun _ _ => inWords_skipUnsigned.bind fun _ _ =>
      (inWords_skipBits (by decide)).bind fun _ _ => inWords_readFlag.bind fun scaled _ => ?_
    dsimp only
    refine InWords.ite (fun _ => ?_) fun _ => inWords_pure trivial
    exact (inWords_skipScalingLists _).bind fun _ _ => inWords_pure trivial
  refine InWords.ite (fun _ => inWords_throw (.inr rfl)) fun _ => ?_
  refine InWords.ite (fun _ => ?_) fun _ => hLists declared
  refine inWords_readFlag.bind fun apart _ => ?_
  exact InWords.ite (fun _ => hLists 0) fun _ => hLists 3

theorem inWords_skipSigned (count : Nat) :
    InWords (fun _ => True) (skipSigned count) (Sps.skipSigned count) := by
  induction count with
  | zero => exact inWords_pure trivial
  | succ count ih => exact inWords_readSigned.bind fun _ _ => ih

theorem inWords_skipOrderCount :
    InWords (fun _ => True) skipOrderCount Sps.skipOrderCount := by
  refine inWords_readUnsigned.bind fun kind _ => ?_
  match kind with
  | 0 => exact inWords_skipUnsigned
  | 1 =>
    refine (inWords_skipBits (by decide)).bind fun _ _ => (inWords_skipSigned 2).bind fun _ _ =>
      inWords_readUnsigned.bind fun cycle _ => ?_
    dsimp only
    exact InWords.ite (fun _ => inWords_throw (.inr rfl)) fun _ => inWords_skipSigned cycle
  | _ + 2 => exact inWords_pure trivial

theorem inWords_readStart : InWords (fun _ => True) readStart Start.read := by
  refine (inWords_readBits (by decide)).bind fun profile hProfile =>
    (inWords_skipBits (by decide)).bind fun _ _ =>
    (inWords_readBits (by decide)).bind fun level hLevel => inWords_skipUnsigned.bind fun _ _ => ?_
  rw [Nat.mod_eq_of_lt (show profile < 256 from hProfile),
    Nat.mod_eq_of_lt (show level < 256 from hLevel)]
  refine InWords.ite (fun _ => ?_) fun _ => inWords_pure trivial
  exact inWords_readChroma.bind fun _ _ => inWords_pure trivial

theorem inWords_readHead (start : Start) :
    InWords (fun _ => True) (readHead start) start.readHead := by
  refine inWords_skipUnsigned.bind fun _ _ => inWords_skipOrderCount.bind fun _ _ =>
    inWords_skipUnsigned.bind fun _ _ => (inWords_skipBits (by decide)).bind fun _ _ =>
    inWords_readUnsigned.bind fun blocksAcross _ => inWords_readUnsigned.bind fun unitsDown _ =>
    inWords_readFlag.bind fun framesOnly _ => ?_
  have hDirect (head : Head) : InWords (fun _ => True) (do skipBits 1; pure head)
      (do BitReader.skipBits 1; pure head) :=
    (inWords_skipBits (by decide)).bind fun _ _ => inWords_pure trivial
  dsimp only
  refine InWords.ite (fun _ => ?_) fun _ => hDirect _
  exact (inWords_skipBits (by decide)).bind fun _ _ => hDirect _

/-! ### Sizes in words -/

theorem fieldFactor_cases (head : Head) : head.fieldFactor = 1 ∨ head.fieldFactor = 2 := by
  unfold Head.fieldFactor
  split
  · exact .inl rfl
  · exact .inr rfl

theorem inWords_checkedSize (field : SizeField) {first second factor : Nat} (hFactor : 0 < factor) :
    InWords (· = factor * (first + second)) (checkedSize field first second factor)
      (checked (inWord field (factor * (first + second)))) := by
  have hSum : first + second ≤ factor * (first + second) := Nat.le_mul_of_pos_left _ hFactor
  have hInWord : inWord field (factor * (first + second)) =
      if factor * (first + second) < 2 ^ 32 then .ok (factor * (first + second))
      else .error (.sizeOverflow field) := rfl
  rw [checkedSize, hInWord]
  by_cases hFits : factor * (first + second) < 2 ^ 32
  · have hSome : ((fitting? (first + second)).bind fun sum => fitting? (sum * factor)) =
        some (factor * (first + second)) := by
      rw [fitting?, if_pos (Nat.lt_of_le_of_lt hSum hFits), Option.bind_some,
        Nat.mul_comm (first + second), fitting?, if_pos hFits]
    rw [if_pos hFits, hSome]
    exact inWords_pure rfl
  · have hNone : ((fitting? (first + second)).bind fun sum => fitting? (sum * factor)) = none := by
      unfold fitting?
      split
      · rw [Option.bind_some, Nat.mul_comm (first + second), if_neg hFits]
      · rfl
    rw [if_neg hFits, hNone]
    exact inWords_throw (.inr rfl)

theorem checked_bind {Value Value' : Type} (result : Except Fault Value)
    (next : Value → Except Fault Value') :
    checked (result >>= next) = checked result >>= fun value => checked (next value) := by
  cases result <;> rfl

theorem inWords_codedSize (head : Head) :
    InWords (fun _ => True) (codedSize head) (checked head.codedSize) := by
  have hFactor := fieldFactor_cases head
  unfold codedSize Head.codedSize
  simp only [checked_bind]
  refine (inWords_checkedSize .width (by decide)).bind fun width hWidth => ?_
  rw [unsigned_eq (by omega), pure_bind]
  exact (inWords_checkedSize .height (by omega)).bind fun height hHeight => inWords_pure trivial

theorem cropUnit_eq (head : Head) : cropUnit head = pure head.cropUnit := by
  have hFactor := fieldFactor_cases head
  unfold cropUnit Head.cropUnit
  match head.chroma with
  | 0 => rfl
  | 1 =>
    simp only [unsigned_eq (show 2 * head.fieldFactor < 2 ^ 32 by omega), pure_bind]
  | 2 => rfl
  | _ + 3 => rfl

theorem cropUnit_pos (head : Head) : 0 < head.cropUnit.1 ∧ 0 < head.cropUnit.2 := by
  have hFactor := fieldFactor_cases head
  unfold Head.cropUnit
  split <;> constructor <;> dsimp only <;> omega

theorem inWords_applyCrop (crop : Crop) (head : Head) (coded : Nat × Nat) :
    InWords (fun _ => True) (applyCrop crop head coded) (checked (crop.apply head coded)) := by
  obtain ⟨hAcross, hDown⟩ := cropUnit_pos head
  unfold applyCrop Crop.apply
  rw [cropUnit_eq, pure_bind]
  simp only [checked_bind]
  refine (inWords_checkedSize .cropAcross hAcross).bind fun across hAcross => ?_
  refine (inWords_checkedSize .cropDown hDown).bind fun down hDown => ?_
  by_cases hLeft : coded.1 ≤ across ∨ coded.2 ≤ down
  · rw [if_pos hLeft, if_pos hLeft]
    exact inWords_throw (.inr rfl)
  · rw [if_neg hLeft, if_neg hLeft, less_eq (by omega), pure_bind, less_eq (by omega), pure_bind]
    exact inWords_pure trivial

theorem inWords_readCropFields : InWords (fun _ => True) readCropFields Crop.read :=
  inWords_readUnsigned.bind fun _ _ => inWords_readUnsigned.bind fun _ _ =>
    inWords_readUnsigned.bind fun _ _ => inWords_readUnsigned.bind fun _ _ => inWords_pure trivial

theorem inWords_readPicture (head : Head) :
    InWords (fun _ => True) (readPicture head) head.readPicture := by
  refine (inWords_codedSize head).bind fun coded _ => inWords_readFlag.bind fun cropped _ => ?_
  refine InWords.ite (fun _ => ?_) fun _ => inWords_pure trivial
  exact inWords_readCropFields.bind fun crop _ =>
    (inWords_applyCrop crop head coded).bind fun _ _ => inWords_pure trivial

/-! ### The shape of the samples, and the whole -/

theorem inWords_readFlagIfAny : InWords (fun _ => True) readFlagIfAny Sps.readFlagIfAny := by
  intro words hWords
  obtain ⟨after, hAfter, ⟨flag, hFlag, hStep, hAction⟩ | ⟨fault, hFault, hStep, hAction⟩⟩ :=
    inWords_readFlag words hWords
  · refine ⟨after, hAfter, .inl ⟨flag, hFlag, ?_, ?_⟩⟩
    · rw [readFlagIfAny, hStep]
    · rw [Sps.readFlagIfAny, hAction]
  · refine ⟨after, hAfter, .inl ⟨false, trivial, ?_, ?_⟩⟩
    · rw [readFlagIfAny, hStep]
    · rw [Sps.readFlagIfAny, hAction]

theorem inWords_readAspect : InWords (fun _ => True) readAspect Sps.readAspect := by
  refine inWords_readFlagIfAny.bind fun vui _ => ?_
  refine InWords.ite (fun _ => inWords_pure trivial) fun _ => ?_
  refine inWords_readFlagIfAny.bind fun announced _ => ?_
  refine InWords.ite (fun _ => inWords_pure trivial) fun _ => ?_
  refine (inWords_readBits (by decide)).bind fun index _ => ?_
  refine InWords.ite (fun _ => ?_) fun _ => ?_
  · exact (inWords_readBits (by decide)).bind fun _ _ =>
      (inWords_readBits (by decide)).bind fun _ _ => inWords_pure trivial
  · exact InWords.ite (fun _ => inWords_pure trivial) fun _ => inWords_pure trivial

theorem inWords_read : InWords (fun _ => True) read Sps.read := by
  rw [read_eq_readHead, head_read_eq, bind_assoc]
  exact inWords_readStart.bind fun start _ => (inWords_readHead start).bind fun head _ =>
    (inWords_readPicture head).bind fun _ _ => inWords_readAspect.bind fun _ _ =>
    inWords_pure trivial

/-- In words a parameter set is parsed as it is in numbers, and what is wrong with it is a fault of
the data. -/
theorem parse_eq {limit : Nat} {payload : ByteArray} (h : 8 * payload.size ≤ limit) :
    parse limit payload = (Sps.parse payload).mapError Stop.fault ∧
      ∀ fault, Sps.parse payload = .error fault → DataFault fault := by
  by_cases hShort : payload.size < 4
  · rw [parse, if_pos hShort, Sps.parse, if_pos hShort]
    refine ⟨rfl, fun fault hFault => ?_⟩
    cases hFault
    exact .inr rfl
  · rw [parse, if_neg hShort, parse_eq_resultOf (Nat.not_lt.mp hShort)]
    obtain ⟨after, -, ⟨sps, -, hStep, hAction⟩ | ⟨fault, hFault, hStep, hAction⟩⟩ :=
      inWords_read _ (sound_start h)
    · have hPlain : Sps.read { data := payload } = .ok sps after.plain := hAction
      rw [hStep, hPlain]
      refine ⟨rfl, fun other hOther => ?_⟩
      cases hOther
    · have hPlain : Sps.read { data := payload } = .error fault after.plain := hAction
      rw [hStep, hPlain]
      refine ⟨rfl, fun other hOther => ?_⟩
      cases hOther
      exact hFault

/-- The arithmetic of a parameter set is exact, whatever the bytes are. On a machine that can count
their bits no index, number or shift is out of range, and the result is the one in numbers of any
size; what fails is the data. The size is that of the coded picture less what is cropped, and at
least one sample is left. A coded picture of a width or height of 32 bits or more is refused, and so
is cropping that takes away all of it. -/
theorem parse_exact (payload : ByteArray) :
    (∀ limit, 8 * payload.size ≤ limit →
      parse limit payload = (Sps.parse payload).mapError Stop.fault) ∧
    (∀ fault, Sps.parse payload = .error fault →
      fault.kind = .endOfStream ∨ fault.kind = .invalidData) ∧
    (∀ sps, Sps.parse payload = .ok sps → 1 ≤ sps.width ∧ 1 ≤ sps.height ∧
      ∃ head crop after, readSizes { data := payload } = .ok (head, crop) after ∧
        (head.fieldFactor = 1 ∨ head.fieldFactor = 2) ∧
        (sps.width : Int) = 16 * (head.blocksAcross + 1) -
          head.cropUnit.1 * (crop.left + crop.right) ∧
        (sps.height : Int) = 16 * head.fieldFactor * (head.unitsDown + 1) -
          head.cropUnit.2 * (crop.top + crop.bottom)) ∧
    (∀ head after, Head.read { data := payload } = .ok head after →
      2 ^ 32 ≤ 16 * (head.blocksAcross + 1) ∨
        2 ^ 32 ≤ 16 * head.fieldFactor * (head.unitsDown + 1) →
      ∃ fault, Sps.parse payload = .error fault ∧ fault.kind = .invalidData) ∧
    (∀ head crop after, readSizes { data := payload } = .ok (head, crop) after →
      16 * (head.blocksAcross + 1) ≤ head.cropUnit.1 * (crop.left + crop.right) ∨
        16 * head.fieldFactor * (head.unitsDown + 1) ≤
          head.cropUnit.2 * (crop.top + crop.bottom) →
      ∃ fault, Sps.parse payload = .error fault ∧ fault.kind = .invalidData) := by
  have hRefused (hRead : ∃ fault, resultOf (Sps.read { data := payload }) = .error fault ∧
      fault.kind = .invalidData) :
      ∃ fault, Sps.parse payload = .error fault ∧ fault.kind = .invalidData := by
    by_cases hShort : payload.size < 4
    · exact ⟨.spsTooShort payload.size, if_pos hShort, rfl⟩
    · rw [parse_eq_resultOf (Nat.not_lt.mp hShort)]
      exact hRead
  refine ⟨fun limit hLimit => (parse_eq hLimit).1, (parse_eq (Nat.le_refl _)).2, ?_,
    fun head after hHead hLarge => hRefused (read_oversized hHead hLarge),
    fun head crop after hSizes hLarge => hRefused (read_overcropped hSizes hLarge)⟩
  intro sps hParse
  have hLong : 4 ≤ payload.size := by
    apply Nat.not_lt.mp
    intro hShort
    rw [Sps.parse, if_pos hShort] at hParse
    cases hParse
  rw [parse_eq_resultOf hLong] at hParse
  obtain ⟨after, hRead⟩ := ok_of_resultOf hParse
  obtain ⟨head, crop, middle, hSizes, hAcross, hDown, hWidth, hHeight⟩ := read_ok hRead
  refine ⟨by omega, by omega, head, crop, middle, hSizes, fieldFactor_cases head, ?_, ?_⟩
  · rw [hWidth, Int.ofNat_sub (Nat.le_of_lt hAcross)]
    simp only [Head.extent, Crop.extent, Int.natCast_mul, Int.natCast_add, Int.natCast_one]
    rfl
  · rw [hHeight, Int.ofNat_sub (Nat.le_of_lt hDown)]
    simp only [Head.extent, Crop.extent, Int.natCast_mul, Int.natCast_add, Int.natCast_one]
    rfl

/-- Pictures of 1920 by 1088 samples, of which the last eight rows are cropped. -/
def croppedPicture : ByteArray := ⟨#[0x42, 0xc0, 0x28, 0xf4, 0x03, 0xc0, 0x11, 0x3f, 0x2a]⟩

/-- The same with the largest numbers that a code can tell for the left and the right edge. -/
def overcropped : ByteArray :=
  ⟨#[0x42, 0xc0, 0x28, 0xf4, 0x03, 0xc0, 0x11, 0x38, 0x00, 0x00, 0x00, 0x0f, 0xff, 0xff, 0xff, 0xf0,
    0x00, 0x00, 0x00, 0x1f, 0xff, 0xff, 0xff, 0xfa]⟩

/-- Pictures of a width of 2 to the 32 samples. -/
def oversized : ByteArray :=
  ⟨#[0x42, 0xc0, 0x28, 0xf4, 0x00, 0x00, 0x00, 0x08, 0x00, 0x00, 0x00, 0x01, 0x13, 0x20]⟩

theorem parse_exact_croppedPicture :
    (∃ sps, parse 72 croppedPicture = .ok sps ∧ 1 ≤ sps.width ∧ 1 ≤ sps.height ∧
      sps.width = 1920 ∧ sps.height = 1080) ∧
    (∃ fault, Sps.parse overcropped = .error fault ∧ fault.kind = .invalidData) ∧
    ∃ fault, Sps.parse oversized = .error fault ∧ fault.kind = .invalidData := by
  refine ⟨?_, ?_, ?_⟩
  · obtain ⟨hWords, -, hSize, -⟩ := parse_exact croppedPicture
    have hParse : Sps.parse croppedPicture = .ok
        { profile := 66, level := 40, width := 1920, height := 1080, framesOnly := true
          aspect := .undeclared } := ok_of_toOption (by decide +kernel)
    obtain ⟨hWidth, hHeight, -⟩ := hSize _ hParse
    have hSame := hWords 72 (by decide)
    rw [hParse] at hSame
    exact ⟨_, hSame, hWidth, hHeight, rfl, rfl⟩
  · obtain ⟨-, -, -, -, hCrop⟩ := parse_exact overcropped
    have hSizes : resultOf (readSizes { data := overcropped }) = .ok
        ({ profile := 66, level := 40, chroma := 1, blocksAcross := 119, unitsDown := 67
           framesOnly := true },
          { left := 4294967294, right := 4294967294, top := 0, bottom := 0 }) :=
      ok_of_toOption (by decide +kernel)
    obtain ⟨after, hRead⟩ := ok_of_resultOf hSizes
    exact hCrop _ _ after hRead (by decide)
  · obtain ⟨-, -, -, hLarge, -⟩ := parse_exact oversized
    have hHead : resultOf (Head.read { data := oversized }) = .ok
        { profile := 66, level := 40, chroma := 1, blocksAcross := 268435455, unitsDown := 67
          framesOnly := true } :=
      ok_of_toOption (by decide +kernel)
    obtain ⟨after, hRead⟩ := ok_of_resultOf hHead
    exact hLarge _ after hRead (by decide)

end FrameFeed.Sps.Words
