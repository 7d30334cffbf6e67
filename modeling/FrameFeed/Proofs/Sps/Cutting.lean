import FrameFeed.Proofs.Bits.Cutting
import FrameFeed.Proofs.Sps.Stages
import Mathlib.Control.Monad.Basic

/-! A parameter set that is cut short behind its cropping fields. -/

namespace FrameFeed.Sps

open BitReader

/-! ### The fields of the size -/

theorem piecewise_skipScales (count : Nat) (last next : Int) :
    Piecewise (skipScales count last next) := by
  induction count generalizing last next with
  | zero => exact piecewise_pure ()
  | succ count ih =>
    unfold skipScales
    dsimp only
    split
    · exact (piecewise_pure 0).bind fun _ => ih _ _
    · exact piecewise_readSigned.bind fun _ => (piecewise_pure _).bind fun _ => ih _ _

theorem piecewise_skipScalingLists (count : Nat) : Piecewise (skipScalingLists count) := by
  refine Piecewise.forM _ fun index => piecewise_readFlag.bind fun present => ?_
  split
  · exact piecewise_skipScales _ 8 8
  · exact piecewise_pure ()

theorem piecewise_readChroma : Piecewise readChroma := by
  refine piecewise_readUnsigned.bind fun declared => ?_
  dsimp only
  have hLists (chroma : Nat) : Piecewise (do
      skipUnsigned
      skipUnsigned
      skipBits 1
      if ← readFlag then
        skipScalingLists (if chroma = 3 then 12 else 8)
      return chroma) := by
    refine piecewise_skipUnsigned.bind fun _ => piecewise_skipUnsigned.bind fun _ =>
      (piecewise_skipBits 1).bind fun _ => piecewise_readFlag.bind fun scaled => ?_
    dsimp only
    split
    · exact (piecewise_skipScalingLists _).bind fun _ => piecewise_pure chroma
    · exact piecewise_pure chroma
  split
  · exact piecewise_throw (.chromaFormat declared)
  · split
    · refine piecewise_readFlag.bind fun apart => ?_
      split
      · exact (piecewise_pure 0).bind hLists
      · exact (piecewise_pure 3).bind hLists
    · exact (piecewise_pure declared).bind hLists

theorem piecewise_skipSigned (count : Nat) : Piecewise (skipSigned count) := by
  induction count with
  | zero => exact piecewise_pure ()
  | succ count ih => exact piecewise_readSigned.bind fun _ => ih

theorem piecewise_skipOrderCount : Piecewise skipOrderCount := by
  refine piecewise_readUnsigned.bind fun kind => ?_
  split
  · exact piecewise_skipUnsigned
  · refine (piecewise_skipBits 1).bind fun _ => (piecewise_skipSigned 2).bind fun _ =>
      piecewise_readUnsigned.bind fun cycle => ?_
    dsimp only
    split
    · exact piecewise_throw (.orderCountCycle cycle)
    · exact piecewise_skipSigned cycle
  · exact piecewise_pure ()

theorem piecewise_start : Piecewise Start.read := by
  refine (piecewise_readBits 8).bind fun profile => (piecewise_skipBits 8).bind fun _ =>
    (piecewise_readBits 8).bind fun level => piecewise_skipUnsigned.bind fun _ => ?_
  dsimp only
  split
  · exact piecewise_readChroma.bind fun _ => piecewise_pure _
  · exact piecewise_pure _

theorem piecewise_readHead (start : Start) : Piecewise start.readHead := by
  refine piecewise_skipUnsigned.bind fun _ => piecewise_skipOrderCount.bind fun _ =>
    piecewise_skipUnsigned.bind fun _ => (piecewise_skipBits 1).bind fun _ =>
    piecewise_readUnsigned.bind fun blocksAcross => piecewise_readUnsigned.bind fun unitsDown =>
    piecewise_readFlag.bind fun framesOnly => ?_
  have hDirect : Piecewise (do skipBits 1; pure _ : Action Head) :=
    (piecewise_skipBits 1).bind fun _ => piecewise_pure
      { profile := start.profile, level := start.level, chroma := start.chroma
        blocksAcross, unitsDown, framesOnly }
  dsimp only
  split
  · exact (piecewise_skipBits 1).bind fun _ => hDirect
  · exact hDirect

theorem piecewise_checked {Value : Type} (value : Except Fault Value) :
    Piecewise (checked value) := by
  cases value with
  | ok value => exact piecewise_pure value
  | error fault => exact piecewise_throw fault

theorem piecewise_crop : Piecewise Crop.read :=
  piecewise_readUnsigned.bind fun _ => piecewise_readUnsigned.bind fun _ =>
    piecewise_readUnsigned.bind fun _ => piecewise_readUnsigned.bind fun _ => piecewise_pure _

theorem piecewise_readPicture : Piecewise readPicture := by
  refine piecewise_start.bind fun start => (piecewise_readHead start).bind fun head =>
    (piecewise_checked _).bind fun coded => piecewise_readFlag.bind fun cropped => ?_
  dsimp only
  split
  · exact piecewise_crop.bind fun _ => (piecewise_checked _).bind fun _ => piecewise_pure _
  · exact piecewise_pure _

/-! ### The shape of the samples -/

variable {reader after : BitReader} {aspect : AspectRatio} {count : Nat}

theorem readFlagIfAny_eq (reader : BitReader) : ∃ after,
    readFlagIfAny reader = .ok (bitAt reader.data reader.position) after ∧
      (bitAt reader.data reader.position = true → after = reader.past 1) := by
  rw [readFlagIfAny, readFlag_eq]
  by_cases hIn : reader.position < 8 * reader.data.size
  · rw [if_pos hIn]
    exact ⟨_, rfl, fun _ => rfl⟩
  · have hBit := bitAt_past (Nat.not_lt.mp hIn)
    rw [if_neg hIn, hBit]
    exact ⟨_, rfl, nofun⟩

/-- The two flags that announce a shape are set. -/
def AnnouncesShape (data : ByteArray) (place : Nat) : Prop :=
  bitAt data place = true ∧ bitAt data (place + 1) = true

instance (data : ByteArray) (place : Nat) : Decidable (AnnouncesShape data place) :=
  inferInstanceAs (Decidable (_ ∧ _))

theorem readAspect_announced (h : AnnouncesShape reader.data reader.position) :
    readAspect reader = readShape (reader.past 2) := by
  obtain ⟨middle, hFirst, hMiddle⟩ := readFlagIfAny_eq reader
  obtain ⟨after, hSecond, hAfter⟩ := readFlagIfAny_eq (reader.past 1)
  rw [h.1] at hFirst
  rw [hMiddle h.1] at hFirst
  have hNext : bitAt (reader.past 1).data (reader.past 1).position = true := h.2
  rw [hNext] at hSecond
  rw [hAfter hNext, past_past] at hSecond
  rw [readAspect_eq, bind_of_ok hFirst]
  exact bind_of_ok hSecond

theorem readAspect_unannounced (h : ¬AnnouncesShape reader.data reader.position) :
    ∃ after, readAspect reader = .ok .undeclared after := by
  obtain ⟨middle, hFirst, hMiddle⟩ := readFlagIfAny_eq reader
  rw [readAspect_eq, bind_of_ok hFirst]
  cases hUsed : bitAt reader.data reader.position with
  | false => exact ⟨middle, rfl⟩
  | true =>
    obtain ⟨after, hSecond, -⟩ := readFlagIfAny_eq (reader.past 1)
    have hNext : bitAt (reader.past 1).data (reader.past 1).position = false :=
      Bool.eq_false_iff.mpr fun hNext => h ⟨hUsed, hNext⟩
    rw [hNext] at hSecond
    rw [hMiddle hUsed]
    exact ⟨after, bind_of_ok hSecond⟩

/-- The number of bits that a shape takes behind the flags: its number, and an explicit width and
height. -/
def shapeLength (data : ByteArray) (place : Nat) : Nat := if field data place 8 = 255 then 40 else 8

theorem eight_le_shapeLength (data : ByteArray) (place : Nat) : 8 ≤ shapeLength data place := by
  unfold shapeLength
  split <;> decide

theorem piecewise_readShape : Piecewise readShape := by
  refine (piecewise_readBits 8).bind fun index => ?_
  split
  · exact (piecewise_readBits 16).bind fun _ => (piecewise_readBits 16).bind fun _ =>
      piecewise_pure _
  · split
    · exact piecewise_pure _
    · exact piecewise_pure _

/-- A shape that is not all there is not read. -/
theorem readShape_short (h : reader.remaining < shapeLength reader.data reader.position) :
    ∃ after, readShape reader = .error .endOfStream after := by
  have hNumber := readBits_eq 8 reader (by decide) (by decide)
  by_cases hShort : reader.remaining < 8
  · rw [if_pos hShort] at hNumber
    exact ⟨reader, bind_of_error hNumber⟩
  · have hExplicit : field reader.data reader.position 8 = 255 := by
      apply Decidable.byContradiction
      intro hOther
      rw [shapeLength, if_neg hOther] at h
      exact hShort h
    rw [shapeLength, if_pos hExplicit] at h
    rw [if_neg hShort] at hNumber
    have hWidth := readBits_eq 16 (reader.past 8) (by decide) (by decide)
    rw [readShape, bind_of_ok hNumber, if_pos hExplicit]
    by_cases hNarrow : (reader.past 8).remaining < 16
    · rw [if_pos hNarrow] at hWidth
      exact ⟨_, bind_of_error hWidth⟩
    · rw [if_neg hNarrow] at hWidth
      have hHeight := readBits_eq 16 ((reader.past 8).past 16) (by decide) (by decide)
      rw [if_pos (by simp only [remaining_past]; omega)] at hHeight
      rw [bind_of_ok hWidth]
      exact ⟨_, bind_of_error hHeight⟩

theorem position_readShape (h : readShape reader = .ok aspect after) :
    after.position = reader.position + shapeLength reader.data reader.position := by
  obtain ⟨index, middle, hNumber, hRest⟩ := ok_of_bind h
  obtain ⟨rfl, rfl⟩ := of_readBits_ok (by decide) (by decide) hNumber
  unfold shapeLength
  split at hRest
  · rw [if_pos ‹_›]
    obtain ⟨width, second, hWidth, hRest⟩ := ok_of_bind hRest
    obtain ⟨height, third, hHeight, hRest⟩ := ok_of_bind hRest
    obtain ⟨-, rfl⟩ := of_readBits_ok (by decide) (by decide) hWidth
    obtain ⟨-, rfl⟩ := of_readBits_ok (by decide) (by decide) hHeight
    cases hRest
    simp only [past, Nat.add_assoc]
  · rw [if_neg ‹_›]
    split at hRest <;> cases hRest <;> rfl

/-- The data is cut inside the number of the announced shape, or inside its width and height. -/
def CutsShape (data : ByteArray) (place count : Nat) : Prop :=
  AnnouncesShape data place ∧ place + 2 ≤ 8 * count ∧
    8 * count < place + 2 + shapeLength data (place + 2)

instance (data : ByteArray) (place count : Nat) : Decidable (CutsShape data place count) :=
  inferInstanceAs (Decidable (_ ∧ _))

theorem announcesShape_cut {data : ByteArray} {place : Nat} (h : place + 2 ≤ 8 * count) :
    AnnouncesShape (data.extract 0 count) place ↔ AnnouncesShape data place := by
  rw [AnnouncesShape, bitAt_extract (by omega), bitAt_extract (by omega), AnnouncesShape]

theorem not_announcesShape_cut {data : ByteArray} {place : Nat} (h : 8 * count < place + 2) :
    ¬AnnouncesShape (data.extract 0 count) place := by
  rintro ⟨-, hNext⟩
  rw [bitAt_past (by rw [ByteArray.size_extract]; omega)] at hNext
  cases hNext

theorem readShape_cut (count : Nat) (h : readShape reader = .ok aspect after) :
    resultOf (readShape (reader.cut count)) =
      if 8 * count < after.position then .error .endOfStream else .ok aspect := by
  by_cases hShort : 8 * count < after.position
  · rw [if_pos hShort]
    rw [position_readShape h] at hShort
    have hLeft : (reader.cut count).remaining ≤ 8 * count - reader.position := by
      simp only [remaining, cut, ByteArray.size_extract]
      omega
    have hLength : 8 * count - reader.position <
        shapeLength (reader.cut count).data (reader.cut count).position := by
      by_cases hNumber : reader.position + 8 ≤ 8 * count
      · simp only [shapeLength, cut, field_extract hNumber]
        simp only [shapeLength] at hShort
        omega
      · have hLeast := eight_le_shapeLength (reader.cut count).data (reader.cut count).position
        omega
    obtain ⟨_, hFail⟩ := readShape_short (Nat.lt_of_le_of_lt hLeft hLength)
    exact congrArg resultOf hFail
  · rw [if_neg hShort]
    exact congrArg resultOf (piecewise_readShape.cut h (Nat.not_lt.mp hShort))

theorem readAspect_cut (count : Nat) (hAspect : readAspect reader = .ok aspect after) :
    resultOf (readAspect (reader.cut count)) =
      if CutsShape reader.data reader.position count then .error .endOfStream
      else .ok (if reader.position + 2 ≤ 8 * count then aspect else .undeclared) := by
  by_cases hFlags : reader.position + 2 ≤ 8 * count
  -- Both flags are still there and are read as they were.
  · rw [if_pos hFlags]
    have hSame : AnnouncesShape (reader.cut count).data (reader.cut count).position ↔
        AnnouncesShape reader.data reader.position := announcesShape_cut hFlags
    by_cases hAnnounced : AnnouncesShape reader.data reader.position
    · rw [readAspect_announced hAnnounced] at hAspect
      have hCut := readShape_cut count hAspect
      simp only [position_readShape hAspect] at hCut
      have hCuts : CutsShape reader.data reader.position count ↔
          8 * count < (reader.past 2).position +
            shapeLength (reader.past 2).data (reader.past 2).position :=
        ⟨fun h => h.2.2, fun h => ⟨hAnnounced, hFlags, h⟩⟩
      rw [readAspect_announced (hSame.mpr hAnnounced)]
      simp only [hCuts]
      exact hCut
    · obtain ⟨_, hWhole⟩ := readAspect_unannounced hAnnounced
      obtain ⟨_, hCut⟩ := readAspect_unannounced fun h => hAnnounced (hSame.mp h)
      rw [hAspect] at hWhole
      cases hWhole
      rw [if_neg fun h => hAnnounced h.1]
      exact congrArg resultOf hCut
  -- One of the flags is gone, which counts as clear.
  · have hNone : ¬AnnouncesShape (reader.cut count).data (reader.cut count).position :=
      not_announcesShape_cut (Nat.lt_of_not_le hFlags)
    obtain ⟨_, hCut⟩ := readAspect_unannounced hNone
    rw [if_neg fun h => hFlags h.2.1, if_neg hFlags]
    exact congrArg resultOf hCut

/-! ### Cutting a parameter set short -/

/-- The number of bits up to and including the cropping fields. -/
def pictureStop (payload : ByteArray) : Nat :=
  (stateOf (readPicture { data := payload })).position

theorem le_size_of_parse {payload : ByteArray} {sps : Sps} (h : parse payload = .ok sps) :
    4 ≤ payload.size := by
  rw [parse] at h
  split at h
  · cases h
  · omega

/-- A parameter set of which the cropping fields are still there is read with its size, and with its
shape if that is there as well or is left out. Between the two flags that announce the shape, a cut
leaves it out. Behind them, a cut inside the number of the shape or inside an explicit width and
height has the whole parameter set fail. -/
theorem parse_cut {payload : ByteArray} {sps : Sps} (hParse : parse payload = .ok sps)
    (hCount : 4 ≤ count) (hInside : pictureStop payload ≤ 8 * count) :
    parse (payload.extract 0 count) =
      if CutsShape payload (pictureStop payload) count then .error .endOfStream
      else .ok { sps with
        aspect := if pictureStop payload + 2 ≤ 8 * count then sps.aspect else .undeclared } := by
  have hSize := le_size_of_parse hParse
  have hCutSize : 4 ≤ (payload.extract 0 count).size := by
    rw [ByteArray.size_extract]
    omega
  rw [parse_eq_resultOf hSize] at hParse
  obtain ⟨last, hRead⟩ := ok_of_resultOf hParse
  rw [read_eq_readPicture] at hRead
  obtain ⟨picture, middle, hPicture, hRest⟩ := ok_of_bind hRead
  obtain ⟨aspect, after, hAspect, hSps⟩ := ok_of_bind hRest
  cases hSps
  have hStop : pictureStop payload = middle.position := congrArg (position ∘ stateOf) hPicture
  have hData : middle.data = payload := piecewise_readPicture.data_eq hPicture
  rw [hStop] at hInside ⊢
  have hCutPicture := piecewise_readPicture.cut hPicture hInside
  rw [show cut { data := payload } count = { data := payload.extract 0 count } from rfl]
    at hCutPicture
  have hCutAspect := readAspect_cut count hAspect
  rw [hData] at hCutAspect
  rw [parse_eq_resultOf hCutSize, read_eq_readPicture, bind_of_ok hCutPicture, resultOf_bind_pure,
    hCutAspect]
  by_cases hCuts : CutsShape payload middle.position count
  · rw [if_pos hCuts, if_pos hCuts, Except.map]
  · rw [if_neg hCuts, if_neg hCuts, Except.map]

/-- A parameter set for pictures of 1920 by 1080 samples. Its cropping fields end with bit 71; the
flags that announce the shape follow, one on each side of the next byte's start, and the number of
the shape ends with bit 81. -/
def shapedPayload : ByteArray := ⟨#[66, 192, 40, 242, 0, 240, 4, 79, 203, 128, 192]⟩

theorem parse_cut_betweenFlags : pictureStop shapedPayload = 71 ∧
    parse shapedPayload = .ok ⟨66, 40, 1920, 1080, true, .listed 1⟩ ∧
    parse (shapedPayload.extract 0 9) = .ok ⟨66, 40, 1920, 1080, true, .undeclared⟩ := by
  have hStop : pictureStop shapedPayload = 71 := by decide +kernel
  have hParse : parse shapedPayload = .ok ⟨66, 40, 1920, 1080, true, .listed 1⟩ := by
    decide +kernel
  have hCut := parse_cut hParse (show 4 ≤ 9 by decide) (by rw [hStop]; decide)
  rw [hStop, if_neg fun h => absurd h.2.1 (by decide), if_neg (by decide)] at hCut
  exact ⟨hStop, hParse, hCut⟩

theorem parse_cut_insideNumber : pictureStop shapedPayload ≤ 8 * 10 ∧
    parse shapedPayload = .ok ⟨66, 40, 1920, 1080, true, .listed 1⟩ ∧
    parse (shapedPayload.extract 0 10) = .error .endOfStream := by
  decide +kernel

end FrameFeed.Sps
