import FrameFeed.Proofs.Sps.Stages
import Mathlib.Algebra.Group.Nat.Defs

/-! The size of the pictures against the fields that it comes from. Where a parameter set is read,
the size is that of the coded picture less what is cropped, and something is left; where there is no
such size in 32 bits, the parameter set is refused. -/

namespace FrameFeed.Sps

open BitReader

variable {head : Head} {crop : Crop} {coded size : Nat × Nat} {fault : Fault}
  {reader after : BitReader} {sps : Sps}

/-- The width and the height of the coded picture, however many bits they take. -/
def Head.extent (head : Head) : Nat × Nat :=
  (16 * (head.blocksAcross + 1), 16 * head.fieldFactor * (head.unitsDown + 1))

/-- What cropping takes off the width and off the height. -/
def Crop.extent (crop : Crop) (head : Head) : Nat × Nat :=
  (head.cropUnit.1 * (crop.left + crop.right), head.cropUnit.2 * (crop.top + crop.bottom))

theorem codedSize_eq (head : Head) : head.codedSize =
    if head.extent.1 < 2 ^ 32 then
      if head.extent.2 < 2 ^ 32 then .ok head.extent else .error (.sizeOverflow .height)
    else .error (.sizeOverflow .width) := by
  have hWidth : inWord .width (16 * (head.blocksAcross + 1)) =
      if head.extent.1 < 2 ^ 32 then .ok head.extent.1 else .error (.sizeOverflow .width) := rfl
  have hHeight : inWord .height (16 * head.fieldFactor * (head.unitsDown + 1)) =
      if head.extent.2 < 2 ^ 32 then .ok head.extent.2 else .error (.sizeOverflow .height) := rfl
  rw [Head.codedSize, hWidth, hHeight]
  split
  · split <;> rfl
  · rfl

theorem crop_apply_eq (crop : Crop) (head : Head) (coded : Nat × Nat) : crop.apply head coded =
    if (crop.extent head).1 < 2 ^ 32 then
      if (crop.extent head).2 < 2 ^ 32 then
        if coded.1 ≤ (crop.extent head).1 ∨ coded.2 ≤ (crop.extent head).2 then
          .error (.cropTooLarge (crop.extent head).1 (crop.extent head).2 coded.1 coded.2)
        else .ok (coded.1 - (crop.extent head).1, coded.2 - (crop.extent head).2)
      else .error (.sizeOverflow .cropDown)
    else .error (.sizeOverflow .cropAcross) := by
  have hAcross : inWord .cropAcross (head.cropUnit.1 * (crop.left + crop.right)) =
      if (crop.extent head).1 < 2 ^ 32 then .ok (crop.extent head).1
      else .error (.sizeOverflow .cropAcross) := rfl
  have hDown : inWord .cropDown (head.cropUnit.2 * (crop.top + crop.bottom)) =
      if (crop.extent head).2 < 2 ^ 32 then .ok (crop.extent head).2
      else .error (.sizeOverflow .cropDown) := rfl
  simp only [Crop.apply, hAcross, hDown]
  split
  · split
    · simp only [bind, Except.bind]
      split <;> rfl
    · rfl
  · rfl

theorem codedSize_ok (h : head.codedSize = .ok coded) : coded = head.extent := by
  rw [codedSize_eq] at h
  split at h
  · split at h <;> cases h
    rfl
  · cases h

theorem codedSize_error (h : head.codedSize = .error fault) : fault.kind = .invalidData := by
  rw [codedSize_eq] at h
  split at h
  · split at h <;> cases h
    rfl
  · cases h
    rfl

theorem crop_apply_ok (h : crop.apply head coded = .ok size) :
    size = (coded.1 - (crop.extent head).1, coded.2 - (crop.extent head).2) ∧
      (crop.extent head).1 < coded.1 ∧ (crop.extent head).2 < coded.2 := by
  rw [crop_apply_eq] at h
  split at h
  · split at h
    · split at h <;> cases h
      rename_i hLeft
      exact ⟨rfl, by omega, by omega⟩
    · cases h
  · cases h

theorem crop_apply_error (h : crop.apply head coded = .error fault) :
    fault.kind = .invalidData := by
  rw [crop_apply_eq] at h
  split at h
  · split at h
    · split at h <;> cases h
      rfl
    · cases h
      rfl
  · cases h
    rfl

/-! ### Reading -/

/-- Where no cropping is declared, nothing is taken away. -/
def noCrop : Crop := { left := 0, right := 0, top := 0, bottom := 0 }

theorem noCrop_apply (head : Head) : noCrop.apply head head.extent = .ok head.extent := by
  have hExtent : noCrop.extent head = (0, 0) := by simp [Crop.extent, noCrop]
  have hWidth : 0 < head.extent.1 := by
    simp only [Head.extent]
    omega
  have hHeight : 0 < head.extent.2 := by
    have hFactor : 0 < head.fieldFactor := by
      unfold Head.fieldFactor
      split <;> decide
    exact Nat.mul_pos (Nat.mul_pos (by decide) hFactor) (Nat.succ_pos _)
  rw [crop_apply_eq, hExtent, if_pos (by decide), if_pos (by decide), if_neg (by omega)]
  rfl

/-- Reads the cropping flag and the fields that it announces. -/
def readCrop : Action Crop := do
  if ← readFlag then Crop.read else return noCrop

/-- Reads the fields that the size comes from. -/
def readSizes : Action (Head × Crop) := do
  let head ← Head.read
  let crop ← readCrop
  return (head, crop)

theorem head_readPicture_eq (head : Head) : head.readPicture = (do
    let coded ← checked head.codedSize
    let crop ← readCrop
    let size ← checked (crop.apply head coded)
    return { profile := head.profile, level := head.level, width := size.1, height := size.2
             framesOnly := head.framesOnly, aspect := .undeclared }) := by
  unfold Head.readPicture readCrop
  cases hCoded : head.codedSize with
  | error => rfl
  | ok coded =>
    have hNone : noCrop.apply head coded = .ok coded := by
      rw [codedSize_ok hCoded]
      exact noCrop_apply head
    simp only [checked, pure_bind, bind_assoc, ite_bind, hNone]

theorem read_eq_readHead : read = (do
    let head ← Head.read
    let picture ← head.readPicture
    let aspect ← readAspect
    return { picture with aspect }) := by
  rw [read_eq_readPicture, readPicture, head_read_eq]
  simp only [bind_assoc]

theorem checked_ok {Value : Type} {result : Except Fault Value} {value : Value}
    (h : checked result reader = .ok value after) : result = .ok value ∧ after = reader := by
  cases result <;> cases h
  exact ⟨rfl, rfl⟩

/-- The size that is left where the cropping fields have been read. -/
theorem head_readPicture_ok (h : head.readPicture reader = .ok sps after) :
    ∃ crop, readCrop reader = .ok crop after ∧
      (crop.extent head).1 < head.extent.1 ∧ (crop.extent head).2 < head.extent.2 ∧
      sps.width = head.extent.1 - (crop.extent head).1 ∧
      sps.height = head.extent.2 - (crop.extent head).2 := by
  rw [head_readPicture_eq] at h
  obtain ⟨coded, first, hCoded, hRest⟩ := ok_of_bind h
  obtain ⟨crop, second, hCrop, hSized⟩ := ok_of_bind hRest
  obtain ⟨size, third, hSize, hMade⟩ := ok_of_bind hSized
  cases hMade
  obtain ⟨hCodedOk, hFirst⟩ := checked_ok hCoded
  obtain ⟨hSizeOk, hThird⟩ := checked_ok hSize
  obtain ⟨rfl, hAcross, hDown⟩ := crop_apply_ok hSizeOk
  rw [codedSize_ok hCodedOk] at hAcross hDown
  refine ⟨crop, ?_, hAcross, hDown, ?_⟩
  · rw [hThird, ← hFirst]
    exact hCrop
  · rw [codedSize_ok hCodedOk]
    exact ⟨rfl, rfl⟩

/-- What is read has the size that its fields come to. -/
theorem read_ok (h : read reader = .ok sps after) :
    ∃ head crop middle, readSizes reader = .ok (head, crop) middle ∧
      (crop.extent head).1 < head.extent.1 ∧ (crop.extent head).2 < head.extent.2 ∧
      sps.width = head.extent.1 - (crop.extent head).1 ∧
      sps.height = head.extent.2 - (crop.extent head).2 := by
  rw [read_eq_readHead] at h
  obtain ⟨head, first, hHead, hRest⟩ := ok_of_bind h
  obtain ⟨picture, second, hPicture, hShaped⟩ := ok_of_bind hRest
  obtain ⟨aspect, third, -, hMade⟩ := ok_of_bind hShaped
  cases hMade
  obtain ⟨crop, hCrop, hSize⟩ := head_readPicture_ok hPicture
  refine ⟨head, crop, second, ?_, hSize⟩
  rw [readSizes, bind_of_ok hHead, bind_of_ok hCrop]
  rfl

/-- A parameter set is refused where the size of its picture is. -/
theorem read_refused {middle : BitReader} (hHead : Head.read reader = .ok head middle)
    (h : resultOf (head.readPicture middle) = .error fault) :
    resultOf (read reader) = .error fault := by
  obtain ⟨last, hPicture⟩ := error_of_resultOf h
  rw [read_eq_readHead, bind_of_ok hHead, bind_of_error hPicture]
  rfl

theorem head_readPicture_unsized (h : head.codedSize = .error fault) :
    resultOf (head.readPicture reader) = .error fault := by
  rw [head_readPicture_eq, h]
  rfl

/-- A coded picture whose size takes more than 32 bits is refused, whatever comes behind the fields
that tell it. -/
theorem read_oversized {middle : BitReader} (hHead : Head.read reader = .ok head middle)
    (hLarge : 2 ^ 32 ≤ head.extent.1 ∨ 2 ^ 32 ≤ head.extent.2) :
    ∃ fault, resultOf (read reader) = .error fault ∧ fault.kind = .invalidData := by
  cases hCoded : head.codedSize with
  | ok coded =>
    rw [codedSize_eq] at hCoded
    split at hCoded
    · split at hCoded <;> cases hCoded
      omega
    · cases hCoded
  | error fault =>
    exact ⟨fault, read_refused hHead (head_readPicture_unsized hCoded), codedSize_error hCoded⟩

/-- Cropping that leaves nothing of the picture is refused. -/
theorem read_overcropped {middle : BitReader} (hSizes : readSizes reader = .ok (head, crop) middle)
    (hLarge : head.extent.1 ≤ (crop.extent head).1 ∨ head.extent.2 ≤ (crop.extent head).2) :
    ∃ fault, resultOf (read reader) = .error fault ∧ fault.kind = .invalidData := by
  obtain ⟨given, first, hHead, hRest⟩ := ok_of_bind hSizes
  obtain ⟨taken, second, hCrop, hMade⟩ := ok_of_bind hRest
  cases hMade
  cases hCoded : head.codedSize with
  | error fault =>
    exact ⟨fault, read_refused hHead (head_readPicture_unsized hCoded), codedSize_error hCoded⟩
  | ok coded =>
    rw [← codedSize_ok hCoded] at hLarge
    cases hSize : crop.apply head coded with
    | ok size =>
      obtain ⟨-, hAcross, hDown⟩ := crop_apply_ok hSize
      omega
    | error fault =>
      refine ⟨fault, read_refused hHead ?_, crop_apply_error hSize⟩
      rw [head_readPicture_eq, hCoded]
      simp only [checked, pure_bind]
      rw [bind_of_ok hCrop, hSize]
      rfl

end FrameFeed.Sps
