import FrameFeed.Proofs.Steps
import FrameFeed.Sps

/-! The stages in which a parameter set is read: the fields as far as the scaling lists, those that
tell the size of the coded picture, the margins, and the shape of the samples. -/

namespace FrameFeed.Sps

open BitReader

/-- What is known once the scaling lists have been passed over. -/
structure Start where
  profile : Nat
  level : Nat
  chroma : Nat
  deriving DecidableEq, Repr

def Start.read : Action Start := do
  let profile ← readBits 8
  skipBits 8
  let level ← readBits 8
  skipUnsigned
  let chroma ← if hasChroma profile then readChroma else pure 1
  return { profile, level, chroma }

/-- Reads the fields from behind the scaling lists up to the cropping flag. -/
def Start.readHead (start : Start) : Action Head := do
  skipUnsigned
  skipOrderCount
  skipUnsigned
  skipBits 1
  let blocksAcross ← readUnsigned
  let unitsDown ← readUnsigned
  let framesOnly ← readFlag
  if !framesOnly then
    skipBits 1
  skipBits 1
  return { profile := start.profile, level := start.level, chroma := start.chroma
           blocksAcross, unitsDown, framesOnly }

/-- Reads the cropping fields, which complete the size of the picture. -/
def Head.readPicture (head : Head) : Action Sps := do
  let coded ← checked head.codedSize
  let (width, height) ← if ← readFlag then do
      let crop ← Crop.read
      checked (crop.apply head coded)
    else
      pure coded
  return { profile := head.profile, level := head.level, width, height
           framesOnly := head.framesOnly, aspect := .undeclared }

/-- Reads the fields up to the cropping fields, and leaves the shape of the samples open. -/
def readPicture : Action Sps := do
  let start ← Start.read
  let head ← start.readHead
  head.readPicture

/-- Reads the fields from behind the scaling lists on. -/
def Start.readOn (start : Start) : Action Sps := do
  let head ← start.readHead
  let picture ← head.readPicture
  let aspect ← readAspect
  return { picture with aspect }

/-- Reads the shape of the samples behind the two flags that announce it. -/
def readShape : Action AspectRatio := do
  let index ← readBits 8
  if index = 255 then
    return .explicit (← readBits 16) (← readBits 16)
  else if index < AspectRatio.table.size then
    return .listed index
  else
    return .reserved index

theorem readAspect_eq : readAspect = (do
    if !(← readFlagIfAny) then
      return .undeclared
    if !(← readFlagIfAny) then
      return .undeclared
    readShape) := rfl

theorem head_read_eq : Head.read = (do (← Start.read).readHead) := by
  simp only [Head.read, Start.read, Start.readHead, bind_assoc, pure_bind, ite_bind]

theorem read_eq_readPicture : read = (do
    let picture ← readPicture
    let aspect ← readAspect
    return { picture with aspect }) := by
  simp only [read, readPicture, head_read_eq, Head.readPicture, bind_assoc, pure_bind, ite_bind]

theorem read_eq_readOn : read = (do (← Start.read).readOn) := by
  simp only [read_eq_readPicture, readPicture, Start.readOn, bind_assoc]

theorem parse_eq_resultOf {payload : ByteArray} (h : 4 ≤ payload.size) :
    parse payload = resultOf (read { data := payload }) := by
  rw [parse, if_neg (Nat.not_lt.mpr h)]
  cases read _ <;> rfl

end FrameFeed.Sps
