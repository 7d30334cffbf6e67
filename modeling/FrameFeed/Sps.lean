import FrameFeed.Bits
import FrameFeed.Emulation
import FrameFeed.Nal.H264
import FrameFeed.StartCode

/-! The sequence parameter set of an H.264 stream, read as far as the shape of the samples. The
parameter set gives the size of the coded picture in blocks of 16 by 16 samples; cropping then
takes samples away at the four edges, in units that depend on the chroma format. -/

namespace FrameFeed

/-- The shape of the samples as the parameter set declares it. -/
inductive AspectRatio where
  | undeclared
  /-- An entry of the standard's table, 0 to 16. -/
  | listed (index : Nat)
  | explicit (width height : Nat)
  /-- A number that the standard gives no meaning. -/
  | reserved (index : Nat)
  deriving DecidableEq, Repr

namespace AspectRatio

def table : Array (Nat × Nat) :=
  #[(0, 1), (1, 1), (12, 11), (10, 11), (16, 11), (40, 33), (24, 11), (20, 11), (32, 11),
    (80, 33), (18, 11), (15, 11), (64, 33), (160, 99), (4, 3), (3, 2), (2, 1)]

/-- The width and the height of a sample, 0 and 1 when nothing is known about them. -/
def ratio : AspectRatio → Nat × Nat
  | undeclared => (0, 1)
  | listed index => table[index]?.getD (0, 1)
  | explicit width height => (width, height)
  | reserved _ => (0, 1)

end AspectRatio

/-- What a sequence parameter set says about the pictures. -/
structure Sps where
  profile : Nat
  level : Nat
  /-- The width in samples, after cropping. -/
  width : Nat
  /-- The height in samples, after cropping. -/
  height : Nat
  /-- Pictures are coded as whole frames and never as two fields. -/
  framesOnly : Bool
  aspect : AspectRatio
  deriving DecidableEq, Repr

namespace Sps

open BitReader

/-- The profiles whose parameter sets hold a chroma format and scaling lists. -/
def hasChroma (profile : Nat) : Bool :=
  [100, 110, 122, 244, 44, 83, 86, 118, 128, 138, 139, 134, 135].contains profile

/-- Passes over the rest of a scaling list, `count` entries, after the scale `last`. The scale
`next` is the one to be used next; once it is zero the list has no more differences. -/
def skipScales : (count : Nat) → (last next : Int) → Action Unit
  | 0, _, _ => pure ()
  | count + 1, last, next => do
    let next ← if next = 0 then pure 0 else do
      let difference ← readSigned
      pure ((last + difference) % 256)
    skipScales count (if next = 0 then last else next) next

def skipScalingList (size : Nat) : Action Unit := skipScales size 8 8

/-- Passes over the scaling lists that are present, of 16 entries up to the sixth and of 64 entries
from there on. -/
def skipScalingLists (count : Nat) : Action Unit :=
  (List.range count).forM fun index => do
    if ← readFlag then
      skipScalingList (if index < 6 then 16 else 64)

/-- Reads the chroma format of the profiles that have one, and passes over bit depths and scaling
lists. Planes that are coded apart count as format 0. -/
def readChroma : Action Nat := do
  let declared ← readUnsigned
  if 3 < declared then
    throw (.chromaFormat declared)
  let chroma ← if declared = 3 then do
      if ← readFlag then pure 0 else pure 3
    else
      pure declared
  skipUnsigned
  skipUnsigned
  skipBits 1
  if ← readFlag then
    skipScalingLists (if chroma = 3 then 12 else 8)
  return chroma

def skipSigned : (count : Nat) → Action Unit
  | 0 => pure ()
  | count + 1 => do
    let _ ← readSigned
    skipSigned count

def skipOrderCount : Action Unit := do
  match ← readUnsigned with
  | 0 => skipUnsigned
  | 1 =>
    skipBits 1
    skipSigned 2
    let cycle ← readUnsigned
    if 255 < cycle then
      throw (.orderCountCycle cycle)
    skipSigned cycle
  | _ => pure ()

/-- The fields that the size of the coded picture comes from, and those before them. -/
structure Head where
  profile : Nat
  level : Nat
  chroma : Nat
  /-- The width in blocks, less one. -/
  blocksAcross : Nat
  /-- The height in blocks, or in pairs of blocks when fields can occur, less one. -/
  unitsDown : Nat
  framesOnly : Bool
  deriving DecidableEq, Repr

/-- Reads the fields up to the cropping flag. -/
def Head.read : Action Head := do
  let profile ← readBits 8
  skipBits 8
  let level ← readBits 8
  skipUnsigned
  let chroma ← if hasChroma profile then readChroma else pure 1
  skipUnsigned
  skipOrderCount
  skipUnsigned
  skipBits 1
  let blocksAcross ← readUnsigned
  let unitsDown ← readUnsigned
  let framesOnly ← readFlag
  if !framesOnly then
    skipBits 1
  skipBits 1
  return { profile, level, chroma, blocksAcross, unitsDown, framesOnly }

/-- The number of fields that a unit of height spans. -/
def Head.fieldFactor (head : Head) : Nat := if head.framesOnly then 1 else 2

/-- The value when it fits in 32 bits. -/
def inWord (field : SizeField) (value : Nat) : Except Fault Nat :=
  if value < 0x1_0000_0000 then .ok value else .error (.sizeOverflow field)

def Head.codedSize (head : Head) : Except Fault (Nat × Nat) := do
  let width ← inWord .width (16 * (head.blocksAcross + 1))
  let height ← inWord .height (16 * head.fieldFactor * (head.unitsDown + 1))
  return (width, height)

/-- The numbers of units that cropping takes away at the four edges. -/
structure Crop where
  left : Nat
  right : Nat
  top : Nat
  bottom : Nat
  deriving DecidableEq, Repr

def Crop.read : Action Crop := do
  return { left := ← readUnsigned, right := ← readUnsigned
           top := ← readUnsigned, bottom := ← readUnsigned }

def Head.cropUnit (head : Head) : Nat × Nat :=
  match head.chroma with
  | 1 => (2, 2 * head.fieldFactor)
  | 2 => (2, head.fieldFactor)
  | _ => (1, head.fieldFactor)

/-- The size that is left of a coded picture; something has to be left. -/
def Crop.apply (crop : Crop) (head : Head) (coded : Nat × Nat) : Except Fault (Nat × Nat) := do
  let (unitAcross, unitDown) := head.cropUnit
  let (width, height) := coded
  let across ← inWord .cropAcross (unitAcross * (crop.left + crop.right))
  let down ← inWord .cropDown (unitDown * (crop.top + crop.bottom))
  if width ≤ across ∨ height ≤ down then
    throw (.cropTooLarge across down width height)
  return (width - across, height - down)

/-- Reads a flag; where the data has ended there is none. -/
def readFlagIfAny : Action Bool := fun reader =>
  match readFlag reader with
  | .ok flag reader => .ok flag reader
  | .error _ reader => .ok false reader

/-- Reads the shape of the samples, if the parameter set goes on that far. -/
def readAspect : Action AspectRatio := do
  if !(← readFlagIfAny) then
    return .undeclared
  if !(← readFlagIfAny) then
    return .undeclared
  let index ← readBits 8
  if index = 255 then
    return .explicit (← readBits 16) (← readBits 16)
  else if index < AspectRatio.table.size then
    return .listed index
  else
    return .reserved index

/-- Carries a checked value into a step that reads. -/
def checked {α : Type} : Except Fault α → Action α
  | .ok value => pure value
  | .error fault => throw fault

def read : Action Sps := do
  let head ← Head.read
  let coded ← checked head.codedSize
  let (width, height) ← if ← readFlag then do
      let crop ← Crop.read
      checked (crop.apply head coded)
    else
      pure coded
  let aspect ← readAspect
  return { profile := head.profile, level := head.level, width, height
           framesOnly := head.framesOnly, aspect }

/-- The parameter set in the payload of a unit, without the unit's header byte. -/
def parse (payload : ByteArray) : Except Fault Sps :=
  if payload.size < 4 then
    .error (.spsTooShort payload.size)
  else
    match read { data := payload } with
    | .ok sps _ => .ok sps
    | .error fault _ => .error fault

/-- The first parameter set among the units at or after an index, read out of its unit. -/
def findFrom? (data : ByteArray) (index : Nat) : Except Fault (Option Sps) :=
  match hCode : StartCode.findFrom? data index with
  | none => .ok none
  | some code =>
    if hStart : code.nalOffset < data.size then
      let stop := StartCode.unitStop data code.nalOffset
      if H264.UnitType.ofHeader data[code.nalOffset] = .sps then
        (parse (Emulation.remove (data.extract (code.nalOffset + 1) stop))).map some
      else
        findFrom? data stop
    else
      .ok none
termination_by data.size - index
decreasing_by
  have hIndex := (StartCode.findFrom?_bounds hCode).1
  have hStop := StartCode.le_unitStop (Nat.le_of_lt hStart)
  simp only [StartCode.nalOffset] at hStart hStop ⊢
  omega

/-- The first parameter set in a stream. -/
def find? (data : ByteArray) : Except Fault (Option Sps) := findFrom? data 0

end Sps

end FrameFeed
