import FrameFeed.Proofs.Bits.Codes

/-! The fields of an H.264 sequence parameter set up to the shape of the samples, the bits in which
they are written, and the picture that they declare. The types admit every combination of fields
that can be written: codes within their range, the chroma fields just for the profiles that have
them, and scaling lists of their own sizes. -/

namespace FrameFeed.Sps

open BitReader

/-- A number that has an unsigned code. -/
abbrev Unsigned := Fin (greatestCode + 1)

abbrev Signed := { number : Int // number.natAbs < 2 ^ 31 }

/-! ### Scaling lists -/

/-- The bits of a scaling list from one of its entries on, `last` being the scale before that entry.
Each entry has its difference written; once the scale `next` is zero no more are. -/
def scaleBits (last next : Int) : List Signed → List Bool
  | [] => []
  | difference :: rest =>
    if next = 0 then
      []
    else
      let next := (last + difference) % 256
      signedBits difference.val ++ scaleBits (if next = 0 then last else next) next rest

/-- The number of entries of the scaling list at an index. -/
def scalingListSize (index : Nat) : Nat := if index < 6 then 16 else 64

/-- Scaling lists, of which any can be left out. -/
abbrev ScalingMatrix (count : Nat) :=
  (index : Fin count) → Option (Vector Signed (scalingListSize index))

/-- The bits of a scaling list that may be left out. Its first scale is 8. -/
def scalingListBits {size : Nat} : Option (Vector Signed size) → List Bool
  | none => [false]
  | some differences => true :: scaleBits 8 8 differences.toList

def ScalingMatrix.bits {count : Nat} (matrix : ScalingMatrix count) : List Bool :=
  (List.finRange count).flatMap fun index => scalingListBits (matrix index)

/-- The bits of the first of the scaling lists. -/
def ScalingMatrix.bitsTo {count : Nat} (lists : Nat) (matrix : ScalingMatrix count) : List Bool :=
  ((List.finRange count).take lists).flatMap fun index => scalingListBits (matrix index)

/-! ### Chroma -/

/-- How the chroma samples lie. -/
inductive ChromaFormat where
  | monochrome
  /-- Half as many in each direction. -/
  | quarter
  /-- Half as many across. -/
  | half
  /-- As many as there are luma samples; the planes can be coded apart. -/
  | full (planesApart : Bool)
  deriving DecidableEq, Repr

namespace ChromaFormat

def bits : ChromaFormat → List Bool
  | monochrome => unsignedBits 0
  | quarter => unsignedBits 1
  | half => unsignedBits 2
  | full planesApart => unsignedBits 3 ++ [planesApart]

def scalingLists : ChromaFormat → Nat
  | full _ => 12
  | _ => 8

/-- The number of the format; planes that are coded apart are monochrome each. -/
def number : ChromaFormat → Nat
  | monochrome => 0
  | quarter => 1
  | half => 2
  | full planesApart => if planesApart then 0 else 3

end ChromaFormat

structure Chroma where
  format : ChromaFormat
  lumaDepth : Unsigned
  chromaDepth : Unsigned
  bypass : Bool
  scaling : Option (ScalingMatrix format.scalingLists)

def Chroma.bits (chroma : Chroma) : List Bool :=
  chroma.format.bits ++ (unsignedBits chroma.lumaDepth ++ (unsignedBits chroma.chromaDepth ++
    ([chroma.bypass] ++ match chroma.scaling with
      | none => [false]
      | some matrix => true :: matrix.bits)))

/-- The bits of the chroma fields as far as the first of the scaling lists. -/
def Chroma.bitsTo (lists : Nat) (chroma : Chroma) : List Bool :=
  chroma.format.bits ++ (unsignedBits chroma.lumaDepth ++ (unsignedBits chroma.chromaDepth ++
    ([chroma.bypass] ++ match chroma.scaling with
      | none => [false]
      | some matrix => true :: matrix.bitsTo lists)))

/-- The profiles whose parameter sets have the chroma fields. -/
def Extended (profile : UInt8) : Prop :=
  profile.toNat ∈ [44, 83, 86, 100, 110, 118, 122, 128, 134, 135, 138, 139, 244]

instance (profile : UInt8) : Decidable (Extended profile) :=
  inferInstanceAs (Decidable (profile.toNat ∈ _))

/-! ### The other fields -/

/-- How the order of the pictures is coded. -/
inductive OrderCount where
  /-- By low bits, of a number that is written. -/
  | lowBits (size : Unsigned)
  /-- By a cycle of offsets. -/
  | cycle (alwaysZero : Bool) (nonReference bottom : Signed) (offsets : List Signed)
      (length_le : offsets.length ≤ 255)
  /-- As the pictures come. -/
  | coded

def OrderCount.bits : OrderCount → List Bool
  | lowBits size => unsignedBits 0 ++ unsignedBits size
  | cycle alwaysZero nonReference bottom offsets _ =>
    unsignedBits 1 ++ ([alwaysZero] ++ (signedBits nonReference.val ++ (signedBits bottom.val ++
      (unsignedBits offsets.length ++ offsets.flatMap fun offset => signedBits offset.val))))
  | coded => unsignedBits 2

/-- Whether pictures are whole frames, or fields can occur. -/
inductive Scan where
  | frames
  | fields (adaptive : Bool)
  deriving DecidableEq, Repr

def Scan.bits : Scan → List Bool
  | frames => [true]
  | fields adaptive => [false] ++ [adaptive]

def Scan.isFrames : Scan → Bool
  | frames => true
  | fields _ => false

/-- The units of a picture that are cropped at its edges. -/
structure Margins where
  left : Unsigned
  right : Unsigned
  top : Unsigned
  bottom : Unsigned
  deriving DecidableEq, Repr

def marginBits : Option Margins → List Bool
  | none => [false]
  | some margins => [true] ++ (unsignedBits margins.left ++ (unsignedBits margins.right ++
      (unsignedBits margins.top ++ unsignedBits margins.bottom)))

inductive Shape where
  /-- The usability information is left out. -/
  | noUsability
  /-- The usability information leaves the shape out. -/
  | unstated
  | numbered (index : Fin 255)
  | explicit (width height : UInt16)
  deriving DecidableEq, Repr

/-- The number that stands for an explicit shape. -/
def explicitShape : Nat := 255

def Shape.bits : Shape → List Bool
  | noUsability => [false]
  | unstated => [true] ++ [false]
  | numbered index => [true] ++ ([true] ++ fixedBits 8 index)
  | explicit width height =>
    [true] ++ ([true] ++ (fixedBits 8 explicitShape ++
      (fixedBits 16 width.toNat ++ fixedBits 16 height.toNat)))

/-- The shapes that have numbers, width and height; with 0 and 1 nothing is said. -/
def numberedShape : Nat → Nat × Nat
  | 1 => (1, 1)
  | 2 => (12, 11)
  | 3 => (10, 11)
  | 4 => (16, 11)
  | 5 => (40, 33)
  | 6 => (24, 11)
  | 7 => (20, 11)
  | 8 => (32, 11)
  | 9 => (80, 33)
  | 10 => (18, 11)
  | 11 => (15, 11)
  | 12 => (64, 33)
  | 13 => (160, 99)
  | 14 => (4, 3)
  | 15 => (3, 2)
  | 16 => (2, 1)
  | _ => (0, 1)

def Shape.ratio : Shape → Nat × Nat
  | noUsability => (0, 1)
  | unstated => (0, 1)
  | numbered index => numberedShape index
  | explicit width height => (width.toNat, height.toNat)

/-! ### The parameter set -/

structure Fields where
  profile : UInt8
  constraints : UInt8
  level : UInt8
  id : Unsigned
  chroma : Option Chroma
  isSome_chroma : chroma.isSome ↔ Extended profile
  frameNumber : Unsigned
  orderCount : OrderCount
  references : Unsigned
  gaps : Bool
  /-- The width of the coded picture in blocks, less one. -/
  blocksAcross : Unsigned
  /-- The height in blocks, or in pairs of blocks where fields can occur, less one. -/
  unitsDown : Unsigned
  scan : Scan
  direct : Bool
  margins : Option Margins
  shape : Shape

namespace Fields

/-- The bits of the fields before the cropping flag. -/
def headBits (fields : Fields) : List Bool :=
  fixedBits 8 fields.profile.toNat ++ (fixedBits 8 fields.constraints.toNat ++
    (fixedBits 8 fields.level.toNat ++ (unsignedBits fields.id ++
    ((fields.chroma.map Chroma.bits).getD [] ++ (unsignedBits fields.frameNumber ++
    (fields.orderCount.bits ++ (unsignedBits fields.references ++ ([fields.gaps] ++
    (unsignedBits fields.blocksAcross ++ (unsignedBits fields.unitsDown ++
    (fields.scan.bits ++ [fields.direct])))))))))))

def bits (fields : Fields) : List Bool :=
  fields.headBits ++ (marginBits fields.margins ++ fields.shape.bits)

/-- The number of fields in a unit of height. -/
def fieldFactor (fields : Fields) : Nat := if fields.scan.isFrames then 1 else 2

def codedWidth (fields : Fields) : Nat := 16 * (fields.blocksAcross + 1)

def codedHeight (fields : Fields) : Nat := 16 * fields.fieldFactor * (fields.unitsDown + 1)

/-- The width and the height of a cropping unit in samples. Where no chroma format is declared it is
the one with half as many chroma samples in each direction. -/
def cropUnit (fields : Fields) : Nat × Nat :=
  match (fields.chroma.map Chroma.format).getD .quarter with
  | .monochrome => (1, fields.fieldFactor)
  | .quarter => (2, 2 * fields.fieldFactor)
  | .half => (2, fields.fieldFactor)
  | .full _ => (1, fields.fieldFactor)

def cropWidth (fields : Fields) : Nat :=
  match fields.margins with
  | none => 0
  | some margins => fields.cropUnit.1 * (margins.left + margins.right)

def cropHeight (fields : Fields) : Nat :=
  match fields.margins with
  | none => 0
  | some margins => fields.cropUnit.2 * (margins.top + margins.bottom)

/-- Scaling lists are given for planes that are coded apart. -/
def ScalesPlanesApart (fields : Fields) : Prop :=
  ∃ chroma, fields.chroma = some chroma ∧ chroma.format = .full true ∧ chroma.scaling.isSome

end Fields

end FrameFeed.Sps
