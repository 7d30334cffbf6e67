import FrameFeed.Proofs.Sps.Fields
import FrameFeed.Proofs.Sps.Stages
import Mathlib.Data.List.FinRange

/-! The parameter set that is read is the one that was written. Each step of the reading takes the
bits of its fields off the bits of the parameter set, so that what is read does not depend on what
comes after the fields. -/

namespace FrameFeed.Sps

open BitReader

theorem Unsigned.reads (number : Unsigned) : Reads readUnsigned (unsignedBits number) number.val :=
  reads_readUnsigned (Nat.le_of_lt_succ number.isLt)

theorem Unsigned.skips (number : Unsigned) : Reads skipUnsigned (unsignedBits number) () :=
  reads_skipUnsigned (Nat.le_of_lt_succ number.isLt)

/-! ### Chroma -/

theorem reads_skipScales_zero (count : Nat) (last : Int) :
    Reads (skipScales count last 0) [] () := by
  induction count with
  | zero => exact .pure ()
  | succ count ih => exact ih

/-- Passing over a scaling list takes its differences off the bits, as far as they are written. -/
theorem reads_skipScales (last next : Int) (differences : List Signed) :
    Reads (skipScales differences.length last next) (scaleBits last next differences) () := by
  induction differences generalizing last next with
  | nil => exact .pure ()
  | cons difference rest ih =>
    by_cases hEnded : next = 0
    -- Nothing more of the list is written, and nothing more of it is read.
    · subst hEnded
      exact reads_skipScales_zero (rest.length + 1) last
    · simp only [List.length_cons, skipScales, scaleBits, if_neg hEnded]
      exact (reads_readSigned difference.property).bind (ih _ _)

theorem reads_skipScalingLists {count lists : Nat} (h : lists ≤ count)
    (matrix : ScalingMatrix count) :
    Reads (skipScalingLists lists) (matrix.bitsTo lists) () := by
  have hRange : List.range lists = ((List.finRange count).take lists).map Fin.val := by
    rw [List.map_take, List.map_coe_finRange_eq_range, List.take_range, Nat.min_eq_left h]
  rw [skipScalingLists, hRange, List.forM_eq_forM, List.forM_map]
  apply Reads.forM
  intro index _
  cases matrix index with
  | none => exact (reads_readFlag false).bind (.pure ())
  | some differences =>
    refine (reads_readFlag true).bind ?_
    have hList := reads_skipScales 8 8 differences.toList
    rw [Vector.length_toList] at hList
    exact hList

/-- What follows the chroma format is taken off its bits, as far as the scaling lists that are
expected. -/
theorem reads_afterFormat {chroma : Chroma} {number lists : Nat}
    (hLists : lists ≤ chroma.format.scalingLists) :
    Reads (do
        skipUnsigned
        skipUnsigned
        skipBits 1
        if ← readFlag then
          skipScalingLists lists
        return number)
      (unsignedBits chroma.lumaDepth ++ (unsignedBits chroma.chromaDepth ++
        ([chroma.bypass] ++ match chroma.scaling with
          | none => [false]
          | some matrix => true :: matrix.bitsTo lists))) number := by
  refine (Unsigned.skips _).bind ((Unsigned.skips _).bind ((reads_skipBits rfl).bind ?_))
  cases hScaling : chroma.scaling with
  | none => exact (reads_readFlag false).bind (.pure number)
  | some matrix =>
    exact (reads_readFlag true).bind
      ((reads_skipScalingLists hLists matrix).bind_pure fun _ => number)

/-- The number of scaling lists that are read. Planes that are coded apart have the lists of a
monochrome picture read. -/
def ChromaFormat.listsRead (format : ChromaFormat) : Nat := if format.number = 3 then 12 else 8

theorem ChromaFormat.listsRead_le (format : ChromaFormat) :
    format.listsRead ≤ format.scalingLists := by
  cases format with
  | monochrome => decide
  | quarter => decide
  | half => decide
  | full planesApart => cases planesApart <;> decide

theorem reads_readChroma (chroma : Chroma) :
    Reads readChroma (chroma.bitsTo chroma.format.listsRead) chroma.format.number := by
  obtain ⟨format, lumaDepth, chromaDepth, bypass, scaling⟩ := chroma
  unfold Chroma.bitsTo
  cases format with
  | monochrome =>
    exact Reads.bind (reads_readUnsigned (show 0 ≤ greatestCode by decide))
      (reads_afterFormat (ChromaFormat.listsRead_le .monochrome))
  | quarter =>
    exact Reads.bind (reads_readUnsigned (show 1 ≤ greatestCode by decide))
      (reads_afterFormat (ChromaFormat.listsRead_le .quarter))
  | half =>
    exact Reads.bind (reads_readUnsigned (show 2 ≤ greatestCode by decide))
      (reads_afterFormat (ChromaFormat.listsRead_le .half))
  | full planesApart =>
    rw [ChromaFormat.bits, List.append_assoc]
    refine Reads.bind (reads_readUnsigned (show 3 ≤ greatestCode by decide)) ?_
    cases planesApart with
    | false =>
      exact (reads_readFlag false).bind
        (reads_afterFormat (ChromaFormat.listsRead_le (.full false)))
    | true =>
      exact (reads_readFlag true).bind (reads_afterFormat (ChromaFormat.listsRead_le (.full true)))

theorem ScalingMatrix.bitsTo_all {count : Nat} (matrix : ScalingMatrix count) :
    matrix.bitsTo count = matrix.bits := by
  rw [bitsTo, List.take_of_length_le (Nat.le_of_eq (List.length_finRange ..)), bits]

/-- All lists are read that are written, but for planes that are coded apart. -/
theorem Chroma.bitsTo_listsRead {chroma : Chroma}
    (h : ¬(chroma.format = .full true ∧ chroma.scaling.isSome)) :
    chroma.bitsTo chroma.format.listsRead = chroma.bits := by
  unfold Chroma.bitsTo Chroma.bits
  cases hScaling : chroma.scaling with
  | none => rfl
  | some matrix =>
    have hLists : chroma.format.listsRead = chroma.format.scalingLists := by
      cases hFormat : chroma.format with
      | monochrome => rfl
      | quarter => rfl
      | half => rfl
      | full planesApart =>
        cases planesApart with
        | false => rfl
        | true => exact absurd ⟨hFormat, hScaling ▸ rfl⟩ h
    simp only [hLists, matrix.bitsTo_all]

/-! ### The order of the pictures -/

theorem reads_skipSigned (numbers : List Signed) :
    Reads (skipSigned numbers.length) (numbers.flatMap fun number => signedBits number.val) () := by
  induction numbers with
  | nil => exact .pure ()
  | cons number rest ih => exact (reads_readSigned number.property).bind ih

theorem reads_skipOrderCount (orderCount : OrderCount) :
    Reads skipOrderCount orderCount.bits () := by
  cases orderCount with
  | lowBits size =>
    exact Reads.bind (reads_readUnsigned (show 0 ≤ greatestCode by decide)) (Unsigned.skips size)
  | cycle alwaysZero nonReference bottom offsets hLength =>
    have hPair := reads_skipSigned [nonReference, bottom]
    have hCycle := reads_readUnsigned (show offsets.length ≤ greatestCode from
      Nat.le_trans hLength (by decide))
    simp only [List.flatMap_cons, List.flatMap_nil, List.append_nil] at hPair
    refine (reads_readUnsigned (show 1 ≤ greatestCode by decide)).bind
      ((reads_skipBits rfl).bind ?_)
    rw [← List.append_assoc]
    refine hPair.bind (hCycle.bind ?_)
    rw [if_neg (Nat.not_lt.mpr hLength)]
    exact reads_skipSigned offsets
  | coded =>
    have hRead : Reads skipOrderCount (unsignedBits 2 ++ []) () :=
      Reads.bind (reads_readUnsigned (show 2 ≤ greatestCode by decide)) (.pure ())
    rwa [List.append_nil] at hRead

/-! ### The parameter set -/

theorem hasChroma_iff (profile : UInt8) : hasChroma profile.toNat = true ↔ Extended profile := by
  simp only [hasChroma, Extended, List.contains_iff_mem, List.mem_cons, List.not_mem_nil, or_false]
  omega

/-- What the fields as far as the scaling lists say. -/
def Fields.start (fields : Fields) : Start where
  profile := fields.profile.toNat
  level := fields.level.toNat
  chroma := ((fields.chroma.map Chroma.format).getD .quarter).number

/-- What the fields before the cropping flag say. -/
def Fields.head (fields : Fields) : Head where
  profile := fields.profile.toNat
  level := fields.level.toNat
  chroma := ((fields.chroma.map Chroma.format).getD .quarter).number
  blocksAcross := fields.blocksAcross
  unitsDown := fields.unitsDown
  framesOnly := fields.scan.isFrames

/-- The bits of the fields as far as the first of the scaling lists. -/
def Fields.startBits (lists : Nat) (fields : Fields) : List Bool :=
  fixedBits 8 fields.profile.toNat ++ (fixedBits 8 fields.constraints.toNat ++
    (fixedBits 8 fields.level.toNat ++ (unsignedBits fields.id ++
    (fields.chroma.map (Chroma.bitsTo lists)).getD [])))

/-- The bits of the fields between the scaling lists and the cropping flag. -/
def Fields.sizeBits (fields : Fields) : List Bool :=
  unsignedBits fields.frameNumber ++ (fields.orderCount.bits ++
    (unsignedBits fields.references ++ ([fields.gaps] ++ (unsignedBits fields.blocksAcross ++
    (unsignedBits fields.unitsDown ++ (fields.scan.bits ++ [fields.direct]))))))

/-- The bits of the fields behind the scaling lists. -/
def Fields.laterBits (fields : Fields) : List Bool :=
  fields.sizeBits ++ (marginBits fields.margins ++ fields.shape.bits)

/-- The number of scaling lists that are read if there are any. -/
def Fields.listsRead (fields : Fields) : Nat :=
  ((fields.chroma.map Chroma.format).getD .quarter).listsRead

theorem reads_chroma (fields : Fields) :
    Reads (if hasChroma fields.profile.toNat then readChroma else pure 1)
      ((fields.chroma.map (Chroma.bitsTo fields.listsRead)).getD []) fields.start.chroma := by
  unfold Fields.start Fields.listsRead
  have hProfile := fields.isSome_chroma
  rw [← hasChroma_iff] at hProfile
  cases hChroma : fields.chroma with
  | none =>
    rw [if_neg (by rw [← hProfile, hChroma]; decide)]
    exact .pure 1
  | some chroma =>
    rw [if_pos (by rw [← hProfile, hChroma]; rfl)]
    exact reads_readChroma chroma

theorem reads_start (fields : Fields) :
    Reads Start.read (fields.startBits fields.listsRead) fields.start := by
  unfold Start.read Fields.startBits
  refine (reads_readBits (by decide) fields.profile.toNat_lt).bind ?_
  refine (reads_skipBits (length_fixedBits ..)).bind ?_
  refine (reads_readBits (by decide) fields.level.toNat_lt).bind ?_
  refine fields.id.skips.bind ?_
  have hChroma := (reads_chroma fields).bind_pure fun chroma =>
    ({ profile := fields.profile.toNat, level := fields.level.toNat, chroma } : Start)
  rwa [ite_bind] at hChroma

theorem reads_readHead (fields : Fields) :
    Reads fields.start.readHead fields.sizeBits fields.head := by
  unfold Fields.sizeBits
  unfold Start.readHead
  refine fields.frameNumber.skips.bind ?_
  refine (reads_skipOrderCount _).bind ?_
  refine fields.references.skips.bind ?_
  refine (reads_skipBits rfl).bind ?_
  refine fields.blocksAcross.reads.bind ?_
  refine fields.unitsDown.reads.bind ?_
  unfold Fields.head
  cases fields.scan with
  | frames =>
    exact (reads_readFlag true).bind ((reads_skipBits rfl).bind_pure fun _ => _)
  | fields adaptive =>
    rw [Scan.bits, List.append_assoc]
    exact (reads_readFlag false).bind
      ((reads_skipBits rfl).bind ((reads_skipBits rfl).bind_pure fun _ => _))

theorem codedSize_head {fields : Fields} (hWidth : fields.codedWidth < 2 ^ 32)
    (hHeight : fields.codedHeight < 2 ^ 32) :
    fields.head.codedSize = .ok (fields.codedWidth, fields.codedHeight) := by
  have hFactor : fields.head.fieldFactor = fields.fieldFactor := rfl
  have hAcross : inWord .width (16 * (fields.head.blocksAcross + 1)) = .ok fields.codedWidth :=
    if_pos hWidth
  have hDown : inWord .height (16 * fields.head.fieldFactor * (fields.head.unitsDown + 1)) =
      .ok fields.codedHeight := if_pos hHeight
  simp only [Head.codedSize, hAcross, hDown]
  rfl

theorem cropUnit_head (fields : Fields) : fields.head.cropUnit = fields.cropUnit := by
  unfold Head.cropUnit Fields.cropUnit Fields.head
  cases (fields.chroma.map Chroma.format).getD .quarter with
  | monochrome => rfl
  | quarter => rfl
  | half => rfl
  | full planesApart => cases planesApart <;> rfl

/-- The units of the margins as they are read. -/
def Margins.crop (margins : Margins) : Crop :=
  ⟨margins.left, margins.right, margins.top, margins.bottom⟩

theorem reads_crop (margins : Margins) :
    Reads Crop.read (unsignedBits margins.left ++ (unsignedBits margins.right ++
      (unsignedBits margins.top ++ unsignedBits margins.bottom))) margins.crop := by
  refine margins.left.reads.bind (margins.right.reads.bind (margins.top.reads.bind ?_))
  exact margins.bottom.reads.bind_pure fun _ => _

/-- What is left of a picture whose margins are smaller than it is. -/
theorem apply_crop {fields : Fields} {margins : Margins} (hMargins : fields.margins = some margins)
    (hWidth : fields.codedWidth < 2 ^ 32) (hHeight : fields.codedHeight < 2 ^ 32)
    (hCropWidth : fields.cropWidth < fields.codedWidth)
    (hCropHeight : fields.cropHeight < fields.codedHeight) :
    margins.crop.apply fields.head (fields.codedWidth, fields.codedHeight) =
      .ok (fields.codedWidth - fields.cropWidth, fields.codedHeight - fields.cropHeight) := by
  have hAcross : inWord .cropAcross
      (fields.cropUnit.1 * (margins.crop.left + margins.crop.right)) = .ok fields.cropWidth := by
    rw [Fields.cropWidth, hMargins] at *
    exact if_pos (Nat.lt_trans hCropWidth hWidth)
  have hDown : inWord .cropDown
      (fields.cropUnit.2 * (margins.crop.top + margins.crop.bottom)) = .ok fields.cropHeight := by
    rw [Fields.cropHeight, hMargins] at *
    exact if_pos (Nat.lt_trans hCropHeight hHeight)
  simp only [Crop.apply, cropUnit_head, hAcross, hDown, bind, Except.bind]
  rw [if_neg (by omega)]
  rfl

/-! ### The shape of the samples -/

theorem reads_readFlagIfAny (flag : Bool) : Reads readFlagIfAny [flag] flag := by
  intro reader hPiece
  simp only [readFlagIfAny, reads_readFlag flag reader hPiece]

def Shape.aspect : Shape → AspectRatio
  | noUsability => .undeclared
  | unstated => .undeclared
  | numbered index =>
    if index.val < AspectRatio.table.size then .listed index else .reserved index
  | explicit width height => .explicit width.toNat height.toNat

theorem reads_readAspect (shape : Shape) : Reads readAspect shape.bits shape.aspect := by
  cases shape with
  | noUsability =>
    exact Reads.bind (reads_readFlagIfAny false) (.pure _)
  | unstated =>
    exact (reads_readFlagIfAny true).bind (Reads.bind (reads_readFlagIfAny false) (.pure _))
  | numbered index =>
    refine (reads_readFlagIfAny true).bind ((reads_readFlagIfAny true).bind ?_)
    have hIndex := reads_readBits (show 8 ≤ 32 by decide) (show index.val < 2 ^ 8 by omega)
    rw [← List.append_nil (fixedBits 8 index)]
    refine Reads.bind hIndex ?_
    rw [if_neg (Nat.ne_of_lt index.isLt), Shape.aspect]
    split
    · exact .pure _
    · exact .pure _
  | explicit width height =>
    refine (reads_readFlagIfAny true).bind ((reads_readFlagIfAny true).bind ?_)
    refine Reads.bind (reads_readBits (by decide) (show explicitShape < 2 ^ 8 by decide)) ?_
    refine (reads_readBits (by decide) width.toNat_lt).bind ?_
    exact (reads_readBits (by decide) height.toNat_lt).bind_pure fun _ => _

theorem ratio_aspect (shape : Shape) : shape.aspect.ratio = shape.ratio := by
  cases shape with
  | noUsability => rfl
  | unstated => rfl
  | numbered index =>
    revert index
    decide +kernel
  | explicit width height => rfl

/-! ### The parameter set -/

/-- What the fields say. -/
def Fields.sps (fields : Fields) : Sps where
  profile := fields.profile.toNat
  level := fields.level.toNat
  width := fields.codedWidth - fields.cropWidth
  height := fields.codedHeight - fields.cropHeight
  framesOnly := fields.scan.isFrames
  aspect := fields.shape.aspect

/-- The size of the coded picture less the margins, with the shape left open. -/
def Fields.picture (fields : Fields) : Sps := { fields.sps with aspect := .undeclared }

/-- The coded size and the margins of a picture of which something is left. -/
structure Fields.Sized (fields : Fields) : Prop where
  width : fields.codedWidth < 2 ^ 32
  height : fields.codedHeight < 2 ^ 32
  cropWidth : fields.cropWidth < fields.codedWidth
  cropHeight : fields.cropHeight < fields.codedHeight

theorem reads_readPicture {fields : Fields} (h : fields.Sized) :
    Reads fields.head.readPicture (marginBits fields.margins) fields.picture := by
  unfold Head.readPicture
  rw [codedSize_head h.width h.height]
  cases hMargins : fields.margins with
  | none =>
    have hWidth : fields.cropWidth = 0 := by rw [Fields.cropWidth, hMargins]
    have hHeight : fields.cropHeight = 0 := by rw [Fields.cropHeight, hMargins]
    unfold Fields.picture Fields.sps
    rw [hWidth, hHeight]
    exact (reads_readFlag false).bind (.pure _)
  | some margins =>
    refine (reads_readFlag true).bind ?_
    have hCrop := apply_crop hMargins h.width h.height h.cropWidth h.cropHeight
    rw [← List.append_nil (unsignedBits margins.left ++ _)]
    refine Reads.bind (reads_crop margins) ?_
    rw [hCrop]
    exact .pure _

/-- The fields behind the scaling lists are read as they are written. -/
theorem reads_readOn {fields : Fields} (h : fields.Sized) :
    Reads fields.start.readOn fields.laterBits fields.sps := by
  unfold Start.readOn Fields.laterBits
  refine (reads_readHead fields).bind ((reads_readPicture h).bind ?_)
  exact (reads_readAspect fields.shape).bind_pure _

/-- A parameter set is read as it is written, if just the scaling lists are written that are
read. -/
theorem reads_listsRead {fields : Fields} (h : fields.Sized) :
    Reads Sps.read (fields.startBits fields.listsRead ++ fields.laterBits) fields.sps := by
  rw [read_eq_readOn]
  exact (reads_start fields).bind (reads_readOn h)

theorem Fields.bits_eq {fields : Fields} (h : ¬fields.ScalesPlanesApart) :
    fields.bits = fields.startBits fields.listsRead ++ fields.laterBits := by
  have hChroma : fields.chroma.map (Chroma.bitsTo fields.listsRead) =
      fields.chroma.map Chroma.bits := by
    unfold listsRead
    cases hSome : fields.chroma with
    | none => rfl
    | some chroma =>
      exact congrArg some (chroma.bitsTo_listsRead fun hScales => h ⟨chroma, hSome, hScales⟩)
  simp only [startBits, laterBits, sizeBits, bits, headBits, hChroma, List.append_assoc]

theorem reads_read {fields : Fields} (hWidth : fields.codedWidth < 2 ^ 32)
    (hHeight : fields.codedHeight < 2 ^ 32) (hCropWidth : fields.cropWidth < fields.codedWidth)
    (hCropHeight : fields.cropHeight < fields.codedHeight) (hPlanes : ¬fields.ScalesPlanesApart) :
    Reads Sps.read fields.bits fields.sps := by
  rw [fields.bits_eq hPlanes]
  exact reads_listsRead ⟨hWidth, hHeight, hCropWidth, hCropHeight⟩

theorem one_le_length_unsignedBits (value : Nat) : 1 ≤ (unsignedBits value).length := by
  rw [unsignedBits, List.length_append, length_fixedBits]
  omega

/-- A parameter set has more than three bytes. -/
theorem lt_length_bits (fields : Fields) : 24 < fields.bits.length := by
  have hId := one_le_length_unsignedBits fields.id
  simp only [Fields.bits, Fields.headBits, List.length_append, length_fixedBits]
  omega

/-- Reading a parameter set gives what was written into it, whatever bits come after the fields: the
profile, the level and the coding by frames, the size of the coded picture less its margins, and the
shape of the samples. The coded size has to fit in 32 bits and the margins have to leave something
of it. -/
theorem parse_bits {payload : ByteArray} {fields : Fields} (hBits : fields.bits <+: bitsOf payload)
    (hWidth : fields.codedWidth < 2 ^ 32) (hHeight : fields.codedHeight < 2 ^ 32)
    (hCropWidth : fields.cropWidth < fields.codedWidth)
    (hCropHeight : fields.cropHeight < fields.codedHeight) (hPlanes : ¬fields.ScalesPlanesApart) :
    ∃ sps, parse payload = .ok sps ∧ sps.profile = fields.profile.toNat ∧
      sps.level = fields.level.toNat ∧ sps.framesOnly = fields.scan.isFrames ∧
      sps.width = fields.codedWidth - fields.cropWidth ∧
      sps.height = fields.codedHeight - fields.cropHeight ∧
      sps.aspect.ratio = fields.shape.ratio := by
  have hSize := hBits.length_le
  rw [length_bitsOf] at hSize
  have hLength := lt_length_bits fields
  have hRead := reads_read hWidth hHeight hCropWidth hCropHeight hPlanes { data := payload } hBits
  refine ⟨fields.sps, ?_, rfl, rfl, rfl, rfl, rfl, ratio_aspect fields.shape⟩
  simp only [parse, if_neg (show ¬payload.size < 4 by omega), hRead]

/-- A parameter set for pictures with fields and half the chroma samples across, with scaling lists
of which some end early, a cycle of offsets, margins and a shape of its own. -/
def fieldPicture : Fields where
  profile := 122
  constraints := 0
  level := 40
  id := 0
  chroma := some {
    format := .half
    lumaDepth := 2
    chromaDepth := 2
    bypass := false
    scaling := some fun index =>
      if index.val = 0 then some (Vector.replicate _ ⟨0, by decide⟩)
      else if index.val < 6 then none
      else some (Vector.replicate _ ⟨-8, by decide⟩) }
  isSome_chroma := by decide
  frameNumber := 0
  orderCount := .cycle false ⟨-1, by decide⟩ ⟨1, by decide⟩ [⟨2, by decide⟩, ⟨-2, by decide⟩]
    (by decide)
  references := 4
  gaps := false
  blocksAcross := 44
  unitsDown := 17
  scan := .fields true
  direct := true
  margins := some ⟨2, 2, 1, 0⟩
  shape := .explicit 64 45

/-- The bytes of the parameter set and one more. -/
def fieldPicturePayload : ByteArray :=
  ⟨#[122, 0, 40, 182, 223, 255, 248, 33, 24, 70, 141, 50, 20, 160, 90, 18, 118, 215, 255, 0, 64, 0,
    45, 200]⟩

theorem parse_bits_fieldPicture :
    fieldPicture.bits <+: bitsOf fieldPicturePayload ∧
      ∃ sps, parse fieldPicturePayload = .ok sps ∧ sps.profile = 122 ∧ sps.level = 40 ∧
        sps.framesOnly = false ∧ sps.width = 712 ∧ sps.height = 574 ∧
        sps.aspect.ratio = (64, 45) := by
  have hBits : fieldPicture.bits <+: bitsOf fieldPicturePayload := by decide +kernel
  have hPlanes : ¬fieldPicture.ScalesPlanesApart := by
    rintro ⟨chroma, hChroma, hFormat, -⟩
    cases hChroma
    cases hFormat
  exact ⟨hBits, parse_bits hBits (by decide) (by decide) (by decide) (by decide) hPlanes⟩

end FrameFeed.Sps
