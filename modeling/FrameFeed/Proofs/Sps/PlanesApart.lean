import FrameFeed.Proofs.Sps.Parsing

/-! Scaling lists for planes that are coded apart. The format of such planes has twelve lists, as it
has where the planes are coded together. By the time the lists are read the format counts as
monochrome, which has eight, so that what is read next comes from the place of the ninth list. -/

namespace FrameFeed.Sps

open BitReader

variable {fields : Fields} {payload : ByteArray}

theorem Fields.ScalesPlanesApart.listsRead_eq (h : fields.ScalesPlanesApart) :
    fields.listsRead = 8 := by
  obtain ⟨chroma, hChroma, hFormat, -⟩ := h
  rw [Fields.listsRead, hChroma, Option.map_some, Option.getD_some, hFormat]
  rfl

theorem Fields.ScalesPlanesApart.start_eq (h : fields.ScalesPlanesApart) :
    fields.start = ⟨fields.profile.toNat, fields.level.toNat, 0⟩ := by
  obtain ⟨chroma, hChroma, hFormat, -⟩ := h
  rw [Fields.start, hChroma, Option.map_some, Option.getD_some, hFormat]
  rfl

/-! ### The first of the scaling lists -/

theorem ScalingMatrix.bitsTo_prefix_bits {count : Nat} (lists : Nat)
    (matrix : ScalingMatrix count) : matrix.bitsTo lists <+: matrix.bits := by
  rw [ScalingMatrix.bits, ← List.take_append_drop lists (List.finRange count), List.flatMap_append]
  exact List.prefix_append _ _

theorem Chroma.bitsTo_prefix_bits (lists : Nat) (chroma : Chroma) :
    chroma.bitsTo lists <+: chroma.bits := by
  simp only [Chroma.bitsTo, Chroma.bits, List.prefix_append_right_inj]
  cases chroma.scaling with
  | none => exact List.prefix_refl _
  | some matrix => exact (List.prefix_cons_inj true).mpr (matrix.bitsTo_prefix_bits lists)

theorem Fields.startBits_prefix_bits (lists : Nat) (fields : Fields) :
    fields.startBits lists <+: fields.bits := by
  simp only [Fields.startBits, Fields.bits, Fields.headBits, List.append_assoc,
    List.prefix_append_right_inj]
  cases fields.chroma with
  | none => exact List.nil_prefix
  | some chroma => exact (chroma.bitsTo_prefix_bits lists).trans (List.prefix_append _ _)

theorem lt_length_startBits (lists : Nat) (fields : Fields) :
    24 < (fields.startBits lists).length := by
  have hId := one_le_length_unsignedBits fields.id
  simp only [Fields.startBits, List.length_append, length_fixedBits]
  omega

/-! ### Reading on behind them -/

/-- Behind the scaling lists that are read, the later fields are read. -/
theorem parse_startBits (h : fields.startBits fields.listsRead <+: bitsOf payload) :
    parse payload = resultOf (fields.start.readOn
      { data := payload, position := (fields.startBits fields.listsRead).length }) := by
  have hSize := h.length_le
  rw [length_bitsOf] at hSize
  have hLength := lt_length_startBits fields.listsRead fields
  have hStart := reads_start fields { data := payload } h
  rw [parse_eq_resultOf (by omega), read_eq_readOn, bind_of_ok hStart]
  simp only [past, Nat.zero_add]

/-- The lists of planes that are coded apart are passed over as far as the eighth. A parameter set
with its twelve lists has its later fields read from the place of the ninth one, whatever they are.
It is the parameter set with just eight lists that is read as it is written, its margins counted in
single samples and fields. -/
theorem parse_planesApart (h : fields.ScalesPlanesApart) :
    (fields.bits <+: bitsOf payload →
      parse payload = resultOf (Start.readOn ⟨fields.profile.toNat, fields.level.toNat, 0⟩
        { data := payload, position := (fields.startBits 8).length })) ∧
    (fields.startBits 8 ++ fields.laterBits <+: bitsOf payload → fields.Sized →
      fields.cropUnit = (1, fields.fieldFactor) ∧
      ∃ sps, parse payload = .ok sps ∧ sps.profile = fields.profile.toNat ∧
        sps.level = fields.level.toNat ∧ sps.framesOnly = fields.scan.isFrames ∧
        sps.width = fields.codedWidth - fields.cropWidth ∧
        sps.height = fields.codedHeight - fields.cropHeight ∧
        sps.aspect.ratio = fields.shape.ratio) := by
  have hLists := h.listsRead_eq
  refine ⟨fun hBits => ?_, fun hBits hSized => ?_⟩
  · have hStart := (fields.startBits_prefix_bits 8).trans hBits
    rw [← hLists] at hStart
    rw [parse_startBits hStart, h.start_eq, hLists]
  · have hSize := hBits.length_le
    rw [length_bitsOf, List.length_append] at hSize
    have hLength := lt_length_startBits 8 fields
    have hUnit : fields.cropUnit = (1, fields.fieldFactor) := by
      obtain ⟨chroma, hChroma, hFormat, -⟩ := h
      rw [Fields.cropUnit, hChroma, Option.map_some, Option.getD_some, hFormat]
    rw [← hLists] at hBits
    have hRead := reads_listsRead hSized { data := payload } hBits
    refine ⟨hUnit, fields.sps, ?_, rfl, rfl, rfl, rfl, rfl, ratio_aspect fields.shape⟩
    simp only [parse, if_neg (show ¬payload.size < 4 by omega), hRead]

/-- The fields of `fieldPicture`, but for whole frames, with the planes coded apart and all scaling
lists left out. -/
def planePicture : Fields :=
  { fieldPicture with
    profile := 244
    chroma := fieldPicture.chroma.map fun chroma =>
      { chroma with format := .full true, scaling := some fun _ => none }
    isSome_chroma := by decide
    scan := .frames }

def twelveListsPayload : ByteArray :=
  ⟨#[244, 0, 40, 146, 218, 0, 20, 105, 144, 165, 2, 208, 151, 109, 127, 240, 4, 0, 2, 216]⟩

def eightListsPayload : ByteArray :=
  ⟨#[244, 0, 40, 146, 218, 1, 70, 153, 10, 80, 45, 9, 118, 215, 255, 0, 64, 0, 45, 128]⟩

theorem parse_planesApart_planePicture : planePicture.ScalesPlanesApart ∧
    planePicture.bits <+: bitsOf twelveListsPayload ∧
    planePicture.startBits 8 ++ planePicture.laterBits <+: bitsOf eightListsPayload ∧
    parse twelveListsPayload =
      resultOf (Start.readOn ⟨244, 40, 0⟩ { data := twelveListsPayload, position := 47 }) ∧
    ∃ sps, parse eightListsPayload = .ok sps ∧ sps.profile = 244 ∧ sps.level = 40 ∧
      sps.framesOnly = true ∧ sps.width = 716 ∧ sps.height = 287 ∧
      sps.aspect.ratio = (64, 45) := by
  have hPlanes : planePicture.ScalesPlanesApart := ⟨_, rfl, rfl, rfl⟩
  have hTwelve : planePicture.bits <+: bitsOf twelveListsPayload := by decide +kernel
  have hEight : planePicture.startBits 8 ++ planePicture.laterBits <+: bitsOf eightListsPayload := by
    decide +kernel
  have hSized : planePicture.Sized := ⟨by decide, by decide, by decide, by decide⟩
  have hPlace : (planePicture.startBits 8).length = 47 := by decide +kernel
  have hRead := (parse_planesApart hPlanes).1 hTwelve
  rw [hPlace] at hRead
  obtain ⟨-, hWritten⟩ := (parse_planesApart hPlanes).2 hEight hSized
  exact ⟨hPlanes, hTwelve, hEight, hRead, hWritten⟩

/-- Behind the eighth list, the flags of the other four are read as numbers. -/
theorem parse_twelveLists : planePicture.ScalesPlanesApart ∧ planePicture.Sized ∧
    planePicture.bits <+: bitsOf twelveListsPayload ∧
    planePicture.sps = ⟨244, 40, 716, 287, true, .explicit 64 45⟩ ∧
    parse twelveListsPayload = .ok ⟨244, 40, 16, 32, false, .undeclared⟩ := by
  refine ⟨⟨_, rfl, rfl, rfl⟩, ⟨?_, ?_, ?_, ?_⟩, ?_, rfl, ?_⟩ <;> decide +kernel

end FrameFeed.Sps
