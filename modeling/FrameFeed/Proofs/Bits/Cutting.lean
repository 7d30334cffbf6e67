import FrameFeed.Proofs.Bits.Codes
import FrameFeed.Proofs.Bytes

/-! Reading from data that is cut short. Where an action succeeds it has taken a piece off the bits,
so that it does the same on the first bytes of the data as long as they hold the piece. -/

namespace FrameFeed.BitReader

/-- The reader with just the first bytes of its data. -/
def cut (reader : BitReader) (count : Nat) : BitReader :=
  { reader with data := reader.data.extract 0 count }

variable {data : ByteArray} {reader after : BitReader}

theorem bitAt_extract {count index : Nat} (h : index < 8 * count) :
    bitAt (data.extract 0 count) index = bitAt data index := by
  rw [bitAt, byteAt, getElem?_extract (by omega), Nat.zero_add, bitAt, byteAt]

theorem field_extract {count position size : Nat} (h : position + size ≤ 8 * count) :
    field (data.extract 0 count) position size = field data position size := by
  apply eq_of_testBit_lt (field_lt ..) (field_lt ..)
  intro place hPlace
  rw [testBit_field _ _ _ hPlace, testBit_field _ _ _ hPlace, bitAt_extract (by omega)]

/-- Past the end of the data no bit is set. -/
theorem bitAt_past {index : Nat} (h : 8 * data.size ≤ index) : bitAt data index = false := by
  rw [bitAt, byteAt, getElem?_neg data _ (by omega)]
  exact Nat.zero_testBit _

theorem bitsOf_extract (data : ByteArray) (count : Nat) :
    bitsOf (data.extract 0 count) = (bitsOf data).take (8 * count) := by
  rw [bitsOf, bitsOf, ← List.map_take, List.take_range, ByteArray.size_extract,
    show 8 * (min count data.size - 0) = min (8 * count) (8 * data.size) by omega]
  apply List.map_congr_left
  intro index hIndex
  rw [List.mem_range] at hIndex
  exact bitAt_extract (by omega)

theorem unread_cut (reader : BitReader) (count : Nat) :
    (reader.cut count).unread = reader.unread.take (8 * count - reader.position) := by
  rw [unread, cut, bitsOf_extract, List.drop_take, unread]

theorem piece_cut {piece : List Bool} {count : Nat} (h : piece <+: reader.unread)
    (hInside : (reader.past piece.length).position ≤ 8 * count) :
    piece <+: (reader.cut count).unread := by
  rw [unread_cut, List.prefix_take_iff]
  simp only [past] at hInside
  exact ⟨h, by omega⟩

/-- A piece that comes next, and one that comes behind it, are one piece. -/
theorem piece_append {piece rest : List Bool} (h : piece <+: reader.unread)
    (hRest : rest <+: (reader.past piece.length).unread) : piece ++ rest <+: reader.unread := by
  obtain ⟨all, hAll⟩ := h
  rw [unread_past, ← hAll, List.drop_left] at hRest
  rw [← hAll]
  exact (List.prefix_append_right_inj piece).mpr hRest

/-! ### Actions that take pieces -/

/-- Where the action succeeds it has taken a piece off the bits, and it reads the piece the same
wherever else it stands. -/
def Piecewise {Value : Type} (action : Action Value) : Prop :=
  ∀ ⦃reader value after⦄, action reader = .ok value after →
    ∃ piece, piece <+: reader.unread ∧ after = reader.past piece.length ∧
      Reads action piece value

section Piecewise

variable {Value Value' : Type} {action : Action Value} {next : Value → Action Value'}

/-- What is read from the data is read from its first bytes, if it ends inside them. -/
theorem Piecewise.cut {value : Value} {count : Nat} (h : Piecewise action)
    (hRead : action reader = .ok value after) (hInside : after.position ≤ 8 * count) :
    action (reader.cut count) = .ok value (after.cut count) := by
  obtain ⟨piece, hPiece, hAfter, hReads⟩ := h hRead
  subst hAfter
  exact hReads _ (piece_cut hPiece hInside)

theorem Piecewise.data_eq {value : Value} (h : Piecewise action)
    (hRead : action reader = .ok value after) : after.data = reader.data := by
  obtain ⟨piece, -, hAfter, -⟩ := h hRead
  rw [hAfter, past]

theorem piecewise_of_reads (h : ∀ ⦃reader value after⦄, action reader = .ok value after →
    ∃ piece given, piece <+: reader.unread ∧ Reads action piece given) : Piecewise action := by
  intro reader value after hRead
  obtain ⟨piece, given, hPiece, hReads⟩ := h hRead
  have hGiven := hReads reader hPiece
  rw [hRead] at hGiven
  cases hGiven
  exact ⟨piece, hPiece, rfl, hReads⟩

theorem piecewise_pure (value : Value) : Piecewise (pure value) := by
  intro reader given after h
  cases h
  exact ⟨[], List.nil_prefix, rfl, .pure value⟩

theorem piecewise_throw (fault : Fault) : Piecewise (throw fault : Action Value) := by
  intro reader value after h
  cases h

theorem Piecewise.bind (h : Piecewise action) (hNext : ∀ value, Piecewise (next value)) :
    Piecewise (action >>= next) := by
  intro reader value after hRead
  obtain ⟨given, middle, hFirst, hSecond⟩ := ok_of_bind hRead
  obtain ⟨piece, hPiece, hMiddle, hReads⟩ := h hFirst
  subst hMiddle
  obtain ⟨rest, hRest, hAfter, hReadsRest⟩ := hNext given hSecond
  refine ⟨piece ++ rest, piece_append hPiece hRest, ?_, hReads.bind hReadsRest⟩
  rw [hAfter, past_past, List.length_append]

theorem Piecewise.forM {Item : Type} {step : Item → Action Unit} (items : List Item)
    (h : ∀ item, Piecewise (step item)) : Piecewise (items.forM step) := by
  induction items with
  | nil => exact piecewise_pure ()
  | cons item items ih => exact (h item).bind fun _ => ih

end Piecewise

/-! ### The steps of a reader -/

theorem length_take_unread {count : Nat} (h : count ≤ reader.remaining) :
    (reader.unread.take count).length = count := by
  rw [List.length_take, length_unread, Nat.min_eq_left h]

/-- A field in the data has its bits there. -/
theorem fixedBits_field {count : Nat} (h : count ≤ reader.remaining) :
    fixedBits count (field reader.data reader.position count) = reader.unread.take count := by
  apply List.ext_getElem
  · rw [length_fixedBits, length_take_unread h]
  · intro index hIndex hIndex'
    rw [length_fixedBits] at hIndex
    rw [getElem_fixedBits, testBit_field _ _ _ (by omega), List.getElem_take,
      ← bitAt_of_piece (List.prefix_refl _) index (by rw [length_unread]; omega)]
    congr 1
    omega

theorem remaining_past (reader : BitReader) (count : Nat) :
    (reader.past count).remaining = reader.remaining - count := by
  simp only [remaining, past]
  omega

theorem piecewise_readBit : Piecewise readBit := by
  apply piecewise_of_reads
  intro reader value after h
  have hLeft : 1 ≤ reader.remaining := by
    simp only [readBit] at h
    split at h
    · simp only [remaining]
      omega
    · cases h
  obtain ⟨bit, hBit⟩ := List.length_eq_one_iff.mp (length_take_unread hLeft)
  exact ⟨[bit], bit.toNat, hBit ▸ List.take_prefix _ _, reads_readBit bit⟩

theorem piecewise_readFlag : Piecewise readFlag :=
  piecewise_readBit.bind fun _ => piecewise_pure _

theorem bitAt_prefix_unread (h : reader.position < 8 * reader.data.size) :
    [bitAt reader.data reader.position] <+: reader.unread := by
  rw [unread, List.drop_eq_getElem_cons (by rw [length_bitsOf]; exact h)]
  exact ⟨(bitsOf reader.data).drop (reader.position + 1), by simp [bitsOf]⟩

theorem readFlag_eq (reader : BitReader) :
    readFlag reader = if reader.position < 8 * reader.data.size then
        .ok (bitAt reader.data reader.position) (reader.past 1)
      else .error .endOfStream reader := by
  by_cases hIn : reader.position < 8 * reader.data.size
  · rw [if_pos hIn]
    exact reads_readFlag _ reader (bitAt_prefix_unread hIn)
  · have hBit : readBit reader = .error .endOfStream reader := if_neg (by omega)
    rw [if_neg hIn]
    exact bind_of_error hBit

theorem piecewise_skipBits (count : Nat) : Piecewise (skipBits count) := by
  apply piecewise_of_reads
  intro reader value after h
  have hLeft : count ≤ reader.remaining := by
    simp only [skipBits] at h
    split at h
    · cases h
    · omega
  exact ⟨reader.unread.take count, (), List.take_prefix _ _,
    reads_skipBits (length_take_unread hLeft)⟩

theorem readBits_eq (count : Nat) (reader : BitReader) (hSome : count ≠ 0) (hCount : count ≤ 32) :
    readBits count reader = if reader.remaining < count then .error .endOfStream reader
      else .ok (field reader.data reader.position count) (reader.past count) := by
  rw [readBits, if_neg hSome, if_neg (Nat.not_lt.mpr hCount), past]

theorem of_readBits_ok {count value : Nat} (hSome : count ≠ 0) (hCount : count ≤ 32)
    (h : readBits count reader = .ok value after) :
    value = field reader.data reader.position count ∧ after = reader.past count := by
  rw [readBits_eq count reader hSome hCount] at h
  split at h
  · cases h
  · cases h
    exact ⟨rfl, rfl⟩

theorem piecewise_readBits (count : Nat) : Piecewise (readBits count) := by
  apply piecewise_of_reads
  intro reader value after h
  have hLeft : count ≤ 32 ∧ (count = 0 ∨ count ≤ reader.remaining) := by
    simp only [readBits] at h
    split at h
    · omega
    · split at h
      · cases h
      · split at h
        · cases h
        · omega
  obtain ⟨hCount, hNone | hLeft⟩ := hLeft
  · subst hNone
    exact ⟨[], 0, List.nil_prefix, reads_readBits (by decide) (by decide)⟩
  · refine ⟨_, field reader.data reader.position count, ?_, reads_readBits hCount (field_lt ..)⟩
    rw [fixedBits_field hLeft]
    exact List.take_prefix _ _

theorem piecewise_leadingZeros (allowance : Nat) : Piecewise (leadingZeros allowance) := by
  induction allowance with
  | zero => exact piecewise_throw _
  | succ allowance ih =>
    refine piecewise_readBit.bind fun bit => ?_
    split
    · exact ih.bind fun _ => piecewise_pure _
    · exact piecewise_pure 0

theorem piecewise_readUnsigned : Piecewise readUnsigned :=
  (piecewise_leadingZeros 32).bind fun zeros =>
    (piecewise_readBits zeros).bind fun _ => piecewise_pure _

theorem piecewise_readSigned : Piecewise readSigned :=
  piecewise_readUnsigned.bind fun _ => piecewise_pure _

theorem piecewise_skipUnsigned : Piecewise skipUnsigned :=
  piecewise_readUnsigned.bind fun _ => piecewise_pure ()

end FrameFeed.BitReader
