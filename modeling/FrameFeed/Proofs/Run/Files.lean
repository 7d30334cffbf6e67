import FrameFeed.Proofs.Disk.Places
import FrameFeed.Proofs.Tiling
import FrameFeed.Run

/-! The files that a run writes, one for each frame. Their names differ, so that each of them keeps
its bytes while the others are written. -/

namespace FrameFeed.Run

/-! ### Names -/

def frameName (format : Format) (index : Nat) : String :=
  "frame_" ++ Digits.padLeft '0' 5 (toString index) ++ "." ++ format.extensions.headD "bin"

theorem framePath_eq (folder : String) (format : Format) (index : Nat) :
    framePath folder format index = Disk.join folder (frameName format index) := rfl

theorem toList_padLeft (width index : Nat) : ∃ count,
    (Digits.padLeft '0' width (toString index)).toList =
      List.replicate count '0' ++ Nat.toDigits 10 index := by
  refine ⟨width - (toString index).length, ?_⟩
  rw [Digits.padLeft, String.toList_append, String.toList_ofList, Nat.toString_eq_repr,
    Nat.toList_repr]

theorem toList_frameName (format : Format) (index : Nat) : ∃ count,
    (frameName format index).toList = "frame_".toList ++
      (List.replicate count '0' ++ Nat.toDigits 10 index ++
        '.' :: (format.extensions.headD "bin").toList) := by
  obtain ⟨count, hPad⟩ := toList_padLeft 5 index
  refine ⟨count, ?_⟩
  simp only [frameName, String.toList_append, hPad, List.append_assoc]
  rfl

/-- Zeros in front do not change a number. -/
theorem ofDigitChars_padded (count index : Nat) :
    Nat.ofDigitChars 10 (List.replicate count '0' ++ Nat.toDigits 10 index) 0 = index := by
  induction count with
  | zero => exact Nat.ofDigitChars_toDigits (by decide) (by decide)
  | succ count ih =>
    rw [List.replicate_succ, List.cons_append, Nat.ofDigitChars_cons]
    exact ih

theorem frameName_inj {format : Format} {left right : Nat}
    (h : frameName format left = frameName format right) : left = right := by
  obtain ⟨count, hLeft⟩ := toList_frameName format left
  obtain ⟨count', hRight⟩ := toList_frameName format right
  rw [h, hRight] at hLeft
  have hDigits := List.append_cancel_right (List.append_cancel_left hLeft)
  rw [← ofDigitChars_padded count left, ← ofDigitChars_padded count' right, hDigits]

theorem head?_frameName (format : Format) (index : Nat) :
    (frameName format index).toList.head? = some 'f' := by
  obtain ⟨count, hList⟩ := toList_frameName format index
  rw [hList]
  rfl

theorem isName_frameName (format : Format) (index : Nat) :
    Disk.IsName (frameName format index) := by
  obtain ⟨count, hList⟩ := toList_frameName format index
  have hHead := head?_frameName format index
  have hExtension : '/' ∉ (format.extensions.headD "bin").toList := by
    rcases format with (_ | _) | _ <;> decide
  refine ⟨?_, ?_, ?_, ?_⟩
  · rw [hList]
    intro hSlash
    rcases List.mem_append.mp hSlash with hStart | hRest
    · exact absurd hStart (by decide)
    rcases List.mem_append.mp hRest with hNumber | hTail
    · rcases List.mem_append.mp hNumber with hZero | hDigit
      · exact absurd (List.mem_replicate.mp hZero).2 (by decide)
      · exact absurd (Nat.isDigit_of_mem_toDigits (by decide) (by decide) hDigit) (by decide)
    · rcases List.mem_cons.mp hTail with hDot | hLast
      · exact absurd hDot (by decide)
      · exact hExtension hLast
  all_goals
    intro hName
    rw [hName] at hHead
    cases hHead

theorem getLast?_target_framePath (folder : String) (format : Format) (index : Nat) :
    (Disk.target (framePath folder format index)).getLast? = some (frameName format index) := by
  obtain ⟨base, hTarget⟩ := Disk.target_join folder
  rw [framePath_eq, hTarget _ (isName_frameName format index), List.getLast?_concat]

theorem target_framePath_inj {folder : String} {format : Format} {left right : Nat}
    (h : Disk.target (framePath folder format left) = Disk.target (framePath folder format right)) :
    left = right := by
  obtain ⟨base, hTarget⟩ := Disk.target_join folder
  rw [framePath_eq, framePath_eq, hTarget _ (isName_frameName format left),
    hTarget _ (isName_frameName format right)] at h
  exact frameName_inj (List.head_eq_of_cons_eq (List.append_cancel_left h))

/-- A place whose name begins otherwise than the names of frames is the place of none. -/
theorem target_framePath_ne {folder path name : String} {format : Format} {index : Nat}
    (hName : (Disk.target path).getLast? = some name) (hHead : name.toList.head? ≠ some 'f') :
    Disk.target (framePath folder format index) ≠ Disk.target path := by
  intro hSame
  have hLast := getLast?_target_framePath folder format index
  rw [hSame, hName] at hLast
  cases hLast
  exact hHead (head?_frameName format index)

/-! ### Writing frame after frame -/

variable {folder : String} {format : Format} {data : ByteArray} {disk disk' : Disk}
  {spans : List Span}

/-- The disk after frames have been written to their files, the first of them with the number
`index`. -/
inductive Wrote (folder : String) (format : Format) (data : ByteArray) :
    (index : Nat) → List Span → Disk → Disk → Prop
  | none {index : Nat} {disk : Disk} : Wrote folder format data index [] disk disk
  | cons {index : Nat} {span : Span} {rest : List Span} {disk middle disk' : Disk} :
      disk.write (framePath folder format index) (span.bytes data) = .ok middle →
      Wrote folder format data (index + 1) rest middle disk' →
      Wrote folder format data index (span :: rest) disk disk'

/-- A file stays as it is while frames with other numbers are written. -/
theorem Wrote.medium_kept {index : Nat} (h : Wrote folder format data index spans disk disk')
    {path : String} {medium : Medium} (hMedium : disk.medium path = .ok medium)
    (hOther : ∀ number, index ≤ number →
      Disk.target path ≠ Disk.target (framePath folder format number)) :
    disk'.medium path = .ok medium := by
  induction h with
  | none => exact hMedium
  | cons hWrite _ ih =>
    exact ih (Disk.medium_write_of_ne hWrite (hOther _ (Nat.le_refl _)) hMedium)
      fun number hNumber => hOther number (Nat.le_of_succ_le hNumber)

theorem Wrote.medium_eq {first : Nat} (h : Wrote folder format data first spans disk disk')
    {index : Nat} {span : Span} (hSpan : spans[index]? = some span) :
    disk'.medium (framePath folder format (first + index)) = .ok (.ofFile (span.bytes data)) := by
  induction h generalizing index with
  | none => cases hSpan
  | cons hWrite hRest ih =>
    cases index with
    | zero =>
      cases hSpan
      refine hRest.medium_kept (Disk.medium_write hWrite) fun number hNumber hSame => ?_
      have := target_framePath_inj hSame
      omega
    | succ index =>
      have hNext := ih hSpan
      rwa [Nat.add_right_comm, Nat.add_assoc] at hNext

/-- Only the files of the frames change. -/
theorem Wrote.sameFile {first : Nat} (h : Wrote folder format data first spans disk disk')
    {place : Disk.Place} (hPlace : ∀ index < spans.length,
      place ≠ Disk.target (framePath folder format (first + index))) :
    Disk.SameFile disk disk' place := by
  induction h with
  | none => exact fun _ => Iff.rfl
  | @cons number span rest disk middle disk' hWrite _ ih =>
    intro bytes
    have hFirst : place ≠ Disk.target (framePath folder format number) :=
      hPlace 0 (Nat.succ_pos _)
    obtain ⟨-, -, rfl⟩ := Disk.write_ok hWrite
    rw [ih (fun index hIndex => by
      have hLater := hPlace (index + 1) (Nat.succ_lt_succ hIndex)
      rwa [show number + (index + 1) = number + 1 + index by omega] at hLater),
      Disk.entry?_put_of_ne hFirst]

end FrameFeed.Run
