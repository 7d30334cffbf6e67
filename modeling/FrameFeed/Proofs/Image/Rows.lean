import FrameFeed.Proofs.Image.Images

/-! Images in a row. The walk along the markers of an image that stands in other data is the walk
along those of the image alone: it moves and jumps inside the image, and where it looks for the
announcement of a thumbnail beyond the image's end, it finds none. So a row of images is read as
these images. -/

namespace FrameFeed.Image

/-- The bytes of an image stand in data from an offset on. -/
def StandsIn (image data : ByteArray) (first : Nat) : Prop :=
  ∀ place < image.size, data[first + place]? = image[place]?

variable {image data : ByteArray} {first offset : Nat} {thumbnail : Bool}

/-! ### One image in other data -/

theorem WalksTo.add_two_le {stop : Nat} (h : WalksTo data thumbnail offset (some stop)) :
    offset + 2 ≤ stop := by
  generalize hStop : some stop = stop? at h
  induction h with
  | ended hMarker =>
    cases hStop
    exact hMarker.lt.1
  | thumbnailEnded hMarker _ _ ih =>
    have := hMarker.lt
    have := ih hStop
    omega
  | thumbnailBegun hMarker _ _ _ ih =>
    have := hMarker.lt
    have := ih hStop
    omega
  | noThumbnail hMarker _ _ _ ih =>
    have := hMarker.lt
    have := ih hStop
    omega
  | jumped hMarker _ _ _ ih =>
    have := hMarker.lt
    have := ih hStop
    omega
  | badSegment => cases hStop
  | passed hMarker _ _ _ _ ih =>
    have := hMarker.lt
    have := ih hStop
    omega
  | unended => cases hStop

/-- A marker in other data. -/
theorem IsNextMarker.standsIn {marker : Marker} (h : IsNextMarker image offset marker)
    (hIn : StandsIn image data first) :
    IsNextMarker data (first + offset) ⟨marker.code, first + marker.stop⟩ := by
  have hBounds := h.lt
  obtain ⟨mark, hLow, hHigh, hBefore, hMarks, hCode, hNe⟩ := h
  have hSame {place : Nat} (hPlace : first ≤ place) (hStop : place < first + marker.stop) :
      data[place]? = image[place - first]? := by
    rw [← hIn (place - first) (by omega), Nat.add_sub_cancel' hPlace]
  refine ⟨first + mark, by omega, by simp only; omega, fun place hFrom hTo => ?_,
    fun place hFrom hTo => ?_, ?_, hNe⟩
  · rw [hSame (by omega) (by omega)]
    exact hBefore _ (by omega) (by omega)
  · simp only at hTo
    rw [hSame (by omega) (by omega)]
    exact hMarks _ (by omega) (by omega)
  · rw [hSame (by simp only; omega) (by simp only; omega), ← hCode]
    congr 1
    simp only
    omega

theorem pairAt_standsIn (hIn : StandsIn image data first) (hSize : offset + 2 ≤ image.size) :
    pairAt data (first + offset) = pairAt image offset := by
  simp only [pairAt, Nat.add_assoc, hIn offset (by omega), hIn (offset + 1) (by omega)]

/-- No image announces a thumbnail by its last bytes and those behind it. Its end marker is not part
of an announcement, and one cannot begin right behind it. -/
theorem not_announces_standsIn (h : ¬Announces image offset) (hIn : StandsIn image data first)
    (hSize : offset + 2 ≤ image.size) (hLast : image[image.size - 1]? = some endMarker)
    (hNext : data[first + image.size]? ≠ some 0x4a) : ¬Announces data (first + offset) := by
  intro hThere
  have hBytes := announces_iff.mp hThere
  rcases Nat.lt_or_ge image.size (offset + 2 + thumbnailBytes.length) with hShort | hLong
  · replace hShort : image.size < offset + 8 := hShort
    rcases Nat.eq_or_lt_of_le hSize with hEnds | hGoesOn
    · have hByte := hBytes 0 0x4a rfl
      rw [Nat.add_zero, Nat.add_assoc, hEnds] at hByte
      exact hNext hByte
    · have hByte := hIn (image.size - 1) (by omega)
      rw [hLast] at hByte
      have hMem : endMarker ∈ thumbnailBytes := hThere.mem (by omega) (by omega) hByte
      exact absurd hMem (by decide)
  · refine h (announces_iff.mpr fun index byte hByte => ?_)
    have hIndex := (List.getElem?_eq_some_iff.mp hByte).1
    have hThis := hBytes index byte hByte
    rwa [show first + offset + 2 + index = first + (offset + 2 + index) by omega,
      hIn _ (by omega)] at hThis

/-- The walk along the markers of an image that stands in other data ends at the image's end. -/
theorem WalksTo.standsIn (h : WalksTo image thumbnail offset (some image.size))
    (hIn : StandsIn image data first) (hSize : first + image.size ≤ data.size)
    (hNext : data[first + image.size]? ≠ some 0x4a) :
    WalksTo data thumbnail (first + offset) (some (first + image.size)) := by
  obtain ⟨mark, hMark, -, hLast⟩ := h.endMarker_before
  replace hLast : image[image.size - 1]? = some endMarker := by
    rw [show image.size - 1 = mark + 1 by omega]
    exact hLast
  generalize hStop : some image.size = stop? at h
  induction h with
  | ended hMarker hCode =>
    rw [Option.some.inj hStop]
    exact .ended (hMarker.standsIn hIn) hCode
  | thumbnailEnded hMarker hCode _ ih =>
    exact .thumbnailEnded (hMarker.standsIn hIn) hCode (ih hStop)
  | thumbnailBegun hMarker hCode hAnnounces _ ih =>
    refine .thumbnailBegun (hMarker.standsIn hIn) hCode ?_ (ih hStop)
    rw [announces_iff] at hAnnounces ⊢
    intro index byte hByte
    have hThis := hAnnounces index byte hByte
    rwa [← hIn _ (lt_size_of_getElem? hThis), ← Nat.add_assoc, ← Nat.add_assoc] at hThis
  | noThumbnail hMarker hCode hAnnounces hWalk ih =>
    refine .noThumbnail (hMarker.standsIn hIn) hCode ?_ (ih hStop)
    subst hStop
    exact not_announces_standsIn hAnnounces hIn hWalk.add_two_le hLast hNext
  | jumped hMarker hSegment hJumpable _ ih =>
    have hPair := pairAt_standsIn hIn hJumpable.length_inside
    refine .jumped (hMarker.standsIn hIn) hSegment ⟨?_, ?_, ?_⟩ ?_ <;> simp only
    · have := hJumpable.length_inside
      omega
    · rw [hPair]
      exact hJumpable.two_le
    · have := hJumpable.segment_inside
      rw [hPair]
      omega
    · rw [hPair, Nat.add_assoc]
      exact ih hStop
  | badSegment => cases hStop
  | passed hMarker hEnd hApplication hSegment _ ih =>
    exact .passed (hMarker.standsIn hIn) hEnd hApplication hSegment (ih hStop)
  | unended => cases hStop

/-! ### Images in a row -/

/-- The bytes of images, one image after another. -/
def row : List ByteArray → ByteArray
  | [] => ByteArray.empty
  | image :: rest => image ++ row rest

/-- The spans of images in a row that begins at an offset. -/
def rowSpans (offset : Nat) : List ByteArray → List Span
  | [] => []
  | image :: rest => ⟨offset, offset + image.size⟩ :: rowSpans (offset + image.size) rest

/-- Bytes that begin as an image does and that a call gives as one image when they are alone. -/
structure IsWhole (image : ByteArray) : Prop where
  first : image[0]? = some 0xff
  second : image[1]? = some 0xd8
  given : ∃ capacity, ((Splitter.ofFormat .mjpeg).call
    { cursor := .ofMedium (.ofBytes image) capacity }).result = .ok (some ⟨0, image.size⟩)

/-- The windows make no difference: such bytes are those whose walk ends where they do. -/
theorem isWhole_iff (hSize : image.size + 2 < 0x8000_0000_0000_0000) :
    IsWhole image ↔ image[0]? = some 0xff ∧ image[1]? = some 0xd8 ∧
      WalksTo image false 0 (some image.size) := by
  have hRoom := Medium.roomy_ofBytes hSize
  have hStands := Cursor.standsAt_ofMedium (Medium.steady_ofBytes (Nat.lt_of_add_right_lt hSize))
  constructor
  · rintro ⟨hFirst, hSecond, capacity, hGiven⟩
    exact ⟨hFirst, hSecond,
      (walksTo_of_call rfl hRoom (hStands capacity) (lt_size_of_getElem? hFirst) hGiven).2⟩
  · rintro ⟨hFirst, hSecond, hWalk⟩
    exact ⟨hFirst, hSecond, 16,
      (call_ended rfl hRoom (hStands 16) (lt_size_of_getElem? hFirst) hWalk).1⟩

variable {splitter : Splitter} {reading : Reading} {medium : Medium} {reach : Nat}
  {images : List ByteArray}

theorem row_first (h : ∀ image ∈ images, IsWhole image) : (row images)[0]? ≠ some 0x4a := by
  cases images with
  | nil => decide
  | cons image rest =>
    rw [row, getElem?_append_of_some (h image List.mem_cons_self).first]
    decide

/-- The rest of the data is a row of images: the first one of them, and then the rest of the row. -/
theorem row_rest {rest : List ByteArray} (hInside : offset ≤ data.size)
    (h : data.extract offset data.size = row (image :: rest)) :
    offset + image.size ≤ data.size ∧ data.extract offset (offset + image.size) = image ∧
      data.extract (offset + image.size) data.size = row rest := by
  have hSize := congrArg ByteArray.size h
  rw [row, ByteArray.size_extract, ByteArray.size_append, Nat.min_self] at hSize
  have hEnd : min (offset + image.size) data.size = offset + image.size := by omega
  refine ⟨by omega, ?_, ?_⟩
  · calc data.extract offset (offset + image.size)
      _ = (data.extract offset data.size).extract 0 image.size := by
        rw [ByteArray.extract_extract, Nat.add_zero, hEnd]
      _ = image := by
        rw [h]
        exact ByteArray.extract_append_eq_left rfl
  · calc data.extract (offset + image.size) data.size
      _ = (data.extract offset data.size).extract image.size (image.size + (row rest).size) := by
        rw [ByteArray.extract_extract, Nat.min_eq_right (by omega)]
      _ = row rest := by
        rw [h]
        exact ByteArray.extract_append_eq_right rfl rfl

/-- The spans of a row hold the bytes of its images. -/
theorem map_bytes_rowSpans (hInside : offset ≤ data.size)
    (h : data.extract offset data.size = row images) :
    (rowSpans offset images).map (Span.bytes data) = images := by
  induction images generalizing offset with
  | nil => rfl
  | cons image rest ih =>
    obtain ⟨hStop, hImage, hRest⟩ := row_rest hInside h
    rw [rowSpans, List.map_cons, ih hStop hRest]
    exact congrArg (· :: rest) hImage

/-- Where the rest of the data is a row of images, the calls give them. The induction is on the
images, each of which is walked along as if it were alone. -/
theorem gives_row (hImages : ∀ image ∈ images, IsWhole image) (hMethod : splitter.method = .images)
    (hRoom : medium.Roomy reach) (h : reading.cursor.StandsAt medium reach offset)
    (hInside : offset ≤ medium.data.size)
    (hRow : medium.data.extract offset medium.data.size = row images) :
    splitter.Gives reading (rowSpans offset images) medium.data.size := by
  induction images generalizing splitter reading offset with
  | nil =>
    have hPast := ByteArray.extract_eq_empty_iff.mp hRow
    have hEnd : offset = medium.data.size := by omega
    rw [← hEnd]
    exact Splitter.gives_past (fun _ => hRoom) h (Nat.le_of_eq hEnd.symm)
  | cons image rest ih =>
    have hWhole := hImages image List.mem_cons_self
    have hLater := fun other hOther => hImages other (List.mem_cons_of_mem image hOther)
    obtain ⟨hStop, hImage, hRest⟩ := row_rest hInside hRow
    have hIn : StandsIn image medium.data offset := fun place hPlace => by
      rw [← getElem?_extract (Nat.add_lt_add_left hPlace offset), hImage]
    have hNext : medium.data[offset + image.size]? ≠ some 0x4a := by
      rw [← Nat.add_zero (offset + image.size), ← getElem?_rest, hRest]
      exact row_first hLater
    have hReach := h.steady.reach_lt
    have hPeeked := hRoom.peeked
    obtain ⟨-, -, hAlone⟩ := (isWhole_iff (by omega)).mp hWhole
    have hWalk := hAlone.standsIn hIn hStop hNext
    have hNonempty := lt_size_of_getElem? hWhole.first
    obtain ⟨hResult, hSplitter, hAfter⟩ := call_ended hMethod hRoom h (by omega) hWalk
    have hMethod' : (splitter.call reading).splitter.method = .images := by
      rw [hSplitter]
      exact hMethod
    exact .cons hResult hAfter.position_eq (congrArg Splitter.frames hSplitter)
      (ih hLater hMethod' hAfter hStop hRest)

/-- Images in a row are read back one by one. If each of them begins as an image and alone is read
as one image, the calls over the row give a span for each image, from where the one before it ends
and as long as the image, with the image's bytes in it, and then none, whatever windows the row is
read through and whether its size is reported or not. -/
theorem images_split (hImages : ∀ image ∈ images, IsWhole image)
    (hMethod : splitter.method = .images) (hRoom : medium.Roomy reach)
    (h : reading.cursor.StandsAt medium reach 0) (hRow : medium.data = row images) :
    splitter.Gives reading (rowSpans 0 images) medium.data.size ∧
      (rowSpans 0 images).map (Span.bytes medium.data) = images := by
  have hAll : medium.data.extract 0 medium.data.size = row images := by
    rw [ByteArray.extract_zero_size, hRow]
  exact ⟨gives_row hImages hMethod hRoom h (Nat.zero_le _) hAll,
    map_bytes_rowSpans (Nat.zero_le _) hAll⟩

/-- An image in which the look for a thumbnail's announcement goes over the end. -/
def openEnded : ByteArray := ⟨#[0xff, 0xd8, 0xff, 0xe0, 0xff, 0xd9]⟩

/-- Two images in a row of which nothing tells the size, four bytes at a time. -/
def rowStart : Reading where
  cursor := .ofMedium (.ofFlaky (row [openEnded, thumbnailed]) none (some 4) none) 20

theorem images_split_openEnded :
    (∀ image ∈ [openEnded, thumbnailed], IsWhole image) ∧
      (Splitter.ofFormat .mjpeg).Gives rowStart [⟨0, 6⟩, ⟨6, 29⟩] 29 := by
  have hImages : ∀ image ∈ [openEnded, thumbnailed], IsWhole image := by
    simp only [List.forall_mem_cons, List.not_mem_nil, false_implies, implies_true, and_true]
    exact ⟨(isWhole_iff (by decide)).mpr (by decide +kernel),
      (isWhole_iff (by decide)).mpr (by decide +kernel)⟩
  have hStands : rowStart.cursor.StandsAt
      (.ofFlaky (row [openEnded, thumbnailed]) none (some 4) none) 0x7fff_ffff_ffff_ffff 0 :=
    Cursor.standsAt_ofMedium (Medium.steady_ofFlaky (by decide) (by decide)) 20
  have hRoom : (Medium.ofFlaky (row [openEnded, thumbnailed]) none (some 4) none).Roomy
      0x7fff_ffff_ffff_ffff :=
    ⟨fun _ hSize => (by cases hSize), by decide, fun _ => by decide⟩
  exact ⟨hImages, (images_split hImages
    (show (Splitter.ofFormat .mjpeg).method = .images from rfl) hRoom hStands rfl).1⟩

end FrameFeed.Image
