import FrameFeed.Cursor.Unread
import FrameFeed.Reading

/-! JPEG images one after another. An image ends with its own end marker. Segments that can hold a
whole thumbnail are jumped over by their length. A JFIF extension segment is not, so that the
first end marker after its thumbnail's announcement belongs to the thumbnail. -/

namespace FrameFeed.Image

open EStateM (Result)

/-- The code of the marker that ends an image. -/
def endMarker : UInt8 := 0xd9

/-- The code of the marker of JFIF data and its extensions. -/
def applicationMarker : UInt8 := 0xe0

/-- The two bytes that start an image. -/
def startBytes : List UInt8 := [0xff, 0xd8]

/-- The bytes after a segment's length that announce a thumbnail coded as an image. -/
def thumbnailBytes : List UInt8 := [0x4a, 0x46, 0x58, 0x58, 0x00, 0x10]

/-- The segment of a marker is jumped over: the application segments but the first, and the frame
headers. -/
def isJumped (marker : UInt8) : Bool :=
  (0xe1 ≤ marker && marker ≤ 0xef) || (0xc1 ≤ marker && marker ≤ 0xc3) ||
    (0xc5 ≤ marker && marker ≤ 0xcb)

def listed (bytes : ByteArray) : List UInt8 := bytes.data.toList

/-- The index of the first byte 255 of a window, from an index on. -/
def findMark? (window : ByteArray) (index : Nat) : Option Nat :=
  if h : index < window.size then
    if window[index] = 0xff then some index else findMark? window (index + 1)
  else
    none
termination_by window.size - index

/-- Moves past the next byte 255; tells whether there is one. -/
def skipToMark (cursor : Cursor) : Result Fault Cursor Bool :=
  match hFill : cursor.fill with
  | .error fault failed => .error fault failed
  | .ok _ filled =>
    if hEnd : filled.buffered = 0 then
      .ok false filled
    else
      match findMark? filled.window filled.used with
      | some index => .ok true (filled.advance (index - filled.used + 1))
      | none =>
        have : (filled.advance filled.buffered).unread < cursor.unread := by
          rw [← Cursor.unread_fill hFill]
          exact Cursor.unread_advance_lt hEnd hEnd
        skipToMark (filled.advance filled.buffered)
termination_by cursor.unread

/-- Reads the code of a marker, the next byte that is not 255; there is none at the end. -/
def readCode (cursor : Cursor) : Result Fault Cursor (Option UInt8) :=
  match hFill : cursor.fill with
  | .error fault failed => .error fault failed
  | .ok _ filled =>
    if hEnd : filled.used < filled.window.size then
      have hLess : (filled.advance 1).unread < cursor.unread :=
        Cursor.unread_advance_one_lt hFill hEnd
      if filled.window[filled.used] = 0xff then
        readCode (filled.advance 1)
      else
        .ok (some filled.window[filled.used]) (filled.advance 1)
    else
      .ok none filled
termination_by cursor.unread

/-- Moves past the next marker and gives its code. -/
def nextMarker? : Cursor.Action (Option UInt8) := fun cursor =>
  match skipToMark cursor with
  | .error fault after => .error fault after
  | .ok false after => .ok none after
  | .ok true marked => readCode marked

/-- Jumps over a segment, from its length on. `offset` is where its marker starts. -/
def jump (marker : UInt8) (size : Option Nat) (offset : Nat) (cursor : Cursor) :
    Result Fault Cursor Unit :=
  match cursor.readPair with
  | .error .endOfStream after => .error (.segmentCut marker offset) after
  | .error fault after => .error fault after
  | .ok length after =>
    if length < 2 then
      .error (.segmentLength marker length offset) after
    else if size.any (· < cursor.position + length) then
      .error (.segmentCut marker offset) after
    else
      after.skip (length - 2)

/-- A byte 255 that is found leaves fewer bytes to come. -/
theorem unread_skipToMark_lt {cursor after : Cursor}
    (h : skipToMark cursor = .ok true after) : after.unread < cursor.unread := by
  fun_induction skipToMark cursor with
  | case1 => cases h
  | case2 => cases h
  | case3 cursor _ filled hFill hEnd index =>
    cases h
    rw [← Cursor.unread_fill hFill]
    exact Cursor.unread_advance_lt (Nat.succ_ne_zero _) hEnd
  | case4 _ _ _ _ _ _ hLess ih => exact Nat.lt_trans (ih h) hLess

theorem unread_readCode_lt {cursor after : Cursor} {code : UInt8}
    (h : readCode cursor = .ok (some code) after) : after.unread < cursor.unread := by
  fun_induction readCode cursor with
  | case1 => cases h
  | case2 _ _ _ _ _ hLess _ ih => exact Nat.lt_trans (ih h) hLess
  | case3 _ _ _ _ _ hLess _ =>
    cases h
    exact hLess
  | case4 => cases h

/-- A marker that is found leaves fewer bytes to come. -/
theorem unread_nextMarker?_lt {cursor after : Cursor} {code : UInt8}
    (h : nextMarker? cursor = .ok (some code) after) : after.unread < cursor.unread := by
  simp only [nextMarker?] at h
  split at h
  · cases h
  · cases h
  · rename_i hMark
    exact Nat.lt_trans (unread_readCode_lt h) (unread_skipToMark_lt hMark)

theorem unread_jump_le {marker : UInt8} {size : Option Nat} {offset : Nat}
    {cursor after : Cursor} (h : jump marker size offset cursor = .ok () after) :
    after.unread ≤ cursor.unread := by
  simp only [jump] at h
  split at h
  · cases h
  · cases h
  · rename_i length read hRead
    split at h
    · cases h
    · split at h
      · cases h
      · have := Cursor.readPair_lt hRead
        exact Nat.le_trans (Cursor.unread_skip_le (by omega) h) (Cursor.unread_readPair_le hRead)

/-- Reads on to the end of an image that starts at `start` and gives the offset of that end. Inside
a thumbnail an end marker only ends the thumbnail. -/
def stopFrom (start : Nat) (thumbnail : Bool) (cursor : Cursor) : Result Fault Cursor Nat :=
  match hMarker : nextMarker? cursor with
  | .error fault after => .error fault after
  | .ok none after => .error (.noImageEnd start) after
  | .ok (some marker) marked =>
    have hLess : marked.unread < cursor.unread := unread_nextMarker?_lt hMarker
    if marker = endMarker then
      if thumbnail then stopFrom start false marked else .ok marked.position marked
    else if marker = applicationMarker then
      match hPeek : marked.peekAt (marked.position + 2) thumbnailBytes.length with
      | .error fault after => .error fault after
      | .ok bytes peeked =>
        have : peeked.unread < cursor.unread :=
          Nat.lt_of_le_of_lt (Cursor.unread_peekAt_le hPeek) hLess
        stopFrom start (thumbnail || listed bytes = thumbnailBytes) peeked
    else if isJumped marker then
      match hJump : jump marker marked.size (marked.position - 2) marked with
      | .error fault after => .error fault after
      | .ok _ jumped =>
        have : jumped.unread < cursor.unread := Nat.lt_of_le_of_lt (unread_jump_le hJump) hLess
        stopFrom start thumbnail jumped
    else
      stopFrom start thumbnail marked
termination_by cursor.unread

/-- Reads the next image and leaves the cursor at its end. There is none at the end of the
stream. -/
def next : Reading.Action (Option Span) := do
  if ← Reading.onCursor Cursor.atEnd then
    return none
  let start ← Reading.position
  let bytes ← Reading.onCursor (Cursor.peekAt start startBytes.length)
  if listed bytes ≠ startBytes then
    Reading.remark (.noImageStart start)
  let stop ← Reading.onCursor (stopFrom start false)
  return some ⟨start, stop⟩

end FrameFeed.Image
