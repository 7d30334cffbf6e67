import FrameFeed.Cursor.Unread
import FrameFeed.Nal.H264
import FrameFeed.Nal.Hevc

/-! The part that a NAL unit plays in the division of a stream into pictures. The header and one
byte more tell it. In H.264 a slice starts with the place of its first block, whose code is a
single set bit when the place is the first one; in HEVC the bit after the header says the same. -/

namespace FrameFeed

open EStateM (Result)

/-- The part of a unit in the division of a stream into pictures. -/
inductive NalClass where
  /-- A further slice of the picture at hand. -/
  | laterSlice
  /-- The first slice of a picture. -/
  | firstSlice
  /-- Parameters, messages, delimiters and all else that is no slice. -/
  | nonSlice
  deriving DecidableEq, Repr

namespace NalClass

/-- The class of a slice by the byte in which its data begins. -/
def ofSliceByte (byte : UInt8) : NalClass :=
  if byte &&& 0x80 = 0 then laterSlice else firstSlice

/-- The class of an H.264 unit by its first bytes; none if they do not reach far enough. -/
def ofH264? (bytes : ByteArray) : Option NalClass :=
  match bytes[0]? with
  | none => none
  | some header =>
    let unitType := H264.UnitType.ofHeader header
    if H264.lastSliceNumber < unitType.number then some nonSlice
    else if unitType.isLaterPartition then some laterSlice
    else bytes[1]?.map ofSliceByte

/-- The class of an HEVC unit by its first bytes; none if they do not reach far enough. -/
def ofHevc? (bytes : ByteArray) : Option NalClass :=
  match bytes[0]?, bytes[1]? with
  | some header, some _ =>
    if Hevc.lastSliceNumber < Hevc.typeNumber header then some nonSlice
    else bytes[2]?.map ofSliceByte
  | _, _ => none

/-- The class of a unit by its first bytes; none if they do not reach far enough. -/
def ofBytes? (coding : NalCoding) (bytes : ByteArray) : Option NalClass :=
  match coding with
  | .h264 => ofH264? bytes
  | .hevc => ofHevc? bytes

/-- Looks at the unit at an offset without moving. There is no class when the stream ends inside
the bytes that tell it. -/
def peek? (coding : NalCoding) (offset : Nat) : Cursor.Action (Option NalClass) := fun cursor =>
  match cursor.peekAt offset (coding.headerSize + 1) with
  | .ok bytes after => .ok (ofBytes? coding bytes) after
  | .error fault after => .error (.headerUnreadable offset fault) after

/-- Looks at the unit at an offset of a stream in some format without moving, and insists on an
answer. -/
def peek (format : Format) (offset : Nat) : Cursor.Action NalClass :=
  match format with
  | .mjpeg => throw (.noNalUnits format)
  | .nal coding => do
    match ← peek? coding offset with
    | some unitClass => return unitClass
    | none => throw (.headerCut coding offset)

theorem unread_peek?_le {coding : NalCoding} {offset : Nat} {cursor after : Cursor}
    {unitClass : Option NalClass} (h : peek? coding offset cursor = .ok unitClass after) :
    after.unread ≤ cursor.unread := by
  simp only [peek?] at h
  split at h
  · rename_i hPeek
    cases h
    exact Cursor.unread_peekAt_le hPeek
  · cases h

end NalClass

end FrameFeed
