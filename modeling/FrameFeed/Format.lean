/-! The stream formats: byte streams of NAL units in two video codings, and JPEG images one after
another. Each format has a name and the file extensions it usually travels under. A path gives a
format when its extension belongs to one. -/

namespace FrameFeed

/-- A video coding whose stream is a sequence of NAL units set apart by start codes. -/
inductive NalCoding where
  | h264
  | hevc
  deriving DecidableEq, Repr

namespace NalCoding

/-- The short name under which the coding is listed and reported. -/
def name : NalCoding → String
  | h264 => "h264"
  | hevc => "hevc"

/-- The number of bytes in the header of a NAL unit. -/
def headerSize : NalCoding → Nat
  | h264 => 1
  | hevc => 2

end NalCoding

/-- What a file holds: NAL units of one coding, or a row of JPEG images. -/
inductive Format where
  | nal (coding : NalCoding)
  | mjpeg
  deriving DecidableEq, Repr

namespace Format

/-- Every format, in the order in which a name is looked up. -/
def all : List Format := [.nal .h264, .nal .hevc, .mjpeg]

/-- The short name under which the format is listed and reported. -/
def name : Format → String
  | nal coding => coding.name
  | mjpeg => "mjpeg"

/-- The usual file extensions, without the dot; the first one names written frames. -/
def extensions : Format → List String
  | nal .h264 => ["264", "h264", "avc"]
  | nal .hevc => ["265", "h265", "hevc"]
  | mjpeg => ["jpg", "jpeg", "mjpg", "mjpeg"]

/-- Frames of this format are cut at start codes. -/
def isNalStream : Format → Bool
  | nal _ => true
  | mjpeg => false

/-- The number of bytes in the header of a NAL unit, zero where there are no NAL units. -/
def headerSize : Format → Nat
  | nal coding => coding.headerSize
  | mjpeg => 0

/-- The format that an extension belongs to; the case of letters does not matter. -/
def ofExtension? (extension : String) : Option Format :=
  all.find? fun format => format.extensions.contains extension.toLower

/-- The part of a path after its last dot. -/
def extension? (path : String) : Option String :=
  if path.toList.contains '.' then
    some (String.ofList (path.toList.reverse.takeWhile (· != '.')).reverse)
  else
    none

/-- The format that the extension of a path belongs to. -/
def ofPath? (path : String) : Option Format :=
  extension? path >>= ofExtension?

/-- The format with this name or, failing that, with this extension. -/
def ofName? (name : String) : Option Format :=
  (all.find? fun format => format.name == name.toLower) <|> ofExtension? name

end Format

end FrameFeed
