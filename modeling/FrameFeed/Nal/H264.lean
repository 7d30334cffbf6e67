/-! The unit types of an H.264 stream. A unit starts with one byte, whose low five bits hold the
type. Types up to 5 carry slices of a picture. -/

namespace FrameFeed.H264

/-- What a NAL unit carries. -/
inductive UnitType where
  | slice
  | partitionA
  | partitionB
  | partitionC
  | idrSlice
  | sei
  | sps
  | pps
  | delimiter
  | endOfSequence
  | endOfStream
  | filler
  | unknown (number : UInt8)
  deriving DecidableEq, Repr

namespace UnitType

def ofNumber : UInt8 → UnitType
  | 1 => slice
  | 2 => partitionA
  | 3 => partitionB
  | 4 => partitionC
  | 5 => idrSlice
  | 6 => sei
  | 7 => sps
  | 8 => pps
  | 9 => delimiter
  | 10 => endOfSequence
  | 11 => endOfStream
  | 12 => filler
  | number => unknown number

/-- The type that a header byte announces. -/
def ofHeader (header : UInt8) : UnitType := ofNumber (header &&& 0x1f)

def number : UnitType → UInt8
  | slice => 1
  | partitionA => 2
  | partitionB => 3
  | partitionC => 4
  | idrSlice => 5
  | sei => 6
  | sps => 7
  | pps => 8
  | delimiter => 9
  | endOfSequence => 10
  | endOfStream => 11
  | filler => 12
  | unknown number => number

/-- The unit carries picture data. -/
def isPictureData : UnitType → Bool
  | slice | partitionA | partitionB | partitionC | idrSlice => true
  | _ => false

/-- The unit is a slice's second or third partition, which begins with the number of its slice
and not with the place of its first block. -/
def isLaterPartition : UnitType → Bool
  | partitionB | partitionC => true
  | _ => false

def name : UnitType → String
  | slice => "Slice"
  | partitionA => "SliceDPA"
  | partitionB => "SliceDPB"
  | partitionC => "SliceDPC"
  | idrSlice => "IDR"
  | sei => "SEI"
  | sps => "SPS"
  | pps => "PPS"
  | delimiter => "AUD"
  | endOfSequence => "EndOfSeq"
  | endOfStream => "EndOfStream"
  | filler => "Filler"
  | unknown number => s!"Unknown({number})"

end UnitType

/-- The greatest number of a type that carries a slice. -/
def lastSliceNumber : UInt8 := 5

end FrameFeed.H264
