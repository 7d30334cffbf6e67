import FrameFeed.Fault

/-! The unit types and headers of an HEVC stream. A header has two bytes: a zero bit, six bits of
type, six of layer and three of temporal sublayer. Types up to 21 carry slice segments. -/

namespace FrameFeed.Hevc

/-- What a NAL unit carries. -/
inductive UnitType where
  | trail
  | tsa
  | stsa
  | radl
  | rasl
  | bla
  | idr
  | cra
  | vps
  | sps
  | pps
  | delimiter
  | endOfSequence
  | filler
  | sei
  | unknown (number : UInt8)
  deriving DecidableEq, Repr

namespace UnitType

def ofNumber : UInt8 → UnitType
  | 0 | 1 => trail
  | 2 | 3 => tsa
  | 4 | 5 => stsa
  | 6 | 7 => radl
  | 8 | 9 => rasl
  | 16 | 17 | 18 => bla
  | 19 | 20 => idr
  | 21 => cra
  | 32 => vps
  | 33 => sps
  | 34 => pps
  | 35 => delimiter
  | 36 | 37 => endOfSequence
  | 38 => filler
  | 39 | 40 => sei
  | number => unknown number

/-- Decoding can start at the unit. -/
def isRandomAccess : UnitType → Bool
  | bla | idr | cra => true
  | _ => false

/-- The unit holds parameters of the video, of a sequence or of pictures. -/
def isParameterSet : UnitType → Bool
  | vps | sps | pps => true
  | _ => false

def name : UnitType → String
  | trail => "TRAIL"
  | tsa => "TSA"
  | stsa => "STSA"
  | radl => "RADL"
  | rasl => "RASL"
  | bla => "BLA"
  | idr => "IDR"
  | cra => "CRA"
  | vps => "VPS"
  | sps => "SPS"
  | pps => "PPS"
  | delimiter => "AUD"
  | endOfSequence => "EOS"
  | filler => "FD"
  | sei => "SEI"
  | unknown number => s!"Unknown({number})"

end UnitType

/-- The greatest number of a type that carries a slice segment. -/
def lastSliceNumber : UInt8 := 21

/-- The number of the type that the first byte of a header announces. -/
def typeNumber (first : UInt8) : UInt8 := (first &&& 0x7e) >>> 1

/-- The fields of a header. -/
structure Header where
  typeNumber : UInt8
  layer : UInt8
  temporalPlusOne : UInt8
  deriving DecidableEq, Repr

namespace Header

def ofBytes (first second : UInt8) : Header where
  typeNumber := Hevc.typeNumber first
  layer := ((first &&& 1) <<< 5) ||| (second >>> 3)
  temporalPlusOne := second &&& 7

/-- The header at the start of a unit. -/
def parse (data : ByteArray) : Except Fault Header :=
  if h : 2 ≤ data.size then
    .ok (ofBytes data[0] data[1])
  else
    .error .headerTooShort

def unitType (header : Header) : UnitType := .ofNumber header.typeNumber

/-- The unit carries a slice segment. -/
def isSlice (header : Header) : Bool := header.typeNumber ≤ lastSliceNumber

end Header

end FrameFeed.Hevc
