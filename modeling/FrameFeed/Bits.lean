import FrameFeed.Fault

/-! Reading bits. A `BitReader` is a position in the bits of some bytes, each byte giving its most
significant bit first. It reads single bits, fields of up to 32 bits, and the variable-length
codes of parameter sets. A read that fails for want of data leaves the position where the data ran
out: fields check beforehand and do not move, codes read bit by bit and do. -/

namespace FrameFeed

/-- Bytes and the number of their bits that have been read. -/
structure BitReader where
  data : ByteArray
  position : Nat := 0

namespace BitReader

/-- A step that reads from the bits and can fail. -/
abbrev Action := EStateM Fault BitReader

/-- The number of bits still to be read. -/
def remaining (reader : BitReader) : Nat := 8 * reader.data.size - reader.position

/-- The index of the byte that the next bit comes from. -/
def bytePosition (reader : BitReader) : Nat := reader.position / 8

def atEnd (reader : BitReader) : Bool := reader.remaining == 0

/-- The byte at an index, zero past the last one. -/
def byteAt (data : ByteArray) (index : Nat) : Nat := (data[index]?.getD 0).toNat

/-- The number written by `count` bytes from `first` on, the most significant byte first. -/
def bigEndian (data : ByteArray) (first : Nat) : Nat → Nat
  | 0 => 0
  | count + 1 => 256 * bigEndian data first count + byteAt data (first + count)

/-- The number written by `count` bits from `position` on: the bytes that hold them, less the bits
after the last one and the bits before the first. -/
def field (data : ByteArray) (position count : Nat) : Nat :=
  let first := position / 8
  let after := (position + count + 7) / 8
  (bigEndian data first (after - first) >>> (8 * after - (position + count))) % (1 <<< count)

def readBit : Action Nat := fun reader =>
  if reader.position / 8 < reader.data.size then
    let bit := (byteAt reader.data (reader.position / 8) >>> (7 - reader.position % 8)) % 2
    .ok bit { reader with position := reader.position + 1 }
  else
    .error .endOfStream reader

def readFlag : Action Bool := do return (← readBit) == 1

/-- Reads a field of at most 32 bits, all of it or nothing. -/
def readBits (count : Nat) : Action Nat := fun reader =>
  if count = 0 then .ok 0 reader
  else if 32 < count then .error (.bitCount count) reader
  else if reader.remaining < count then .error .endOfStream reader
  else .ok (field reader.data reader.position count)
    { reader with position := reader.position + count }

/-- Passes over bits, all of them or none. -/
def skipBits (count : Nat) : Action Unit := fun reader =>
  if reader.remaining < count then .error .endOfStream reader
  else .ok () { reader with position := reader.position + count }

/-! ### Variable-length codes -/

/-- Counts the zeros before the next one, and reads them all; `allowance` zeros are too many. -/
def leadingZeros : (allowance : Nat) → Action Nat
  | 0 => throw .codeTooLong
  | allowance + 1 => do
    if (← readBit) == 0 then
      return (← leadingZeros allowance) + 1
    else
      return 0

/-- Reads an unsigned code: zeros, a one, and as many bits as there were zeros. -/
def readUnsigned : Action Nat := do
  let zeros ← leadingZeros 32
  let suffix ← readBits zeros
  return (1 <<< zeros) - 1 + suffix

/-- The number that a signed code stands for: 0, 1, -1, 2, -2, … -/
def signedValue (code : Nat) : Int :=
  if code % 2 = 0 then -((code + 1) / 2 : Nat) else ((code + 1) / 2 : Nat)

def readSigned : Action Int := do return signedValue (← readUnsigned)

def skipUnsigned : Action Unit := do
  let _ ← readUnsigned

end BitReader

end FrameFeed
