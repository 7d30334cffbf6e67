import FrameFeed.Source

/-! A reading position with a window. The cursor keeps the bytes of its last refill as a window and
reads from there; what lies outside the window comes from the source. Peeking reads elsewhere and
comes back. A call that fails leaves behind what it has done up to then. -/

namespace FrameFeed

/-- A source, the bytes that were read ahead from it, and how many of those have been used. -/
structure Cursor where
  source : Source
  /-- The number of bytes that a refill asks for. -/
  capacity : Nat
  /-- The bytes of the last refill, which end where the source stands. -/
  window : ByteArray
  /-- The number of bytes of the window that have been used. -/
  used : Nat

/-- Where a seek goes: an offset counted from the first byte, from the end, or from the place that
the source has reached. -/
inductive SeekTarget where
  | fromStart (offset : Nat)
  | fromEnd (distance : Int)
  | fromReached (distance : Int)
  deriving DecidableEq, Repr

/-- The integer that a 64-bit word stands for when its top bit is a sign. -/
def signedWord (word : Nat) : Int :=
  if word < 0x8000_0000_0000_0000 then .ofNat word else .negSucc (0xffff_ffff_ffff_ffff - word)

namespace Cursor

open EStateM (Result)

/-- A step that uses the cursor and can fail. -/
abbrev Action := EStateM Fault Cursor

/-- The number of bytes that a refill asks for where nothing else is said. -/
def defaultCapacity : Nat := 32768

/-- A cursor at the start of a medium; its refills ask for at least 16 bytes. -/
def ofMedium (medium : Medium) (capacity : Nat) : Cursor where
  source := { medium }
  capacity := max capacity 16
  window := ByteArray.empty
  used := 0

/-- The number of bytes in the window that are still to be used. -/
def buffered (cursor : Cursor) : Nat := cursor.window.size - cursor.used

/-- The offset of the next byte. -/
def position (cursor : Cursor) : Nat := cursor.source.position - cursor.buffered

def size (cursor : Cursor) : Option Nat := cursor.source.medium.reportedSize

/-- The bytes of the window that are still to be used. -/
def pending (cursor : Cursor) : ByteArray := cursor.window.extract cursor.used cursor.window.size

/-- The number of bytes that are still to come, in the window and after it. -/
def unread (cursor : Cursor) : Nat :=
  cursor.buffered + (cursor.source.size - cursor.source.position)

/-- The cursor without its window. -/
def withoutWindow (cursor : Cursor) : Cursor :=
  { cursor with window := ByteArray.empty, used := 0 }

/-- Marks bytes of the window as used, at most all of them. -/
def advance (count : Nat) (cursor : Cursor) : Cursor :=
  { cursor with used := min (cursor.used + count) cursor.window.size }

/-- Marks bytes of the window as used on demand of a caller, at most all of them. The count may be
any 64-bit word, and the sum is one: where it overflows, bytes that were used come again. -/
def consume (count : Nat) (cursor : Cursor) : Cursor :=
  { cursor with
    used := min ((cursor.used + count) % 0x1_0000_0000_0000_0000) cursor.window.size }

/-- A count that leaves the sum within 64 bits takes no byte back. -/
theorem consume_eq_advance {count : Nat} {cursor : Cursor}
    (h : cursor.used + count < 0x1_0000_0000_0000_0000) :
    cursor.consume count = cursor.advance count := by
  rw [consume, Nat.mod_eq_of_lt h, advance]

/-- Reads ahead if no byte of the window is left. Afterwards the window has a byte left unless the
data has ended. -/
def fill : Action Unit := fun cursor =>
  if cursor.used < cursor.window.size then
    .ok () cursor
  else
    match cursor.source.read cursor.capacity with
    | .ok bytes source => .ok () { cursor with source, window := bytes, used := 0 }
    | .error fault source => .error (.io fault) { cursor with source, used := 0 }

/-- Goes to another place and drops the window, also when the source refuses. -/
def seek (target : SeekTarget) : Action Nat := fun cursor =>
  let absolute : Int := match target with
    | .fromStart offset => signedWord offset
    | .fromEnd distance => cursor.source.size + distance
    | .fromReached distance => cursor.source.position + distance
  match Source.seek absolute cursor.source with
  | .ok reached source => .ok reached { cursor.withoutWindow with source }
  | .error fault source => .error (.io fault) { cursor.withoutWindow with source }

/-! ### Reading -/

/-- The bytes that a read has come by, and its failure if it failed. -/
structure Gathered where
  bytes : ByteArray
  fault : Option Fault

/-- Adds the next `wanted` bytes to `got`, fewer only at the end or where the source fails. What is
wanted comes from the window first. A request as large as the window then goes to the source
itself, and the window is dropped. -/
def gather (wanted : Nat) (got : ByteArray) (cursor : Cursor) : Gathered × Cursor :=
  if wanted = 0 then
    (⟨got, none⟩, cursor)
  else if cursor.buffered ≠ 0 then
    let count := min cursor.buffered wanted
    gather (wanted - count)
      (got ++ cursor.window.extract cursor.used (cursor.used + count)) (cursor.advance count)
  else if cursor.capacity ≤ wanted then
    match Source.read wanted cursor.source with
    | .error fault source => (⟨got, some (.io fault)⟩, { cursor.withoutWindow with source })
    | .ok bytes source =>
      if bytes.size = 0 then
        (⟨got, none⟩, { cursor.withoutWindow with source })
      else
        gather (wanted - bytes.size) (got ++ bytes) { cursor.withoutWindow with source }
  else
    match fill cursor with
    | .error fault cursor => (⟨got, some fault⟩, cursor)
    | .ok _ filled =>
      if filled.buffered = 0 then
        (⟨got, none⟩, filled)
      else
        gather wanted got filled
termination_by 2 * wanted + (if cursor.buffered = 0 then 1 else 0)
decreasing_by
  · have : count ≠ 0 := by simp only [count]; omega
    split <;> omega
  · split <;> omega
  · simp_all

def readUpTo (wanted : Nat) : Action ByteArray := fun cursor =>
  match gather wanted ByteArray.empty cursor with
  | (⟨bytes, none⟩, cursor) => .ok bytes cursor
  | (⟨_, some fault⟩, cursor) => .error fault cursor

def readExact (wanted : Nat) : Action ByteArray := do
  let bytes ← readUpTo wanted
  if bytes.size < wanted then
    throw .endOfStream
  return bytes

def readByte : Action UInt8 := do
  let bytes ← readExact 1
  return bytes[0]?.getD 0

/-- Reads a number of two bytes, the more significant one first. -/
def readPair : Action Nat := do
  let bytes ← readExact 2
  return 256 * (bytes[0]?.getD 0).toNat + (bytes[1]?.getD 0).toNat

/-- Moves forward. Bytes of the window are used up first; for the rest the source is moved by a
64-bit distance. -/
def skip (count : Nat) : Action Unit := fun cursor =>
  if count ≤ cursor.buffered then
    .ok () { cursor with used := cursor.used + count }
  else
    let rest := signedWord (count - cursor.buffered)
    match Source.seek (cursor.source.position + rest) cursor.source with
    | .ok _ source => .ok () { cursor.withoutWindow with source }
    | .error fault source => .error (.io fault) { cursor.withoutWindow with source }

/-- Reads up to `wanted` bytes at an offset and comes back. Nothing moves when the window holds
those bytes. -/
def peekAt (offset wanted : Nat) : Action ByteArray := fun cursor =>
  let first := cursor.source.position - cursor.window.size
  if first ≤ offset ∧ offset + wanted ≤ cursor.source.position then
    .ok (cursor.window.extract (offset - first) (offset - first + wanted)) cursor
  else
    match seek (.fromStart offset) cursor with
    | .error fault moved => .error fault moved
    | .ok _ moved =>
      let (gathered, moved) := gather wanted ByteArray.empty moved
      match seek (.fromStart cursor.position) moved with
      | .error fault back => .error fault back
      | .ok _ back =>
        match gathered.fault with
        | some fault => .error fault back
        | none => .ok gathered.bytes back

/-- The data has ended. Where its size is not reported, this is found out by reading ahead. -/
def atEnd : Action Bool := fun cursor =>
  if cursor.used < cursor.window.size then
    .ok false cursor
  else
    match cursor.size with
    | some size => .ok (size ≤ cursor.position) cursor
    | none =>
      match fill cursor with
      | .ok _ filled => .ok (filled.buffered == 0) filled
      | .error fault filled => .error fault filled

end Cursor

end FrameFeed
