import FrameFeed.Fault

/-! Sources of bytes that can be read and repositioned. A `Medium` fixes the bytes, the size that
is reported for them, and how reads and seeks behave: a read may hand over fewer bytes than were
asked for, and a read or a seek may fail. A `Source` is a medium together with a position and the
number of calls made so far, on which the medium's behaviour may depend. -/

namespace FrameFeed

/-- Bytes and the behaviour of the device that holds them. -/
structure Medium where
  data : ByteArray
  /-- The size that the device reports, if it knows one. -/
  reportedSize : Option Nat
  /-- The most bytes that a read hands over, by turn, position and number of bytes asked for. -/
  serve : (turn position wanted : Nat) → Except IoFault Nat := fun _ _ wanted => .ok wanted
  /-- The failure of a seek, by turn and target, if it fails. -/
  refuse : (turn target : Nat) → Option IoFault := fun _ _ => none
  /-- The failure of a seek to an offset before the first byte. -/
  negativeSeek : IoFault := .negativeSeek

namespace Medium

/-- Bytes in memory, served in full. -/
def ofBytes (data : ByteArray) : Medium where
  data
  reportedSize := some data.size

/-- The greatest offset in a file: the system addresses `2 ^ 32` blocks of 4096 bytes and keeps the
last one free. -/
def lastFileOffset : Nat := 0xffff_ffff * 4096

/-- Bytes in a file, served in full; the system refuses offsets that no file has. -/
def ofFile (data : ByteArray) : Medium where
  data
  reportedSize := some data.size
  refuse := fun _ target =>
    if lastFileOffset < target then some (.system .invalidArgument) else none
  negativeSeek := .system .invalidArgument

/-- An open folder: it has a size, but no read succeeds. -/
def ofFolder : Medium where
  data := ByteArray.empty
  reportedSize := some 4096
  serve := fun _ _ _ => .error (.system .isDirectory)
  negativeSeek := .system .invalidArgument

/-- Bytes in memory of which a read hands over at most `chunk`, and none from `badAt` on. -/
def ofFlaky (data : ByteArray) (reportedSize chunk badAt : Option Nat) : Medium where
  data
  reportedSize
  serve := fun _ position wanted =>
    let limited := (chunk.map (min wanted)).getD wanted
    match badAt with
    | none => .ok limited
    | some bad =>
      if bad ≤ position then .error (.device "bad sector") else .ok (min limited (bad - position))

end Medium

/-- A medium, the offset of the next read, and the number of reads and seeks so far. -/
structure Source where
  medium : Medium
  position : Nat := 0
  turn : Nat := 0

namespace Source

/-- A step that uses the source and can fail. -/
abbrev Action := EStateM IoFault Source

def size (source : Source) : Nat := source.medium.data.size

/-- Reads at most `wanted` bytes and moves past them. No byte comes only at the end, or from a
medium that hands none over. -/
def read (wanted : Nat) : Action ByteArray := fun source =>
  match source.medium.serve source.turn source.position wanted with
  | .error fault => .error fault { source with turn := source.turn + 1 }
  | .ok served =>
    let count := min (min wanted served) (source.size - source.position)
    .ok (source.medium.data.extract source.position (source.position + count))
      { source with position := source.position + count, turn := source.turn + 1 }

/-- Moves to an offset, which may lie past the end of the data. -/
def seek : (target : Int) → Action Nat
  | .negSucc _ => fun source =>
    .error source.medium.negativeSeek { source with turn := source.turn + 1 }
  | .ofNat target => fun source =>
    match source.medium.refuse source.turn target with
    | some fault => .error fault { source with turn := source.turn + 1 }
    | none => .ok target { source with position := target, turn := source.turn + 1 }

/-- A read moves past the bytes that it hands over. -/
theorem position_read {wanted : Nat} {source after : Source} {bytes : ByteArray}
    (h : read wanted source = .ok bytes after) :
    after.position = source.position + bytes.size ∧ bytes.size ≤ wanted := by
  simp only [read] at h
  split at h
  · cases h
  · cases h
    simp only [ByteArray.size_extract, size]
    omega

theorem size_read_le {wanted : Nat} {source after : Source} {bytes : ByteArray}
    (h : read wanted source = .ok bytes after) :
    bytes.size ≤ source.size - source.position := by
  simp only [read] at h
  split at h
  · cases h
  · cases h
    simp only [ByteArray.size_extract, size]
    omega

theorem medium_read {wanted : Nat} {source after : Source} {bytes : ByteArray}
    (h : read wanted source = .ok bytes after) : after.medium = source.medium := by
  simp only [read] at h
  split at h <;> cases h
  rfl

theorem position_read_error {wanted : Nat} {source after : Source} {fault : IoFault}
    (h : read wanted source = .error fault after) :
    after.position = source.position ∧ after.medium = source.medium := by
  simp only [read] at h
  split at h <;> cases h
  exact ⟨rfl, rfl⟩

theorem position_seek {target : Int} {source after : Source} {reached : Nat}
    (h : seek target source = .ok reached after) :
    target = reached ∧ after.position = reached ∧ after.medium = source.medium := by
  cases target with
  | negSucc n => simp only [seek] at h; cases h
  | ofNat n =>
    simp only [seek] at h
    split at h <;> cases h
    exact ⟨rfl, rfl, rfl⟩

end Source

end FrameFeed
