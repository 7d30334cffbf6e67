import FrameFeed.Cursor
import FrameFeed.Span

/-! The buffer that frames are fed through. A linear buffer takes each frame at its start. A ring
takes each frame where the last one ended, and goes on at the start when the end is reached; the
place for the next frame is always before the end. A frame is then in two parts, the tail up to
the end of the buffer and the head at its start. -/

namespace FrameFeed

open EStateM (Result)

/-- Where a buffer takes the next frame. -/
inductive FeedMode where
  | linear
  | ring
  deriving DecidableEq, Repr

/-- The name of a mode as reports show it. -/
def FeedMode.name : FeedMode → String
  | linear => "linear"
  | ring => "ring"

/-- Storage for frames, and where the last frame begins and ends in it. -/
structure FeedBuffer where
  storage : ByteArray
  mode : FeedMode
  /-- The address that a device knows the storage by. -/
  address : Nat := 0
  /-- The index at which the last frame begins. -/
  frameStart : Nat := 0
  /-- The index after the last frame, where a ring takes the next one. -/
  frameStop : Nat := 0
  /-- The size of the last frame. -/
  lastSize : Nat := 0

namespace FeedBuffer

/-- Bytes of one value, `count` of them, put together from two halves. -/
def filled (byte : UInt8) (count : Nat) : ByteArray :=
  if count = 0 then
    ByteArray.empty
  else
    let half := filled byte (count / 2)
    if count % 2 = 0 then half ++ half else (half ++ half).push byte
termination_by count

/-- Filled bytes are all the same. -/
theorem data_filled (byte : UInt8) (count : Nat) :
    (filled byte count).data = Array.replicate count byte := by
  fun_induction filled byte count with
  | case1 => rfl
  | case2 count _ half hEven ih =>
    rw [ByteArray.data_append, ih, Array.replicate_append_replicate]
    congr 1
    omega
  | case3 count _ half hOdd ih =>
    rw [ByteArray.data_push, ByteArray.data_append, ih, Array.replicate_append_replicate,
      ← Array.replicate_succ]
    congr 1
    omega

/-- A buffer of `capacity` bytes that holds no frame. -/
def ofCapacity (mode : FeedMode) (capacity : Nat) (byte : UInt8) : FeedBuffer where
  storage := filled byte capacity
  mode

/-- The capacity for pictures of ordinary size. -/
def defaultCapacity : Nat := 3 * 1024 * 1024

/-- The capacity for large pictures. -/
def largeCapacity : Nat := 32 * 1024 * 1024

/-- The capacity that suits pictures of a size. -/
def capacityFor (width height : Nat) : Nat :=
  if 1920 * 1080 < width * height then largeCapacity else defaultCapacity

/-- The number of bytes that the buffer holds. -/
def capacity (buffer : FeedBuffer) : Nat := buffer.storage.size

/-- The address at which the last frame begins. -/
def frameAddress (buffer : FeedBuffer) : Nat := buffer.address + buffer.frameStart

/-- The buffer without a frame; the storage stays as it is. -/
def reset (buffer : FeedBuffer) : FeedBuffer :=
  { buffer with frameStart := 0, frameStop := 0, lastSize := 0 }

/-- The buffer with room for `required` bytes. One that has to grow for it holds no frame
afterwards. -/
def grow (buffer : FeedBuffer) (required : Nat) : FeedBuffer :=
  if required ≤ buffer.capacity then
    buffer
  else
    match buffer with
    | { storage, mode, address, .. } =>
      { storage := storage ++ filled 0 (required - storage.size), mode, address }

/-- The two parts of the last frame, in order; the second is empty unless the frame goes over the
end of the buffer. -/
def segments (buffer : FeedBuffer) : ByteArray × ByteArray :=
  let tailStop := min (buffer.frameStart + buffer.lastSize) buffer.capacity
  let headSize := buffer.lastSize - (tailStop - buffer.frameStart)
  (buffer.storage.extract buffer.frameStart tailStop, buffer.storage.extract 0 headSize)

/-! ### Feeding -/

/-- The bytes with some of them, from `index` on, replaced. -/
def overlay (storage : ByteArray) (index : Nat) (bytes : ByteArray) : ByteArray :=
  bytes.copySlice 0 storage index bytes.size

/-- Storage that is being written and the cursor that it is written from. -/
abbrev Feeding := ByteArray × Cursor

/-- Writes the next `count` bytes of the stream into the storage from `index` on. When the stream
fails or ends too early, what came before that is written all the same. -/
def writeSegment (index count : Nat) : EStateM Fault Feeding Unit := fun (storage, cursor) =>
  let (gathered, cursor) := cursor.gather count ByteArray.empty
  let got := gathered.bytes.size
  let written := overlay storage index gathered.bytes
  match gathered.fault with
  | some fault => .error fault (written, cursor)
  | none =>
    if got < count then
      .error (.io (.shortFeed count got)) (written, cursor)
    else
      .ok () (written, cursor)

/-- Writes the next `size` bytes of the stream as a frame and gives the indices at which the frame
begins and ends. -/
def writeFrame (mode : FeedMode) (start capacity size : Nat) :
    EStateM Fault Feeding (Nat × Nat) := do
  match mode with
  | .linear =>
    writeSegment 0 size
    return (0, size)
  | .ring =>
    if start + size < capacity then
      writeSegment start size
      return (start, start + size)
    else
      let head := size - (capacity - start)
      writeSegment start (capacity - start)
      writeSegment 0 head
      return (start, head)

/-- Writes the bytes of a span into the buffer and gives their number. A span larger than the
buffer is refused before anything happens; after any other failure the buffer still says where the
last frame was. -/
def fill (span : Span) : EStateM Fault (FeedBuffer × Cursor) Nat := fun (buffer, cursor) =>
  if buffer.capacity < span.size then
    .error (.needLargerBuffer span.size buffer.capacity) (buffer, cursor)
  else
    match Cursor.seek (.fromStart span.start) cursor with
    | .error fault cursor => .error fault (buffer, cursor)
    | .ok _ cursor =>
      match buffer with
      | { storage, mode, address, frameStart, frameStop, lastSize } =>
        match writeFrame mode frameStop storage.size span.size (storage, cursor) with
        | .ok (frameStart, frameStop) (storage, cursor) =>
          .ok span.size
            ({ storage, mode, address, frameStart, frameStop, lastSize := span.size }, cursor)
        | .error fault (storage, cursor) =>
          .error fault ({ storage, mode, address, frameStart, frameStop, lastSize }, cursor)

end FeedBuffer

end FrameFeed
