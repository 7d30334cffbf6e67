import FrameFeed.AccessUnit
import FrameFeed.Image

/-! A splitter gives the frames of a stream one by one, as spans. In a stream of NAL units a frame
is an access unit, in a row of images an image. -/

namespace FrameFeed

/-- How frames are found. -/
inductive Splitter.Method where
  /-- Access units are read; some callers can cancel the reading. -/
  | accessUnits (coding : NalCoding) (cancellable : Bool)
  | images
  deriving DecidableEq, Repr

/-- A way to find frames and the number of frames found so far. -/
structure Splitter where
  method : Splitter.Method
  frames : Nat := 0
  deriving DecidableEq, Repr

namespace Splitter

def ofFormat : Format → Splitter
  | .nal coding => { method := .accessUnits coding false }
  | .mjpeg => { method := .images }

/-- The splitter of a format of NAL units; other formats have no access units. -/
def ofNalFormat? : Format → Except Fault Splitter
  | .nal coding => .ok { method := .accessUnits coding false }
  | .mjpeg => .error (.notNalCoding .mjpeg)

/-- The splitter of a coding that stops when its caller cancels. -/
def cancellable (coding : NalCoding) : Splitter := { method := .accessUnits coding true }

/-- The format whose frames are found. -/
def format (splitter : Splitter) : Format :=
  match splitter.method with
  | .accessUnits coding _ => .nal coding
  | .images => .mjpeg

def name (splitter : Splitter) : String := splitter.format.name

/-- Reads the span of one frame. -/
def read (method : Method) (cancelled : Bool) : Reading.Action (Option Span) :=
  match method with
  | .accessUnits coding cancellable => AccessUnit.next coding (cancellable && cancelled)
  | .images => Image.next

def frameNote (method : Method) (number : Nat) (span : Span) : Note :=
  match method with
  | .accessUnits coding _ => .unitRead coding number span
  | .images => .imageRead number span

/-- Reads the next frame and counts it. There is none at the end of the stream. -/
def next (splitter : Splitter) (cancelled : Bool) : Reading.Action (Option Span × Splitter) := do
  match ← read splitter.method cancelled with
  | none => return (none, splitter)
  | some span =>
    let counted := { splitter with frames := splitter.frames + 1 }
    Reading.remark (frameNote splitter.method counted.frames span)
    return (some span, counted)

end Splitter

end FrameFeed
