import FrameFeed.FeedBuffer
import FrameFeed.Format
import FrameFeed.Sps

/-! What a run has found: the input and its format, what the stream says about its pictures, the
totals over all frames and, if asked for, a row for each frame. -/

namespace FrameFeed

/-- One frame and its place in the buffer. -/
structure FrameRow where
  index : Nat
  offset : Nat
  size : Nat
  bufferOffset : Nat
  address : Nat
  /-- The frame goes over the end of the buffer. -/
  wrapped : Bool
  deriving DecidableEq, Repr

/-- The totals over the frames so far. -/
structure Tally where
  frames : Nat := 0
  bytes : Nat := 0
  largest : Nat := 0
  mode : FeedMode
  capacity : Nat
  wraps : Nat := 0
  grows : Nat := 0
  deriving DecidableEq, Repr

/-- What a run has found. -/
structure Report where
  path : String
  format : Format
  score : Option Nat
  fileSize : Option Nat
  sps : Option Sps
  tally : Tally
  rows : Option (List FrameRow)
  deriving DecidableEq, Repr

/-- The shape of the samples, if the parameter set gives them a width. -/
def Sps.ratioText? (sps : Sps) : Option String :=
  let (width, height) := sps.aspect.ratio
  if width = 0 then none else some s!"{width}/{height}"

end FrameFeed
