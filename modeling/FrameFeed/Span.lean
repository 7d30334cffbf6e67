/-! A span of a stream: the bytes from one offset up to, and without, another. -/

namespace FrameFeed

/-- The offsets `start`, `start + 1`, … below `stop`. -/
structure Span where
  start : Nat
  stop : Nat
  deriving DecidableEq, Repr

namespace Span

/-- The number of bytes, zero when `stop` comes before `start`. -/
def size (span : Span) : Nat := span.stop - span.start

def isEmpty (span : Span) : Bool := span.stop ≤ span.start

/-- The span as a half-open interval. -/
def text (span : Span) : String := s!"[{span.start}, {span.stop})"

end Span

end FrameFeed
