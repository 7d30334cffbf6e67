import FrameFeed.Nal.Class
import FrameFeed.Reading
import FrameFeed.StartCode.Scan

/-! Access units: all NAL units of one picture. Units that are no slices, such as parameter sets,
belong to the picture after them where a picture follows, and to the picture at hand where more of
its slices do or the stream ends. An access unit starts at the first zero of its first start code
and ends at the first zero of the next one's, or at the end of the stream. -/

namespace FrameFeed.AccessUnit

open EStateM (Result)

/-- How far the reading of an access unit has got. -/
inductive Phase where
  /-- No slice has been seen. -/
  | leading
  /-- The last unit was a slice. -/
  | picture
  /-- Units that are no slices have followed the picture's slices, the first of them at `start`. -/
  | trailing (start : Nat)
  deriving DecidableEq, Repr

/-- What one more unit means for the access unit at hand. -/
inductive Verdict where
  | goOn (phase : Phase)
  /-- A new access unit starts at an offset. -/
  | cut (stop : Nat)
  deriving DecidableEq, Repr

/-- What a unit of a class means whose start code is at `offset`. -/
def Phase.next (phase : Phase) (offset : Nat) (unitClass : NalClass) : Verdict :=
  match phase, unitClass with
  | leading, .nonSlice => .goOn .leading
  | leading, _ => .goOn .picture
  | picture, .nonSlice => .goOn (.trailing offset)
  | picture, .laterSlice => .goOn .picture
  | picture, .firstSlice => .cut offset
  | trailing start, .nonSlice => .goOn (.trailing start)
  | trailing _, .laterSlice => .goOn .picture
  | trailing start, .firstSlice => .cut start

/-- Reads on to the end of an access unit, from the unit whose start code is `code`, and gives the
offset of that end. A unit that the end of the stream cuts short counts as no slice. -/
def stopFrom (coding : NalCoding) (phase : Phase) (code : StartCode) (notes : Array Note)
    (cursor : Cursor) : Result Fault Reading Nat :=
  match hPeek : NalClass.peek? coding code.nalOffset cursor with
  | .error fault cursor => .error fault { cursor, notes }
  | .ok unitClass peeked =>
    let notes := if unitClass.isNone then notes.push (.headerCut coding code.nalOffset) else notes
    match phase.next code.offset (unitClass.getD .nonSlice) with
    | .cut stop => .ok stop { cursor := peeked, notes }
    | .goOn phase =>
      match hScan : StartCode.scan peeked with
      | .error fault cursor => .error fault { cursor, notes }
      | .ok none cursor => .ok cursor.position { cursor, notes }
      | .ok (some next) scanned =>
        have : scanned.unread < cursor.unread :=
          Nat.lt_of_lt_of_le (StartCode.unread_scan_lt hScan) (NalClass.unread_peek?_le hPeek)
        stopFrom coding phase next notes scanned
termination_by cursor.unread

/-- Reads the next access unit and leaves the cursor at its end. There is none at the end of the
stream. -/
def next (coding : NalCoding) (cancelled : Bool) : Reading.Action (Option Span) := do
  let origin ← Reading.position
  match ← Reading.onCursor StartCode.scan with
  | none =>
    let stop ← Reading.position
    if origin < stop then
      throw (.noStartCode coding (stop - origin) origin)
    return none
  | some first =>
    if origin < first.offset then
      Reading.remark (.bytesSkipped coding (first.offset - origin) origin)
    if cancelled then
      throw .cancelled
    let stop ← fun reading => stopFrom coding .leading first reading.notes reading.cursor
    let _ ← Reading.onCursor (Cursor.seek (.fromStart stop))
    if stop ≤ first.offset then
      return none
    return some ⟨first.offset, stop⟩

end FrameFeed.AccessUnit
