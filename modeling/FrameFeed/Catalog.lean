import FrameFeed.Nal.H264
import FrameFeed.Nal.Hevc
import FrameFeed.Splitter

/-! Telling the format of a stream, and the splitters on offer. The first bytes of a stream give a
score for each format; a file extension gives a low one where the bytes say nothing. A catalog
lists splitters by format, and the formats whose scores are compared. -/

namespace FrameFeed

/-- A format and how sure it is. -/
structure Probe where
  format : Format
  score : Nat
  deriving DecidableEq, Repr

namespace Probe

/-- The score of a format that only the extension of the path speaks for. -/
def extensionScore : Nat := 50

/-- The score of a stream that starts with picture data or a delimiter. -/
def headerScore : Nat := 75

/-- The score of a stream that starts with the format's own mark. -/
def fullScore : Nat := 100

/-- The score that the extension of a path gives a format. -/
def ofPath? (format : Format) (path : Option String) : Option Nat :=
  if path.bind Format.ofPath? = some format then some extensionScore else none

/-- The score of H.264 by the header byte of the first unit. -/
def ofH264Header? (header : UInt8) : Option Nat :=
  if header &&& 0x80 ≠ 0 then
    none
  else
    match H264.UnitType.ofHeader header with
    | .sps => some fullScore
    | .delimiter | .idrSlice => some headerScore
    | _ => none

/-- The score of HEVC by the two header bytes of the first unit. -/
def ofHevcHeader? (first second : UInt8) : Option Nat :=
  let header := Hevc.Header.ofBytes first second
  if first &&& 0x80 ≠ 0 ∨ header.layer ≠ 0 ∨ header.temporalPlusOne = 0 then
    none
  else if header.unitType.isParameterSet then
    some fullScore
  else if header.unitType.isRandomAccess || header.unitType = .delimiter then
    some headerScore
  else
    none

/-- The score of a format by the first bytes of a stream. -/
def ofBytes? (format : Format) (data : ByteArray) : Option Nat :=
  match format with
  | .mjpeg =>
    if (Image.startBytes ++ [0xff]).isPrefixOf (data.extract 0 3).data.toList then
      some fullScore
    else
      none
  | .nal coding => do
    let code ← StartCode.find? data
    let first ← data[code.nalOffset]?
    match coding with
    | .h264 => ofH264Header? first
    | .hevc => ofHevcHeader? first (← data[code.nalOffset + 1]?)

/-- The score of a format by the first bytes of a stream or, failing that, its path. -/
def score? (format : Format) (data : ByteArray) (path : Option String) : Option Nat :=
  ofBytes? format data <|> ofPath? format path

/-- The better of two results; of two equally good ones the earlier. -/
def better (best : Option Probe) (format : Format) (score : Option Nat) : Option Probe :=
  match score, best with
  | none, _ => best
  | some score, none => some ⟨format, score⟩
  | some score, some found => if found.score < score then some ⟨format, score⟩ else best

/-- The best result for some formats. -/
def best? (formats : List Format) (data : ByteArray) (path : Option String) : Option Probe :=
  formats.foldl (fun best format => better best format (score? format data path)) none

end Probe

/-- A splitter on offer: its format, the name it is listed under, and what making one comes to. -/
structure Catalog.Entry where
  format : Format
  name : String
  make : Except Fault Splitter

/-- The splitters on offer, one for each format, and the formats whose scores are compared. -/
structure Catalog where
  entries : List Catalog.Entry := []
  probes : List Format := []

namespace Catalog

def add (catalog : Catalog) (format : Format) (name : String) (make : Except Fault Splitter) :
    Catalog :=
  { catalog with
    entries := (catalog.entries.filter (·.format ≠ format)) ++ [{ format, name, make }] }

/-- The catalog with one more format to compare. -/
def addProbe (catalog : Catalog) (format : Format) : Catalog :=
  { catalog with probes := catalog.probes ++ [format] }

def addAll (catalog : Catalog) : Catalog :=
  Format.all.foldl
    (fun catalog format =>
      (catalog.add format format.name (.ok (Splitter.ofFormat format))).addProbe format)
    catalog

def standard : Catalog := ({} : Catalog).addAll

/-- The formats and names on offer, in the order of the names. -/
def listing (catalog : Catalog) : List (Format × String) :=
  (catalog.entries.map fun entry => (entry.format, entry.name)).mergeSort
    fun left right => left.2 ≤ right.2

def make (catalog : Catalog) (format : Format) : Except Fault Splitter :=
  match catalog.entries.find? (·.format = format) with
  | some entry => entry.make
  | none => .error (.noSplitter format)

/-- The best result for some bytes and a path. -/
def probe? (catalog : Catalog) (data : ByteArray) (path : Option String) : Option Probe :=
  Probe.best? catalog.probes data path

/-- The number of bytes that the format is told from. -/
def probeSize : Nat := 4096

/-- Tells the format of a stream from its first bytes and its path, without moving. -/
def recognise (catalog : Catalog) (path : Option String) : Reading.Action Probe := do
  let size := ((← get).cursor.size.map (min probeSize)).getD probeSize
  let bytes ← Reading.onCursor (Cursor.peekAt 0 size)
  match catalog.probe? bytes path with
  | some probe =>
    Reading.remark (.probed probe.format probe.score)
    return probe
  | none => throw .unrecognised

/-- Tells the format of a stream and makes the splitter for it. -/
def openSplitter (catalog : Catalog) (path : Option String) : Reading.Action Splitter := do
  let probe ← catalog.recognise path
  match catalog.make probe.format with
  | .ok splitter => return splitter
  | .error fault => throw fault

end Catalog

end FrameFeed
