import FrameFeed.Digits
import FrameFeed.Report

/-! The report as JSON, each member on a line of its own and set in by two blanks for each level. A
member that has nothing to say is left out. -/

namespace FrameFeed

/-- A JSON value as far as reports need it. -/
inductive JsonValue where
  | number (value : Nat)
  | flag (value : Bool)
  | text (value : String)
  | list (items : List JsonValue)
  | object (members : List (String × JsonValue))

namespace JsonValue

/-- A character inside a quoted text. -/
def escape (char : Char) : String :=
  if char = '"' then "\\\""
  else if char = '\\' then "\\\\"
  else if char = '\n' then "\\n"
  else if char = '\r' then "\\r"
  else if char = '\t' then "\\t"
  else if char = '\x08' then "\\b"
  else if char = '\x0c' then "\\f"
  else if char.toNat < 32 then
    "\\u" ++ Digits.padLeft '0' 4 (Digits.smallHex char.toNat)
  else char.toString

def quote (text : String) : String :=
  "\"" ++ String.join (text.toList.map escape) ++ "\""

/-- The blanks before a line of a level. -/
def indent (level : Nat) : String := String.ofList (List.replicate (2 * level) ' ')

/-- Lines of a level between two brackets, with commas between them. -/
def enclose (level : Nat) (left right : String) (lines : List String) : String :=
  if lines.isEmpty then left ++ right
  else
    left ++ "\n" ++ String.intercalate ",\n" (lines.map (indent (level + 1) ++ ·)) ++ "\n" ++
      indent level ++ right

mutual

/-- The value as text whose later lines are set in by a level. -/
def render (level : Nat) : JsonValue → String
  | number value => toString value
  | flag value => if value then "true" else "false"
  | text value => quote value
  | list items => enclose level "[" "]" (renderItems (level + 1) items)
  | object members => enclose level "\x7b" "\x7d" (renderMembers (level + 1) members)

/-- The items of a list as texts. -/
def renderItems (level : Nat) : List JsonValue → List String
  | [] => []
  | item :: rest => render level item :: renderItems level rest

/-- The members of an object as texts. -/
def renderMembers (level : Nat) : List (String × JsonValue) → List String
  | [] => []
  | (name, value) :: rest =>
    (quote name ++ ": " ++ render level value) :: renderMembers level rest

end

/-- A member that is there only with a value. -/
def optional {α : Type} (name : String) (value : Option α) (ofValue : α → JsonValue) :
    List (String × JsonValue) :=
  value.toList.map fun value => (name, ofValue value)

end JsonValue

namespace Report

open JsonValue

def formatJson (report : Report) : JsonValue :=
  .object <|
    [("filename", .text report.path), ("format_name", .text report.format.name)] ++
    optional "probe_score" report.score .number ++
    optional "file_size" report.fileSize .number

def streamJson (sps : Sps) : JsonValue :=
  .object <|
    [("profile_idc", .number sps.profile), ("level_idc", .number sps.level),
      ("width", .number sps.width), ("height", .number sps.height),
      ("frame_mbs_only", .flag sps.framesOnly)] ++
    optional "sample_aspect_ratio" sps.ratioText? .text

def tallyJson (tally : Tally) : JsonValue :=
  .object
    [("total_frames", .number tally.frames), ("total_bytes", .number tally.bytes),
      ("max_frame_size", .number tally.largest), ("buffer_mode", .text tally.mode.name),
      ("buffer_capacity", .number tally.capacity), ("ring_wraps", .number tally.wraps),
      ("buffer_grows", .number tally.grows)]

def rowJson (row : FrameRow) : JsonValue :=
  .object
    [("index", .number row.index), ("offset", .number row.offset), ("size", .number row.size),
      ("buffer_offset", .number row.bufferOffset), ("phys_addr", .number row.address),
      ("wrapped", .flag row.wrapped)]

def toJson (report : Report) : JsonValue :=
  .object <|
    [("format", report.formatJson)] ++ optional "stream" report.sps streamJson ++
    [("summary", tallyJson report.tally)] ++
    optional "frames" report.rows fun rows => .list (rows.map rowJson)

def json (report : Report) : String := report.toJson.render 0 ++ "\n"

end Report

end FrameFeed
