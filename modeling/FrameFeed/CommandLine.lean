/-! The command line. Arguments are read from left to right, and the first one that decides ends
the reading: a request for the version or for help, or a misuse. An option that takes a value takes
it from its own argument or from the next one. Options that may come once must not come twice. -/

namespace FrameFeed

def programName : String := "esparse-probe"

def version : String := "0.1.0"

structure Options where
  input : String
  format : Option String := none
  bufferSize : Option Nat := none
  ring : Bool := false
  autoGrow : Bool := false
  json : Bool := false
  showFrames : Bool := false
  dumpFolder : Option String := none
  logFolder : String := "logs"
  verbosity : Nat := 0
  deriving DecidableEq, Repr

inductive Command where
  | run (options : Options)
  | showVersion
  | showHelp
  /-- The arguments cannot be understood. -/
  | misuse
  deriving DecidableEq, Repr

namespace CommandLine

/-- The options that take a value. -/
inductive Setting where
  | format
  | bufferSize
  | dumpFolder
  | logFolder
  deriving DecidableEq, Repr

/-- The options that take none. -/
inductive Switch where
  | ring
  | autoGrow
  | json
  | showFrames
  | verbose
  | version
  | help
  deriving DecidableEq, Repr

/-- An option with or without a value. -/
inductive OptionKind where
  | setting (setting : Setting)
  | switch (switch : Switch)
  deriving DecidableEq, Repr

/-- The option with a long name. -/
def ofName? : String → Option OptionKind
  | "format" => some (.setting .format)
  | "buffer-size" => some (.setting .bufferSize)
  | "dump-dir" => some (.setting .dumpFolder)
  | "log-dir" => some (.setting .logFolder)
  | "ring" => some (.switch .ring)
  | "auto-grow" => some (.switch .autoGrow)
  | "json" => some (.switch .json)
  | "show-frames" => some (.switch .showFrames)
  | "verbose" => some (.switch .verbose)
  | "version" => some (.switch .version)
  | "help" => some (.switch .help)
  | _ => none

/-- The option with a letter. -/
def ofLetter? : Char → Option OptionKind
  | 'f' => some (.setting .format)
  | 'v' => some (.switch .verbose)
  | 'V' => some (.switch .version)
  | 'h' => some (.switch .help)
  | _ => none

/-- What the arguments so far have set; nothing is set twice. -/
structure Draft where
  input : Option String := none
  format : Option String := none
  bufferSize : Option Nat := none
  ring : Bool := false
  autoGrow : Bool := false
  json : Bool := false
  showFrames : Bool := false
  dumpFolder : Option String := none
  logFolder : Option String := none
  verbosity : Nat := 0
  deriving DecidableEq, Repr

inductive Progress where
  | goOn (draft : Draft)
  /-- The next argument is the value of a setting. -/
  | await (setting : Setting) (draft : Draft)
  | decided (command : Command)
  deriving DecidableEq, Repr

/-- The number that a text of decimal digits writes, after a plus sign or none, below `2 ^ 64`. -/
def readSize? (text : String) : Option Nat :=
  let digits := match text.toList with
    | '+' :: digits => digits
    | digits => digits
  if digits.isEmpty || !digits.all Char.isDigit then
    none
  else
    let value := digits.foldl (fun value digit => 10 * value + (digit.toNat - '0'.toNat)) 0
    if value < 0x1_0000_0000_0000_0000 then some value else none

/-- Sets a value that is not set yet. -/
def Draft.set (draft : Draft) (setting : Setting) (value : String) : Progress :=
  let result : Option Draft := match setting with
    | .format => if draft.format.isSome then none else some { draft with format := value }
    | .bufferSize =>
      if draft.bufferSize.isSome then none
      else (readSize? value).map fun size => { draft with bufferSize := size }
    | .dumpFolder =>
      if draft.dumpFolder.isSome || value.isEmpty then none
      else some { draft with dumpFolder := value }
    | .logFolder =>
      if draft.logFolder.isSome || value.isEmpty then none
      else some { draft with logFolder := value }
  match result with
  | some draft => .goOn draft
  | none => .decided .misuse

def Draft.take (draft : Draft) (path : String) : Progress :=
  if draft.input.isSome || path.isEmpty then .decided .misuse
  else .goOn { draft with input := path }

/-- Turns on a switch; only the one for more remarks may be turned on again. -/
def Draft.turnOn (draft : Draft) (switch : Switch) : Progress :=
  match switch with
  | .ring => if draft.ring then .decided .misuse else .goOn { draft with ring := true }
  | .autoGrow => if draft.autoGrow then .decided .misuse else .goOn { draft with autoGrow := true }
  | .json => if draft.json then .decided .misuse else .goOn { draft with json := true }
  | .showFrames =>
    if draft.showFrames then .decided .misuse else .goOn { draft with showFrames := true }
  | .verbose => .goOn { draft with verbosity := draft.verbosity + 1 }
  | .version => .decided .showVersion
  | .help => .decided .showHelp

/-- Reads a long option, with its value if one is attached. -/
def Draft.long (draft : Draft) (text : List Char) : Progress :=
  let name := text.takeWhile (· != '=')
  let attached : Option String := match text.dropWhile (· != '=') with
    | [] => none
    | _ :: value => some (String.ofList value)
  match ofName? (String.ofList name), attached with
  | some (.setting setting), some value => draft.set setting value
  | some (.setting setting), none => .await setting draft
  | some (.switch switch), none => draft.turnOn switch
  | some (.switch _), some _ => .decided .misuse
  | none, _ => .decided .misuse

/-- Reads a row of letters; a setting among them takes what follows as its value. -/
def Draft.letters (draft : Draft) : List Char → Progress
  | [] => .goOn draft
  | letter :: rest =>
    match ofLetter? letter with
    | none => .decided .misuse
    | some (.setting setting) =>
      match rest with
      | [] => .await setting draft
      | '=' :: value => draft.set setting (String.ofList value)
      | value => draft.set setting (String.ofList value)
    | some (.switch switch) =>
      match draft.turnOn switch with
      | .goOn draft => draft.letters rest
      | progress => progress

/-- Reads one argument that is not the value of the one before it. -/
def Draft.argument (draft : Draft) (text : String) : Progress :=
  match text.toList with
  | '-' :: '-' :: long => draft.long long
  | '-' :: letter :: letters => draft.letters (letter :: letters)
  | _ => draft.take text

/-- An argument that cannot be the value of the one before it. -/
def looksLikeOption (text : String) : Bool := text.toList.head? = some '-' && text ≠ "-"

/-- The command when no argument is left; a run needs an input. -/
def Draft.command (draft : Draft) : Command :=
  match draft.input with
  | none => .misuse
  | some input =>
    .run { input, format := draft.format, bufferSize := draft.bufferSize, ring := draft.ring
           autoGrow := draft.autoGrow, json := draft.json, showFrames := draft.showFrames
           dumpFolder := draft.dumpFolder, logFolder := draft.logFolder.getD "logs"
           verbosity := draft.verbosity }

/-- Reads the arguments that follow two dashes, all of them inputs. -/
def parseInputs : List String → Draft → Command
  | [], draft => draft.command
  | path :: rest, draft =>
    match draft.take path with
    | .goOn draft => parseInputs rest draft
    | .await _ _ => .misuse
    | .decided command => command

/-- Reads arguments; the first one is the value of a setting if one awaits it. -/
def parseFrom : Option Setting → List String → Draft → Command
  | none, [], draft => draft.command
  | some _, [], _ => .misuse
  | none, argument :: rest, draft =>
    if argument = "--" then
      parseInputs rest draft
    else
      match draft.argument argument with
      | .goOn draft => parseFrom none rest draft
      | .await setting draft => parseFrom (some setting) rest draft
      | .decided command => command
  | some setting, value :: rest, draft =>
    if looksLikeOption value then
      .misuse
    else
      match draft.set setting value with
      | .goOn draft => parseFrom none rest draft
      | .await _ _ => .misuse
      | .decided command => command

def parse (arguments : List String) : Command := parseFrom none arguments {}

def usage : String :=
  String.intercalate "\n" [
    "H.264/H.265/MJPEG 裸流分帧探测工具",
    "",
    "Usage: " ++ programName ++ " [OPTIONS] <INPUT>",
    "",
    "Arguments:",
    "  <INPUT>  输入文件路径",
    "",
    "Options:",
    "  -f, --format <FORMAT>            强制指定格式 (h264 / hevc / mjpeg), 默认自动探测",
    "      --buffer-size <BUFFER_SIZE>  送流缓冲区容量 (字节), 默认根据分辨率选择",
    "      --ring                       使用环形缓冲区模式",
    "      --auto-grow                  帧超过缓冲区容量时自动扩容并重试",
    "      --json                       输出 JSON 格式",
    "      --show-frames                列出每一帧的信息",
    "      --dump-dir <DUMP_DIR>        把每一帧保存到该目录 (frame_<n>.<ext>)",
    "      --log-dir <LOG_DIR>          日志目录 [default: logs]",
    "  -v, --verbose...                 日志详细程度 (-v / -vv)",
    "  -h, --help                       Print help",
    "  -V, --version                    Print version",
    ""]

end CommandLine

end FrameFeed
