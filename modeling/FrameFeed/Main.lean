import FrameFeed.Run

/-! The program. It looks at what lies at the paths of the command line, runs on that, and then
writes back what the run has put on the disk. -/

namespace FrameFeed.Program

/-- The refusal with a number, which some calls give with its sign turned. -/
def numbered (number : UInt32) (reason : String) : SystemError :=
  .ofNumber number.toInt32.toInt.natAbs reason

/-- The refusal in an exception. -/
def refusal : IO.Error → SystemError
  | .noFileOrDirectory _ number reason | .interrupted _ number reason => numbered number reason
  | .alreadyExists _ number reason | .invalidArgument _ number reason
  | .permissionDenied _ number reason | .resourceExhausted _ number reason
  | .inappropriateType _ number reason | .noSuchThing _ number reason => numbered number reason
  | .otherError number reason | .resourceBusy number reason | .resourceVanished number reason
  | .unsupportedOperation number reason | .hardwareFault number reason
  | .unsatisfiedConstraints number reason | .illegalOperation number reason
  | .protocolError number reason | .timeExpired number reason => numbered number reason
  | .unexpectedEof => .other 0 "unexpected end of file"
  | .userError reason => .other 0 reason

/-- A path to a place. -/
def pathTo (place : Disk.Place) : String := String.intercalate "/" place

/-- The paths that a path leads through, each with its place; the path itself is the last one. -/
def waypoints (path : String) : List (String × Disk.Place) :=
  let pieces := Disk.pieces path
  (List.range pieces.length).map fun index =>
    let leading := pieces.take (index + 1)
    (String.intercalate "/" leading, leading.foldl Disk.step (Disk.start path))

/-- The disk with what lies at a path; `whenRefused` is put there when the system does not tell. -/
def look (whenRefused : SystemError → Option Disk.Entry) (disk : Disk)
    (waypoint : String × Disk.Place) : IO Disk := do
  let (path, place) := waypoint
  try
    return disk.put place (.file (← IO.FS.readBinFile path))
  catch error =>
    match refusal error with
    | .noEntry | .notDirectory => return disk
    | .isDirectory => return disk.put place .folder
    | error => return ((whenRefused error).map (disk.put place)).getD disk

/-- The disk as far as the paths of the command line lead. Folders on the way to the input need
not be readable; whether those for the output can be made shows when they are. -/
def survey (options : Options) : IO Disk := do
  let folders := options.logFolder :: options.dumpFolder.toList
  let disk ← (folders.flatMap waypoints).foldlM (look fun _ => none) {}
  let input := waypoints options.input
  let disk ← input.dropLast.foldlM (look fun _ => some .folder) disk
  (input.drop (input.length - 1)).foldlM (look fun error => some (.closed error)) disk

/-- A place holds the same in two disks. -/
def isUnchanged (old new : Disk) (place : Disk.Place) : Bool :=
  match old.entry? place, new.entry? place with
  | some (.file oldData), some (.file newData) => oldData == newData
  | some .folder, some .folder => true
  | some (.closed _), some (.closed _) => true
  | _, _ => false

/-- Makes the folders and writes the files in which a disk differs from what it was; gives the
first place that the system refuses. -/
def writeBack (old new : Disk) : IO (Option (Disk.Place × SystemError)) := do
  for (place, entry) in new.entries.reverse do
    unless isUnchanged old new place do
      try
        match entry with
        | .folder => IO.FS.createDirAll (pathTo place)
        | .file data => IO.FS.writeBinFile (pathTo place) data
        | .closed _ => pure ()
      catch error =>
        return some (place, refusal error)
  return none

/-- Runs on a disk and writes back what the run has put there. A refusal by the system becomes part
of the disk, and the run is made again. -/
partial def settle (options : Options) (disk : Disk) : IO Outcome := do
  let outcome := Run.run options disk
  match ← writeBack disk outcome.disk with
  | none => return outcome
  | some (place, error) => settle options (disk.put place (.closed error))

/-- Writes a line for each remark to the error stream and into a file of the log folder. -/
def writeLog (folder : String) (notes : List Note) : IO Unit := do
  let lines := notes.map fun note => s!"{Digits.padRight 5 note.level.name} > {note.shownText}\n"
  lines.forM fun line => IO.eprint line
  unless lines.isEmpty do
    try
      IO.FS.writeFile (Disk.join folder s!"{programName}.log") (String.join lines)
    catch error =>
      IO.eprintln s!"警告: 创建日志文件失败: {(refusal error).message}"

end FrameFeed.Program

/-- Runs the program with the arguments of its command line. -/
def main (arguments : List String) : IO UInt32 := do
  let command := FrameFeed.CommandLine.parse arguments
  let outcome ← match command with
    | .run options =>
      let outcome ← FrameFeed.Program.settle options (← FrameFeed.Program.survey options)
      FrameFeed.Program.writeLog options.logFolder outcome.notes
      pure outcome
    | _ => pure (FrameFeed.Run.execute command {})
  IO.print outcome.output
  outcome.complaints.forM fun line => IO.eprintln line
  return outcome.exitCode.toUInt32
