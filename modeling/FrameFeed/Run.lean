import FrameFeed.Catalog
import FrameFeed.CommandLine
import FrameFeed.Disk
import FrameFeed.FeedBuffer
import FrameFeed.Report.Json
import FrameFeed.Report.Text

/-! A run of the program on a disk. The input is opened and its format told; then each frame is
read, fed through the buffer and, if asked for, written to a file of its own. The report comes when
every frame has been read. A failure ends the run; the files written before it stay. -/

namespace FrameFeed

open EStateM (Result)

/-- What ends a run early. -/
inductive Failure where
  | openInput (path : String) (fault : Fault)
  | unknownFormat (name : String)
  | probe (fault : Fault)
  | head (fault : Fault)
  | splitter (fault : Fault)
  | dumpFolder (path : String) (error : SystemError)
  | frame (index : Nat) (fault : Fault)
  /-- A frame does not fit and the buffer may not grow. -/
  | tooSmall (fault : Fault)
  | feed (span : Span) (fault : Fault)
  | feedGrown (span : Span) (fault : Fault)
  | dumpFile (path : String) (error : SystemError)
  deriving DecidableEq, Repr

/-- The wording of a failure, with that of its cause. -/
def Failure.message : Failure → String
  | openInput path fault => s!"无法打开文件 '{path}': {fault.chain}"
  | unknownFormat name => s!"未知格式 '{name}', 可选: h264 / hevc / mjpeg"
  | probe fault => s!"无法识别文件格式: {fault.chain}"
  | head fault => s!"读取文件头部失败: {fault.chain}"
  | splitter fault => fault.chain
  | dumpFolder path error => s!"创建输出目录失败: {path}: {error.message}"
  | frame index fault => s!"第 {index} 帧分帧失败: {fault.chain}"
  | tooSmall fault => s!"请使用 --buffer-size 增大缓冲区, 或加上 --auto-grow: {fault.chain}"
  | feed span fault => s!"写入帧 {span.text} 失败: {fault.chain}"
  | feedGrown span fault => s!"扩容后写入帧 {span.text} 失败: {fault.chain}"
  | dumpFile path error => s!"写入帧文件失败: {path}: {error.message}"

/-- What a run leaves behind. -/
structure Outcome where
  exitCode : Nat
  output : String
  /-- The lines for the error stream. -/
  complaints : List String
  /-- The remarks, without those that are not to be shown. -/
  notes : List Note
  disk : Disk

namespace Run

/-- A step that reads, with its faults as failures of the run. -/
def reading {α : Type} (failure : Fault → Failure) (step : Reading.Action α) :
    EStateM Failure Reading α := fun state =>
  match step state with
  | .ok value state => .ok value state
  | .error fault state => .error (failure fault) state

def remark (note : Note) : EStateM Failure Reading Unit :=
  modify fun state => { state with notes := state.notes.push note }

/-- The format that the options name or, failing that, the one that the stream speaks for, with its
score. -/
def chooseFormat (options : Options) : EStateM Failure Reading (Format × Option Nat) := do
  match options.format with
  | some name =>
    match Format.ofName? name with
    | some format => return (format, none)
    | none => throw (.unknownFormat name)
  | none =>
    let probe ← reading .probe (Catalog.standard.recognise options.input)
    return (probe.format, some probe.score)

/-- The number of bytes that are searched for a parameter set. -/
def searchSize : Nat := 64 * 1024

/-- The first parameter set of the stream; one that cannot be read is only remarked on. -/
def findSps : EStateM Failure Reading (Option Sps) := do
  let bytes ← reading .head (Reading.onCursor (Cursor.peekAt 0 searchSize))
  match Sps.find? bytes with
  | .error fault =>
    remark (.parameterSetUnreadable fault)
    return none
  | .ok none => return none
  | .ok (some sps) =>
    if let .reserved index := sps.aspect then
      remark (.reservedAspect index)
    return some sps

/-- The capacity that the options ask for or, failing that, one that suits the pictures. -/
def chooseCapacity (options : Options) (sps : Option Sps) : Nat :=
  match options.bufferSize, sps with
  | some size, _ => size
  | none, some sps => FeedBuffer.capacityFor sps.width sps.height
  | none, none => FeedBuffer.defaultCapacity

/-! ### Frames -/

/-- A run between two frames. -/
structure Job where
  reading : Reading
  splitter : Splitter
  buffer : FeedBuffer
  disk : Disk
  tally : Tally
  rows : Array FrameRow := #[]

/-- Feeds a frame through the buffer and tells whether the buffer had to grow for it. -/
def feed (autoGrow : Bool) (span : Span) (buffer : FeedBuffer) (reading : Reading) :
    Except Failure Bool × FeedBuffer × Reading :=
  match reading with
  | { cursor, notes } =>
    match FeedBuffer.fill span (buffer, cursor) with
    | .ok _ (buffer, cursor) => (.ok false, buffer, { cursor, notes })
    | .error (.needLargerBuffer required capacity) (buffer, cursor) =>
      if autoGrow then
        let notes := notes.push (.frameTooLarge span required capacity)
        let notes := if required ≤ capacity then notes
          else notes.push (.bufferGrown capacity required)
        match FeedBuffer.fill span (buffer.grow required, cursor) with
        | .ok _ (buffer, cursor) => (.ok true, buffer, { cursor, notes })
        | .error fault (buffer, cursor) =>
          (.error (.feedGrown span fault), buffer, { cursor, notes })
      else
        (.error (.tooSmall (.needLargerBuffer required capacity)), buffer, { cursor, notes })
    | .error fault (buffer, cursor) => (.error (.feed span fault), buffer, { cursor, notes })

def framePath (folder : String) (format : Format) (index : Nat) : String :=
  let number := Digits.padLeft '0' 5 (toString index)
  let extension := format.extensions.headD "bin"
  Disk.join folder s!"frame_{number}.{extension}"

/-- What is read from now on when the bytes of the input have been replaced. -/
def replaceInput (data : ByteArray) (reading : Reading) : Reading :=
  let source := reading.cursor.source
  { reading with
    cursor := { reading.cursor with
      source := { source with medium := { source.medium with data } } } }

/-- The totals with one more frame. -/
def Tally.count (tally : Tally) (size capacity : Nat) (grew wrapped : Bool) : Tally where
  frames := tally.frames + 1
  bytes := tally.bytes + size
  largest := max tally.largest size
  mode := tally.mode
  capacity := if grew then capacity else tally.capacity
  wraps := if wrapped then tally.wraps + 1 else tally.wraps
  grows := if grew then tally.grows + 1 else tally.grows

/-- Feeds a frame, writes it to its file if asked for, and counts it. -/
def takeFrame (options : Options) (format : Format) (span : Span) (job : Job) :
    Result Failure Job Unit :=
  match job with
  | { reading, splitter, buffer, disk, tally, rows } =>
    match feed options.autoGrow span buffer reading with
    | (.error failure, buffer, reading) =>
      .error failure { reading, splitter, buffer, disk, tally, rows }
    | (.ok grew, buffer, reading) =>
      let (tail, head) := buffer.segments
      let wrapped := head.size ≠ 0
      let row : FrameRow :=
        { index := tally.frames, offset := span.start, size := span.size
          bufferOffset := buffer.frameStart, address := buffer.frameAddress, wrapped }
      let rows := if options.showFrames then rows.push row else rows
      let counted := Tally.count tally span.size buffer.capacity grew wrapped
      match options.dumpFolder with
      | none => .ok () { reading, splitter, buffer, disk, tally := counted, rows }
      | some folder =>
        let path := framePath folder format tally.frames
        let frame := tail ++ head
        match disk.write path frame with
        | .error error =>
          .error (.dumpFile path error) { reading, splitter, buffer, disk, tally, rows }
        | .ok disk =>
          let reading :=
            if disk.samePlace path options.input then replaceInput frame reading else reading
          .ok () { reading, splitter, buffer, disk, tally := counted, rows }

/-- Takes frames until the stream ends, at most `limit` of them. -/
def takeFrames (options : Options) (format : Format) : (limit : Nat) → Job → Result Failure Job Unit
  | 0, job => .ok () job
  | limit + 1, job =>
    match job with
    | { reading, splitter, buffer, disk, tally, rows } =>
      match splitter.next false reading with
      | .error fault reading =>
        .error (.frame tally.frames fault) { reading, splitter, buffer, disk, tally, rows }
      | .ok (none, splitter) reading => .ok () { reading, splitter, buffer, disk, tally, rows }
      | .ok (some span, splitter) reading =>
        match takeFrame options format span { reading, splitter, buffer, disk, tally, rows } with
        | .error failure job => .error failure job
        | .ok _ job => takeFrames options format limit job

/-! ### The whole run -/

/-- What a run comes to apart from its log: a report or a failure, the remarks, and the disk. -/
structure Work where
  result : Except Failure Report
  notes : Array Note
  disk : Disk

/-- Works on an input that has been opened. Every frame has a byte, so that there are no more
frames than the input has bytes. -/
def workOn (options : Options) (medium : Medium) (notes : Array Note) (disk : Disk) : Work :=
  let start : Reading := { cursor := .ofMedium medium Cursor.defaultCapacity, notes }
  match chooseFormat options start with
  | .error failure reading => { result := .error failure, notes := reading.notes, disk }
  | .ok (format, score) reading =>
    let reading := { reading with notes := reading.notes.push (.formatChosen format score) }
    match (if format = .nal .h264 then findSps else pure none) reading with
    | .error failure reading => { result := .error failure, notes := reading.notes, disk }
    | .ok sps reading =>
      let capacity := chooseCapacity options sps
      let mode : FeedMode := if options.ring then .ring else .linear
      match Catalog.standard.make format with
      | .error fault => { result := .error (.splitter fault), notes := reading.notes, disk }
      | .ok splitter =>
        let made : Except Failure Disk := match options.dumpFolder with
          | none => .ok disk
          | some folder => (disk.createFolder folder).mapError (Failure.dumpFolder folder)
        match made with
        | .error failure => { result := .error failure, notes := reading.notes, disk }
        | .ok disk =>
          let job : Job :=
            { reading, splitter, buffer := .ofCapacity mode capacity 0, disk
              tally := { mode, capacity } }
          match takeFrames options format (medium.data.size + 1) job with
          | .error failure job =>
            { result := .error failure, notes := job.reading.notes, disk := job.disk }
          | .ok _ job =>
            let report : Report :=
              { path := options.input, format, score, fileSize := job.reading.cursor.size, sps
                tally := job.tally
                rows := if options.showFrames then some job.rows.toList else none }
            { result := .ok report
              notes := job.reading.notes.push (.finished job.tally.frames job.tally.bytes)
              disk := job.disk }

def work (options : Options) (disk : Disk) : Work :=
  let notes := #[.inputNamed options.input]
  match disk.medium options.input with
  | .error error =>
    { result := .error (.openInput options.input (.io (.system error))), notes, disk }
  | .ok medium => workOn options medium notes disk

/-- Runs the program on a disk. The folder for the log is made first; without it there is a
complaint and no log. -/
def run (options : Options) (disk : Disk) : Outcome :=
  let (logging, complaints, disk) := match disk.createFolder options.logFolder with
    | .ok disk => (true, [], disk)
    | .error error =>
      (false, [s!"警告: 创建日志目录失败: {options.logFolder}: {error.message}"], disk)
  let { result, notes, disk } := work options disk
  let shown (notes : Array Note) : List Note :=
    if logging then notes.toList.filter (Note.isShown (0 < options.verbosity)) else []
  match result with
  | .ok report =>
    { exitCode := 0, output := if options.json then report.json else report.text
      complaints, notes := shown notes, disk }
  | .error failure =>
    { exitCode := 1, output := ""
      complaints := complaints ++ [s!"错误: {failure.message}"]
      notes := shown (notes.push (.failed failure.message)), disk }

/-- Does what the arguments ask for. A misuse of the arguments has an exit code of its own. -/
def execute (command : Command) (disk : Disk) : Outcome :=
  match command with
  | .run options => run options disk
  | .showVersion =>
    { exitCode := 0, output := s!"{programName} {version}\n", complaints := [], notes := [], disk }
  | .showHelp =>
    { exitCode := 0, output := CommandLine.usage, complaints := [], notes := [], disk }
  | .misuse =>
    { exitCode := 2, output := "", complaints := [CommandLine.usage], notes := [], disk }

end Run

end FrameFeed
