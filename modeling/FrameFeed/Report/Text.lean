import FrameFeed.Digits
import FrameFeed.Report

/-! The report as text for people: sections between marks, then a line for each frame. -/

namespace FrameFeed.Report

def formatLines (report : Report) : List String :=
  ["[FORMAT]",
    s!"  文件名       : {report.path}",
    s!"  格式名称     : {report.format.name}"] ++
  (report.fileSize.toList.map fun size => s!"  文件大小     : {size} 字节") ++
  (report.score.toList.map fun score => s!"  探测置信度   : {score}") ++
  ["[/FORMAT]", ""]

def streamLines (sps : Sps) : List String :=
  ["[STREAM]",
    s!"  profile_idc  : {sps.profile}",
    s!"  level_idc    : {sps.level}",
    s!"  分辨率       : {sps.width}x{sps.height}",
    "  扫描方式     : " ++ if sps.framesOnly then "逐行" else "场编码"] ++
  (sps.ratioText?.toList.map fun ratio => s!"  SAR          : {ratio}") ++
  ["[/STREAM]", ""]

/-- The section on the totals; the number of bytes is also given in units of 1024. -/
def tallyLines (tally : Tally) : List String :=
  let kilobytes := Digits.hundredths tally.bytes 1024
  ["[FRAMES]",
    s!"  帧总数       : {tally.frames}",
    s!"  数据总量     : {tally.bytes} 字节 ({kilobytes} KB)",
    s!"  最大帧       : {tally.largest} 字节",
    s!"  缓冲区模式   : {tally.mode.name}",
    s!"  缓冲区容量   : {tally.capacity} 字节"] ++
  (if 0 < tally.wraps then [s!"  环形回绕次数 : {tally.wraps}"] else []) ++
  (if 0 < tally.grows then [s!"  扩容次数     : {tally.grows}"] else []) ++
  ["[/FRAMES]", ""]

/-- The line for a frame, in columns. -/
def rowLine (row : FrameRow) : String :=
  let column (width value : Nat) : String := Digits.padRight width (toString value)
  "frame #" ++ column 5 row.index ++ " offset=" ++ column 10 row.offset ++
    " size=" ++ column 8 row.size ++ " buf_off=" ++ column 8 row.bufferOffset ++
    " phys=0x" ++ Digits.hex row.address ++ if row.wrapped then " (wrap)" else ""

def text (report : Report) : String :=
  let lines := report.formatLines ++ report.sps.toList.flatMap streamLines ++
    tallyLines report.tally ++ (report.rows.getD []).map rowLine
  String.join (lines.map (· ++ "\n"))

end FrameFeed.Report
