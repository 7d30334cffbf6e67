import FrameFeed.Digits
import FrameFeed.Fault
import FrameFeed.Span

/-! Remarks made while a stream is read and fed. Each remark has a level and a wording; a reader of
the remarks chooses how deep to look. -/

namespace FrameFeed

/-- A remark about the stream or about what was done with it. -/
inductive Note where
  | inputNamed (path : String)
  | probed (format : Format) (score : Nat)
  | formatChosen (format : Format) (score : Option Nat)
  /-- Bytes that lie before the first start code belong to no unit. -/
  | bytesSkipped (coding : NalCoding) (count offset : Nat)
  | headerCut (coding : NalCoding) (offset : Nat)
  | unitRead (coding : NalCoding) (number : Nat) (span : Span)
  | noImageStart (offset : Nat)
  | imageRead (number : Nat) (span : Span)
  | reservedAspect (index : Nat)
  | parameterSetUnreadable (fault : Fault)
  | frameTooLarge (span : Span) (required capacity : Nat)
  | bufferGrown (before after : Nat)
  | finished (frames bytes : Nat)
  | failed (text : String)
  deriving DecidableEq, Repr

namespace Note

/-- How important a remark is. -/
inductive Level where
  | error
  | warning
  | info
  | debug
  deriving DecidableEq, Repr

def Level.name : Level → String
  | error => "ERROR"
  | warning => "WARN"
  | info => "INFO"
  | debug => "DEBUG"

def level : Note → Level
  | failed _ => .error
  | bytesSkipped _ _ _ | headerCut _ _ | noImageStart _ | parameterSetUnreadable _
  | frameTooLarge _ _ _ => .warning
  | inputNamed _ | formatChosen _ _ | bufferGrown _ _ | finished _ _ => .info
  | probed _ _ | unitRead _ _ _ | imageRead _ _ | reservedAspect _ => .debug

/-- A score, or the lack of one, as log lines show it. -/
def scoreText : Option Nat → String
  | none => "None"
  | some score => s!"Some({score})"

def text : Note → String
  | inputNamed path => s!"输入文件: {path}"
  | probed format score => s!"探测结果: format={format.name}, score={score}"
  | formatChosen format score => s!"格式: {format.name} (置信度: {scoreText score})"
  | bytesSkipped coding count offset =>
    s!"{coding.name}: 跳过起始码前的 {count} 字节无效数据, offset={offset}"
  | headerCut coding offset =>
    s!"{coding.name}: NAL 头部被文件末尾截断, offset={offset}, 单元在文件末尾结束"
  | unitRead coding number span =>
    s!"{coding.name}: 访问单元 #{number}, range={span.text}, size={span.size}"
  | noImageStart offset => s!"JPEG: offset={offset} 处不是 SOI 标记, 继续扫描"
  | imageRead number span => s!"JPEG: 帧 #{number}, range={span.text}, size={span.size}"
  | reservedAspect index => s!"H.264: aspect_ratio_idc 超出范围, value={index}"
  | parameterSetUnreadable fault => s!"SPS 解析失败: {fault.message}"
  | frameTooLarge span required capacity =>
    s!"帧 {span.text} 需要 {required} 字节, 超过缓冲区容量 {capacity} 字节, 自动扩容"
  | bufferGrown before after => s!"送流缓冲区扩容: {before} -> {after} 字节"
  | finished frames bytes => s!"分帧完成: {frames} 帧, {bytes} 字节"
  | failed text => text

/-! ### Log lines -/

/-- The control characters below 128 that can steer a terminal: escape, bell, backspace, form feed
and delete. -/
def steering : List Char := ['\x1b', '\x07', '\x08', '\x0c', '\x7f']

/-- A character as log lines show it: one that can steer a terminal is spelled out. All control
characters from 128 to 159 can. -/
def shownChar (char : Char) : String :=
  if steering.contains char then
    "\\x" ++ Digits.padLeft '0' 2 (Digits.smallHex char.toNat)
  else if 0x80 ≤ char.toNat && char.toNat ≤ 0x9f then
    "\\u\x7b" ++ Digits.smallHex char.toNat ++ "\x7d"
  else
    char.toString

/-- The wording of a remark as log lines show it. -/
def shownText (note : Note) : String := String.join (note.text.toList.map shownChar)

/-- The remark is shown; only a talkative run shows those of the lowest level. -/
def isShown (talkative : Bool) (note : Note) : Bool := talkative || note.level != .debug

end Note

end FrameFeed
