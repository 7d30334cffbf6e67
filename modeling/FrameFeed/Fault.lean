import FrameFeed.Digits
import FrameFeed.Format

/-! What can go wrong. A `Fault` names its cause together with the values that the cause is about.
Every cause belongs to one `Fault.Kind`, which tells a caller what to do next, and has one wording,
`Fault.message`. The end of a stream that falls between two frames is no fault. -/

namespace FrameFeed

/-- A refusal by the operating system. -/
inductive SystemError where
  | noEntry
  | permissionDenied
  | alreadyExists
  | notDirectory
  | isDirectory
  | invalidArgument
  | nameTooLong
  | other (number : Nat) (reason : String)
  deriving DecidableEq, Repr

namespace SystemError

/-- The number by which the system knows the refusal. -/
def number : SystemError → Nat
  | noEntry => 2
  | permissionDenied => 13
  | alreadyExists => 17
  | notDirectory => 20
  | isDirectory => 21
  | invalidArgument => 22
  | nameTooLong => 36
  | other number _ => number

/-- The system's own words. -/
def reason : SystemError → String
  | noEntry => "No such file or directory"
  | permissionDenied => "Permission denied"
  | alreadyExists => "File exists"
  | notDirectory => "Not a directory"
  | isDirectory => "Is a directory"
  | invalidArgument => "Invalid argument"
  | nameTooLong => "File name too long"
  | other _ reason => reason

/-- The refusal with a number; `reason` gives the words for one that has no name here. -/
def ofNumber (number : Nat) (reason : String) : SystemError :=
  match number with
  | 2 => noEntry
  | 13 => permissionDenied
  | 17 => alreadyExists
  | 20 => notDirectory
  | 21 => isDirectory
  | 22 => invalidArgument
  | 36 => nameTooLong
  | number => other number reason

/-- The words and the number together. -/
def message (error : SystemError) : String :=
  s!"{error.reason} (os error {error.number})"

end SystemError

/-- A source of bytes that did not do what was asked of it. -/
inductive IoFault where
  /-- A seek to an offset before the first byte. -/
  | negativeSeek
  /-- A frame's span holds fewer bytes than it should. -/
  | shortFeed (wanted got : Nat)
  | system (error : SystemError)
  /-- The source failed for a reason of its own. -/
  | device (reason : String)
  deriving DecidableEq, Repr

namespace IoFault

/-- The classes of failure that a caller can tell apart. -/
inductive Kind where
  | unexpectedEnd
  | invalidInput
  | notFound
  | other
  deriving DecidableEq, Repr

/-- The class of a failure. -/
def kind : IoFault → Kind
  | negativeSeek => .invalidInput
  | shortFeed _ _ => .unexpectedEnd
  | system .noEntry => .notFound
  | system .invalidArgument => .invalidInput
  | system _ => .other
  | device _ => .other

/-- The wording of a failure. -/
def message : IoFault → String
  | negativeSeek => "seek 位置不能为负"
  | shortFeed wanted got => s!"送流数据不足: 需要 {wanted} 字节, 实际读取 {got} 字节"
  | system error => error.message
  | device reason => reason

end IoFault

/-- A size field of a sequence parameter set. -/
inductive SizeField where
  | width
  | height
  | cropAcross
  | cropDown
  deriving DecidableEq, Repr

/-- The field's name in the syntax of the coding standard. -/
def SizeField.name : SizeField → String
  | width => "pic_width_in_mbs"
  | height => "pic_height_in_map_units"
  | cropAcross => "frame_crop_left/right"
  | cropDown => "frame_crop_top/bottom"

namespace Fault

/-- The kinds of fault that a caller can tell apart. -/
inductive Kind where
  | invalidArgument
  | unsupported
  | io
  | endOfStream
  | invalidData
  | needLargerBuffer
  | cancelled
  | formatNotFound
  deriving DecidableEq, Repr

/-- The kinds whose wording is free. -/
inductive WordedKind where
  | invalidArgument
  | unsupported
  | invalidData
  | formatNotFound
  deriving DecidableEq, Repr

/-- A kind with free wording as a kind. -/
def WordedKind.kind : WordedKind → Kind
  | invalidArgument => .invalidArgument
  | unsupported => .unsupported
  | invalidData => .invalidData
  | formatNotFound => .formatNotFound

end Fault

/-- The cause of a failed call. -/
inductive Fault where
  /-- More bits were asked for at once than a word holds. -/
  | bitCount (count : Nat)
  /-- A reader of NAL units was asked for in a format that has none. -/
  | notNalCoding (format : Format)
  /-- A NAL unit was to be classified in a format that has none. -/
  | noNalUnits (format : Format)
  | io (cause : IoFault)
  /-- The data ended inside a value. -/
  | endOfStream
  /-- A variable-length code has too many leading zeros. -/
  | codeTooLong
  | spsTooShort (size : Nat)
  | chromaFormat (value : Nat)
  | orderCountCycle (value : Nat)
  | sizeOverflow (field : SizeField)
  /-- Cropping leaves no picture. -/
  | cropTooLarge (cropWidth cropHeight width height : Nat)
  /-- An HEVC header needs two bytes. -/
  | headerTooShort
  | headerUnreadable (offset : Nat) (cause : Fault)
  /-- The stream ends inside the header of a NAL unit. -/
  | headerCut (coding : NalCoding) (offset : Nat)
  | noStartCode (coding : NalCoding) (remaining offset : Nat)
  /-- An image has no end marker. -/
  | noImageEnd (start : Nat)
  /-- The stream ends inside a marker segment. -/
  | segmentCut (marker : UInt8) (offset : Nat)
  /-- A marker segment is too short to hold its own length. -/
  | segmentLength (marker : UInt8) (length offset : Nat)
  /-- A frame does not fit; it will after growing to `required` bytes. -/
  | needLargerBuffer (required capacity : Nat)
  | cancelled
  /-- No reader of frames is listed for a format. -/
  | noSplitter (format : Format)
  /-- Neither the first bytes nor the name of the input tell its format. -/
  | unrecognised
  /-- A cause known only by its wording. -/
  | worded (kind : Fault.WordedKind) (text : String)
  deriving DecidableEq, Repr

namespace Fault

/-- The kind that a cause belongs to. -/
def kind : Fault → Kind
  | bitCount _ | notNalCoding _ => .invalidArgument
  | noNalUnits _ => .unsupported
  | io _ => .io
  | endOfStream => .endOfStream
  | codeTooLong | spsTooShort _ | chromaFormat _ | orderCountCycle _ | sizeOverflow _
  | cropTooLarge _ _ _ _ | headerTooShort | headerUnreadable _ _ | headerCut _ _
  | noStartCode _ _ _ | noImageEnd _ | segmentCut _ _ | segmentLength _ _ _ => .invalidData
  | needLargerBuffer _ _ => .needLargerBuffer
  | cancelled => .cancelled
  | noSplitter _ | unrecognised => .formatNotFound
  | worded kind _ => kind.kind

/-- Growing the buffer and asking again can succeed. -/
def isRetryable (fault : Fault) : Bool := fault.kind == .needLargerBuffer

/-- The stream breaks the rules of its format. -/
def isDataFault (fault : Fault) : Bool := fault.kind == .invalidData

/-- The two hexadecimal digits of a marker code. -/
def markerText (marker : UInt8) : String := Digits.padLeft '0' 2 (Digits.hex marker.toNat)

/-- The words that go before the details of a fault of a kind with details. -/
def Kind.heading : Kind → String
  | invalidArgument => "无效参数: "
  | unsupported => "不支持的操作: "
  | io => "I/O 错误: "
  | invalidData => "无效数据: "
  | formatNotFound => "未找到格式: "
  | endOfStream | needLargerBuffer | cancelled => ""

/-- The wording of a fault: its kind's heading, then the details. -/
def message (fault : Fault) : String :=
  fault.kind.heading ++ match fault with
    | bitCount count => s!"read_bits: n={count} 超过 32 位"
    | notNalCoding format => s!"Annex B 分帧器不支持 {format.name}"
    | noNalUnits format => s!"{format.name} 不是 Annex B 编码"
    | io cause => cause.message
    | endOfStream => "已到达流末尾"
    | codeTooLong => "Exp-Golomb 前导零过多"
    | spsTooShort size => s!"H.264: SPS 数据太短, len={size}"
    | chromaFormat value => s!"H.264: chroma_format_idc 非法, value={value}"
    | orderCountCycle value =>
      s!"H.264: num_ref_frames_in_pic_order_cnt_cycle 非法, value={value}"
    | sizeOverflow field => s!"H.264: SPS {field.name} 数值溢出"
    | cropTooLarge cropWidth cropHeight width height =>
      s!"H.264: SPS cropping 超出图像范围, crop={cropWidth}x{cropHeight}, " ++
        s!"coded={width}x{height}"
    | headerTooShort => "HEVC: NAL 头部不足 2 字节"
    | headerUnreadable offset cause => s!"读取 NAL 头部失败, offset={offset}: {cause.message}"
    | headerCut coding offset => s!"{coding.name}: NAL 头部被文件末尾截断, offset={offset}"
    | noStartCode coding remaining offset =>
      s!"{coding.name}: 剩余 {remaining} 字节中未找到起始码, offset={offset}"
    | noImageEnd start => s!"JPEG: 从 offset={start} 到文件末尾没有找到 EOI"
    | segmentCut marker offset =>
      s!"JPEG: 标记 {markerText marker} 的段越过文件末尾, offset={offset}"
    | segmentLength marker length offset =>
      s!"JPEG: 标记 {markerText marker} 的段长度非法, length={length}, offset={offset}"
    | needLargerBuffer required capacity =>
      s!"缓冲区容量不足: 需要 {required} 字节, 当前容量 {capacity} 字节"
    | cancelled => "操作已取消"
    | noSplitter format => s!"未找到 {format.name} 的分帧器"
    | unrecognised => "无法识别输入文件格式"
    | worded _ text => text

/-- The wording of a fault followed by that of the failure under it, if there is one. -/
def chain (fault : Fault) : String :=
  match fault with
  | io cause => s!"{fault.message}: {cause.message}"
  | _ => fault.message

end Fault

end FrameFeed
