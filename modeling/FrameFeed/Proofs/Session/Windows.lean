import FrameFeed.Proofs.AccessUnit.Frames
import FrameFeed.Proofs.Session.Blind

/-! What a caller sees does not depend on windows. A session is a stream being read and a buffer
that it is fed through. Two sessions over the same data at one offset give the same answers to any
operations, and where one of them looks ahead in between, the other cannot tell. -/

namespace FrameFeed

open EStateM (Result)

/-- A stream being read and the buffer that it is fed through. -/
structure Session where
  reading : Reading
  buffer : FeedBuffer

namespace Session

/-- What a caller can ask for. -/
inductive Operation where
  | scan
  | classify (format : Format) (offset : Nat)
  | peek (offset wanted : Nat)
  | next (splitter : Splitter) (cancelled : Bool)
  | recognise (catalog : Catalog) (path : Option String)
  | fill (span : Span)

/-- What an operation gives. A frame comes with the splitter that has counted it. -/
inductive Answer where
  | code (code? : Option StartCode)
  | unitClass (unitClass : NalClass)
  | bytes (bytes : ByteArray)
  | frame (span? : Option Span) (splitter : Splitter)
  | probe (probe : Probe)
  | number (number : Nat)

/-- A step of the stream as a step of the session. -/
def onReading {Value : Type} (step : Reading.Action Value) : EStateM Fault Session Value :=
  fun session =>
    match step session.reading with
    | .ok value reading => .ok value { session with reading }
    | .error fault reading => .error fault { session with reading }

/-- A step of the buffer and the cursor as a step of the session. -/
def onBuffer {Value : Type} (step : EStateM Fault (FeedBuffer × Cursor) Value) :
    EStateM Fault Session Value :=
  fun session =>
    match step (session.buffer, session.reading.cursor) with
    | .ok value (buffer, cursor) =>
      .ok value { reading := { session.reading with cursor }, buffer }
    | .error fault (buffer, cursor) =>
      .error fault { reading := { session.reading with cursor }, buffer }

/-- An operation as a step of the session. -/
def Operation.step : Operation → EStateM Fault Session Answer
  | scan => return .code (← onReading (Reading.onCursor StartCode.scan))
  | classify format offset =>
    return .unitClass (← onReading (Reading.onCursor (NalClass.peek format offset)))
  | peek offset wanted =>
    return .bytes (← onReading (Reading.onCursor (Cursor.peekAt offset wanted)))
  | next splitter cancelled => do
    let (span?, splitter) ← onReading (splitter.next cancelled)
    return .frame span? splitter
  | recognise catalog path => return .probe (← onReading (catalog.recognise path))
  | fill span => return .number (← onBuffer (FeedBuffer.fill span))

/-- What an operation has come to: its result, the position after it, and the buffer after it. -/
structure Record where
  result : Except Fault Answer
  position : Nat
  buffer : FeedBuffer

def record (session : Session) (operation : Operation) : Record where
  result := resultOf (operation.step session)
  position := (stateOf (operation.step session)).reading.cursor.position
  buffer := (stateOf (operation.step session)).buffer

/-- The records of operations one after another. One that fails does not end the sequence. -/
def trace (session : Session) : List Operation → List Record
  | [] => []
  | operation :: rest =>
    session.record operation :: trace (stateOf (operation.step session)) rest

/-- The session after operations. -/
def after (session : Session) : List Operation → Session
  | [] => session
  | operation :: rest => after (stateOf (operation.step session)) rest

/-- The operation looks at the stream without moving. -/
def Operation.IsLook : Operation → Prop
  | classify _ _ => True
  | peek _ _ => True
  | recognise _ _ => True
  | _ => False

/-- The places that an operation goes to or looks at lie within reach. -/
def Operation.Within (medium : Medium) (reach : Nat) : Operation → Prop
  | classify _ offset => offset ≤ reach
  | peek offset _ => offset ≤ reach
  | next splitter _ => splitter.method = .images → medium.Roomy reach
  | fill span => span.start ≤ reach
  | _ => True

variable {medium medium' : Medium} {reach offset : Nat}

/-! ### One operation -/

/-- Sessions whose cursors stand at one offset and whose buffers are equal. -/
def Alike (medium medium' : Medium) (reach : Nat) (left right : Session) : Prop :=
  Reading.Alike medium medium' reach left.reading right.reading ∧ left.buffer = right.buffer

theorem blind_onReading {Value : Type} {step : Reading.Action Value}
    (h : Blind (Reading.Alike medium medium' reach) step) :
    Blind (Alike medium medium' reach) (onReading step) := by
  rintro left right ⟨hAlike, hBuffer⟩
  have hStep := h left.reading right.reading hAlike
  simp only [onReading]
  revert hStep
  cases step left.reading <;> cases step right.reading <;>
    rintro ⟨⟨⟩, hAfter⟩ <;> exact ⟨rfl, hAfter, hBuffer⟩

theorem blind_onBuffer {Value : Type} {step : EStateM Fault (FeedBuffer × Cursor) Value}
    (h : Blind (FeedBuffer.Alike medium medium' reach) step) :
    Blind (Alike medium medium' reach) (onBuffer step) := by
  rintro left right ⟨hAlike, hBuffer⟩
  have hStep := h (left.buffer, left.reading.cursor) (right.buffer, right.reading.cursor)
    ⟨hBuffer, hAlike⟩
  simp only [onBuffer]
  revert hStep
  rcases step (left.buffer, left.reading.cursor) with ⟨_, _, _⟩ | ⟨_, _, _⟩ <;>
    rcases step (right.buffer, right.reading.cursor) with ⟨_, _, _⟩ | ⟨_, _, _⟩ <;>
    rintro ⟨⟨⟩, ⟨⟩, hAfter⟩ <;> exact ⟨rfl, hAfter, rfl⟩

theorem blind_step (hMedia : medium.Alike medium') {operation : Operation}
    (hWithin : operation.Within medium reach) :
    Blind (Alike medium medium' reach) operation.step := by
  cases operation with
  | scan => exact (blind_onReading (Reading.blind_onCursor (StartCode.blind_scan hMedia))).map _
  | classify format target =>
    exact (blind_onReading
      (Reading.blind_onCursor (NalClass.blind_peek hMedia format hWithin))).map _
  | peek target wanted =>
    exact (blind_onReading
      (Reading.blind_onCursor (Cursor.blind_peekAt hMedia hWithin wanted))).map _
  | next splitter cancelled =>
    exact (blind_onReading (splitter.blind_next hMedia cancelled hWithin)).bind
      fun _ => blind_pure _
  | recognise catalog path =>
    exact (blind_onReading (catalog.blind_recognise hMedia path)).map _
  | fill span => exact (blind_onBuffer (FeedBuffer.blind_fill hMedia hWithin)).map _

/-! ### Looking ahead -/

/-- The session stands at an offset of its medium, with a buffer in hand. -/
def StandsAt (session : Session) (medium : Medium) (reach offset : Nat) (buffer : FeedBuffer) :
    Prop :=
  session.reading.cursor.StandsAt medium reach offset ∧ session.buffer = buffer

theorem keeps_onReading {Value : Type} {step : Reading.Action Value} {buffer : FeedBuffer}
    (h : Keeps (·.cursor.StandsAt medium reach offset) step) :
    Keeps (·.StandsAt medium reach offset buffer) (onReading step) := by
  rintro session ⟨hStands, hBuffer⟩
  have hAfter := h session.reading hStands
  simp only [onReading]
  split <;> rename_i hStep <;> rw [hStep] at hAfter <;> exact ⟨hAfter, hBuffer⟩

theorem keeps_onCursor {Value : Type} {step : Cursor.Action Value}
    (h : Keeps (·.StandsAt medium reach offset) step) :
    Keeps (·.cursor.StandsAt medium reach offset) (Reading.onCursor step) := by
  intro reading hStands
  rw [Reading.stateOf_onCursor]
  exact h reading.cursor hStands

theorem keeps_peekAt {target : Nat} (hTarget : target ≤ reach) (wanted : Nat) :
    Keeps (·.StandsAt medium reach offset) (Cursor.peekAt target wanted) := by
  intro cursor hStands
  obtain ⟨after, hPeek, hAfter⟩ := hStands.peekAt hTarget wanted
  rwa [hPeek]

theorem keeps_peek (format : Format) {target : Nat} (hTarget : target ≤ reach) :
    Keeps (·.StandsAt medium reach offset) (NalClass.peek format target) := by
  cases format with
  | mjpeg => exact keeps_throw _
  | nal coding =>
    refine Keeps.bind (fun cursor hStands => ?_) fun unitClass? => ?_
    · obtain ⟨after, hPeek, hAfter⟩ := hStands.peekAt hTarget (coding.headerSize + 1)
      simp only [NalClass.peek?, hPeek]
      exact hAfter
    · cases unitClass? with
      | none => exact keeps_throw _
      | some unitClass => exact keeps_pure _

/-- Looking at the stream leaves the session where it is. -/
theorem Operation.IsLook.keeps {operation : Operation} (h : operation.IsLook)
    (hWithin : operation.Within medium reach) (buffer : FeedBuffer) :
    Keeps (·.StandsAt medium reach offset buffer) operation.step := by
  cases operation with
  | scan => cases h
  | classify format target =>
    exact (keeps_onReading (keeps_onCursor (keeps_peek format hWithin))).bind fun _ => keeps_pure _
  | peek target wanted =>
    exact (keeps_onReading (keeps_onCursor (keeps_peekAt hWithin wanted))).bind
      fun _ => keeps_pure _
  | next splitter cancelled => cases h
  | recognise catalog path =>
    refine (keeps_onReading ?_).bind fun _ => keeps_pure _
    refine Keeps.bind (fun _ h => h) fun reading => ?_
    refine (keeps_onCursor (keeps_peekAt (Nat.zero_le _) _)).bind fun bytes => ?_
    cases catalog.probe? bytes path with
    | none => exact keeps_throw _
    | some probe => exact Keeps.bind (fun _ h => h) fun _ => keeps_pure _
  | fill span => cases h

theorem standsAt_after {session : Session} {looks : List Operation} {buffer : FeedBuffer}
    (h : session.StandsAt medium reach offset buffer)
    (hLooks : ∀ look ∈ looks, look.IsLook ∧ look.Within medium reach) :
    (session.after looks).StandsAt medium reach offset buffer := by
  induction looks generalizing session with
  | nil => exact h
  | cons look rest ih =>
    obtain ⟨hLook, hWithin⟩ := hLooks look (List.mem_cons_self ..)
    exact ih (hLook.keeps hWithin buffer session h) fun next hNext =>
      hLooks next (List.mem_cons_of_mem look hNext)

/-! ### Operations one after another -/

theorem trace_eq (hMedia : medium.Alike medium') {left right : Session}
    (hAlike : Alike medium medium' reach left right) {operations : List Operation}
    (hWithin : ∀ operation ∈ operations, operation.Within medium reach) :
    left.trace operations = right.trace operations := by
  induction operations generalizing left right with
  | nil => rfl
  | cons operation rest ih =>
    obtain ⟨hResult, hAfter⟩ := blind_step hMedia
      (hWithin operation (List.mem_cons_self ..)) left right hAlike
    have hRecord : left.record operation = right.record operation := by
      simp only [record, hResult, hAfter.1.position_eq, hAfter.2]
    rw [trace, trace, hRecord, ih hAfter fun next hNext =>
      hWithin next (List.mem_cons_of_mem operation hNext)]

/-- Two sessions over the same data that stand at one offset with equal buffers make the same
records of any operations. The media may cut the data into different pieces, the refills may ask
for different amounts, the windows may hold different bytes, and one of the sessions may have
looked around before. -/
theorem windows_invisible (hMedia : medium.Alike medium') {left right : Session}
    {buffer : FeedBuffer} (hLeft : left.StandsAt medium reach offset buffer)
    (hRight : right.StandsAt medium' reach offset buffer) {looks operations : List Operation}
    (hLooks : ∀ look ∈ looks, look.IsLook ∧ look.Within medium reach)
    (hWithin : ∀ operation ∈ operations, operation.Within medium reach) :
    (left.after looks).trace operations = right.trace operations := by
  obtain ⟨hAfter, hBuffer⟩ := standsAt_after hLeft hLooks
  exact trace_eq hMedia ⟨⟨offset, hAfter, hRight.1⟩, hBuffer.trans hRight.2.symm⟩ hWithin

/-- Two pictures, once two bytes at a time and once all at once. -/
def picturesInTwos : Session where
  reading := { cursor := .ofMedium (.ofFlaky AccessUnit.twoPictures (some 10) (some 2) none) 16 }
  buffer := .ofCapacity .ring 7 0

def picturesAtOnce : Session where
  reading := { cursor := .ofMedium (.ofBytes AccessUnit.twoPictures) 32 }
  buffer := .ofCapacity .ring 7 0

def someLooks : List Operation :=
  [.peek 4 6, .classify (.nal .h264) 8, .recognise .standard none]

/-- Operations that tell the format, feed both pictures and look for a third one. -/
def someOperations : List Operation :=
  [.recognise .standard none, .next (.ofFormat (.nal .h264)) false, .fill ⟨0, 5⟩,
    .classify .mjpeg 0, .next (.cancellable .h264) true, .fill ⟨5, 10⟩, .scan]

theorem windows_invisible_twoPictures :
    (picturesInTwos.after someLooks).trace someOperations = picturesAtOnce.trace someOperations ∧
      (picturesAtOnce.trace someOperations).map (·.position) = [0, 5, 5, 5, 8, 10, 10] := by
  have hLeft : picturesInTwos.StandsAt (.ofFlaky AccessUnit.twoPictures (some 10) (some 2) none)
      0x7fff_ffff_ffff_ffff 0 (.ofCapacity .ring 7 0) :=
    ⟨Cursor.standsAt_ofMedium (Medium.steady_ofFlaky (by decide) (by decide)) 16, rfl⟩
  have hRight : picturesAtOnce.StandsAt (.ofBytes AccessUnit.twoPictures)
      0x7fff_ffff_ffff_ffff 0 (.ofCapacity .ring 7 0) :=
    ⟨Cursor.standsAt_ofMedium (Medium.steady_ofBytes (by decide)) 32, rfl⟩
  have hMedia : (Medium.ofFlaky AccessUnit.twoPictures (some 10) (some 2) none).Alike
      (.ofBytes AccessUnit.twoPictures) := ⟨rfl, rfl⟩
  refine ⟨windows_invisible hMedia hLeft hRight ?_ ?_, by decide +kernel⟩
  · intro look hLook
    simp only [someLooks, List.mem_cons, List.not_mem_nil, or_false] at hLook
    rcases hLook with rfl | rfl | rfl
    · exact ⟨trivial, by show 4 ≤ _; decide⟩
    · exact ⟨trivial, by show 8 ≤ _; decide⟩
    · exact ⟨trivial, trivial⟩
  · intro operation hOperation
    simp only [someOperations, List.mem_cons, List.not_mem_nil, or_false] at hOperation
    rcases hOperation with rfl | rfl | rfl | rfl | rfl | rfl | rfl
    · trivial
    · exact fun h => nomatch h
    · show 0 ≤ _; decide
    · show 0 ≤ _; decide
    · exact fun h => nomatch h
    · show 5 ≤ _; decide
    · trivial

end Session

end FrameFeed
