import FrameFeed.Proofs.Cursor.Standing
import FrameFeed.Proofs.Steps

/-! The cursor as a plain cursor. A plain cursor over the data is an offset and the number of bytes
after it that have been shown and not yet been used. Every sequence of calls over a steady medium
gives what the plain cursor gives, and the window is counted without going below zero. -/

namespace FrameFeed.Cursor

open EStateM (Result)

inductive Call where
  | fill
  | consume (count : Nat)
  | readUpTo (wanted : Nat)
  | readExact (wanted : Nat)
  | readByte
  | readPair
  | skip (count : Nat)
  | peekAt (target wanted : Nat)
  | seekStart (target : Nat)
  | seekEnd (distance : Int)
  | position
  | atEnd
  deriving DecidableEq, Repr

/-- What a call gives. -/
inductive Answer where
  | done
  | bytes (bytes : ByteArray)
  | byte (byte : UInt8)
  | number (number : Nat)
  | flag (flag : Bool)

/-- A call as a step of the cursor. A refill gives the bytes of the window that are to come. -/
def Call.action : Call → Action Answer
  | fill => do
    Cursor.fill
    return .bytes (← get).pending
  | consume count => do
    modify (Cursor.consume count)
    return .done
  | readUpTo wanted => return .bytes (← Cursor.readUpTo wanted)
  | readExact wanted => return .bytes (← Cursor.readExact wanted)
  | readByte => return .byte (← Cursor.readByte)
  | readPair => return .number (← Cursor.readPair)
  | skip count => do
    Cursor.skip count
    return .done
  | peekAt target wanted => return .bytes (← Cursor.peekAt target wanted)
  | seekStart target => return .number (← Cursor.seek (.fromStart target))
  | seekEnd distance => return .number (← Cursor.seek (.fromEnd distance))
  | position => return .number (← get).position
  | atEnd => return .flag (← Cursor.atEnd)

/-- A call that has been made, with the cursor before and after it and its result. -/
structure Event where
  call : Call
  before : Cursor
  result : Except Fault Answer
  after : Cursor

def Call.event (call : Call) (cursor : Cursor) : Event where
  call
  before := cursor
  result := resultOf (call.action cursor)
  after := stateOf (call.action cursor)

/-- The events of calls one after another. A call that fails does not end the sequence. -/
def events (cursor : Cursor) : List Call → List Event
  | [] => []
  | call :: rest => call.event cursor :: events (call.event cursor).after rest

/-! ### The plain cursor -/

/-- A plain cursor: an offset, and how many bytes from there on have been shown. -/
structure Plain where
  offset : Nat
  shown : Nat
  deriving DecidableEq, Repr

def plain (cursor : Cursor) : Plain := ⟨cursor.position, cursor.buffered⟩

/-- Bytes are taken if there are enough of them; otherwise all of them are used up in vain. -/
def Plain.Takes (data : ByteArray) (before : Plain) (count : Nat) (answer : Answer)
    (result : Except Fault Answer) (after : Plain) : Prop :=
  if data.size - before.offset < count then
    result = .error .endOfStream ∧ after.offset = max before.offset data.size
  else
    result = .ok answer ∧ after.offset = before.offset + count

/-- What a call does to a plain cursor over data. All calls but a refill and the use of shown bytes
leave it open how many bytes are shown afterwards. -/
def Call.Meets (data : ByteArray) (call : Call) (before : Plain) (result : Except Fault Answer)
    (after : Plain) : Prop :=
  match call with
  | fill =>
    result = .ok (.bytes (data.extract before.offset (before.offset + after.shown))) ∧
      after.offset = before.offset ∧ (after.shown = 0 ↔ data.size ≤ before.offset)
  | consume count =>
    result = .ok .done ∧ after.offset = before.offset + min count before.shown ∧
      after.shown = before.shown - min count before.shown
  | readUpTo wanted =>
    ∃ bytes, bytes = data.extract before.offset (min (before.offset + wanted) data.size) ∧
      result = .ok (.bytes bytes) ∧ after.offset = before.offset + bytes.size
  | readExact wanted =>
    before.Takes data wanted
      (.bytes (data.extract before.offset (before.offset + wanted))) result after
  | readByte => before.Takes data 1 (.byte (data[before.offset]?.getD 0)) result after
  | readPair => before.Takes data 2 (.number (pairAt data before.offset)) result after
  | skip count => result = .ok .done ∧ after.offset = before.offset + count
  | peekAt target wanted =>
    result = .ok (.bytes (data.extract target (min (target + wanted) data.size))) ∧
      after.offset = before.offset
  | seekStart target => result = .ok (.number target) ∧ after.offset = target
  | seekEnd distance =>
    ∃ target : Nat, data.size + distance = target ∧ result = .ok (.number target) ∧
      after.offset = target
  | position => result = .ok (.number before.offset) ∧ after.offset = before.offset
  | atEnd =>
    result = .ok (.flag (decide (data.size ≤ before.offset))) ∧ after.offset = before.offset

/-- The place that a call of a plain cursor goes to or looks at is none before the data, and none
past an offset. A count of bytes to use may lead past that offset, as no more are used than are
shown, but not past a 64-bit word. -/
def Call.Within (data : ByteArray) (reach : Nat) (call : Call) (before : Plain) : Prop :=
  match call with
  | consume count => before.offset + count < 0x1_0000_0000_0000_0000
  | skip count => before.offset + count ≤ reach
  | peekAt target _ => target ≤ reach
  | seekStart target => target ≤ reach
  | seekEnd distance => 0 ≤ data.size + distance ∧ data.size + distance ≤ reach
  | _ => True

/-! ### One call -/

variable {medium : Medium} {reach offset : Nat} {cursor : Cursor}

theorem StandsAt.shown_le (h : cursor.StandsAt medium reach offset) :
    cursor.buffered ≤ medium.data.size - offset := by
  by_cases hEmpty : cursor.buffered = 0
  · omega
  · have := h.buffered_le hEmpty
    omega

theorem StandsAt.pending_eq (h : cursor.StandsAt medium reach offset) :
    cursor.pending = medium.data.extract offset (offset + cursor.buffered) := by
  have hUsed := h.exact.used_le
  rw [← h.extract_window (Nat.le_refl _), pending]
  congr 1
  simp only [buffered]
  omega

theorem meets_of_ok {call : Call} {answer : Answer} {after : Cursor} {place : Nat}
    (hAction : call.action cursor = .ok answer after) (hAfter : after.StandsAt medium reach place)
    (hMeets : call.Meets medium.data cursor.plain (.ok answer) ⟨place, after.buffered⟩) :
    call.Meets medium.data cursor.plain (call.event cursor).result (call.event cursor).after.plain ∧
      (call.event cursor).after.StandsAt medium reach (call.event cursor).after.position := by
  obtain rfl := hAfter.position_eq
  simp only [Call.event, hAction]
  exact ⟨hMeets, hAfter⟩

theorem meets_of_error {call : Call} {fault : Fault} {after : Cursor} {place : Nat}
    (hAction : call.action cursor = .error fault after)
    (hAfter : after.StandsAt medium reach place)
    (hMeets : call.Meets medium.data cursor.plain (.error fault) ⟨place, after.buffered⟩) :
    call.Meets medium.data cursor.plain (call.event cursor).result (call.event cursor).after.plain ∧
      (call.event cursor).after.StandsAt medium reach (call.event cursor).after.position := by
  obtain rfl := hAfter.position_eq
  simp only [Call.event, hAction]
  exact ⟨hMeets, hAfter⟩

theorem takes_short {data : ByteArray} {place count shown : Nat} {answer : Answer} {before : Plain}
    (hLeft : data.size - before.offset < count)
    (hPlace : place = before.offset + (data.size - before.offset)) :
    before.Takes data count answer (.error .endOfStream) ⟨place, shown⟩ := by
  unfold Plain.Takes
  rw [if_pos hLeft]
  refine ⟨rfl, ?_⟩
  simp only [hPlace]
  omega

theorem takes_enough {data : ByteArray} {count shown : Nat} {answer : Answer} {before : Plain}
    (hLeft : ¬data.size - before.offset < count) :
    before.Takes data count answer (.ok answer) ⟨before.offset + count, shown⟩ := by
  unfold Plain.Takes
  rw [if_neg hLeft]
  exact ⟨rfl, rfl⟩

/-- A call of a cursor that stands somewhere does what it does to the plain cursor there, and leaves
the cursor where the plain one is. -/
theorem event_meets (call : Call) (h : cursor.StandsAt medium reach offset)
    (hSize : ∀ size, medium.reportedSize = some size → size = medium.data.size)
    (hWithin : call.Within medium.data reach cursor.plain) :
    call.Meets medium.data cursor.plain (call.event cursor).result (call.event cursor).after.plain ∧
      (call.event cursor).after.StandsAt medium reach (call.event cursor).after.position := by
  obtain rfl := h.position_eq
  cases call with
  | fill =>
    obtain ⟨filled, hFill, hFilled, hEnd⟩ := h.fill
    apply meets_of_ok (by simp only [Call.action, bind_of_ok hFill]; rfl) hFilled
    rw [hFilled.pending_eq]
    exact ⟨rfl, rfl, hEnd⟩
  | consume count =>
    have hWord : cursor.used + count < 0x1_0000_0000_0000_0000 :=
      Nat.lt_of_le_of_lt (Nat.add_le_add_right h.exact.used_le_position count) hWithin
    have hConsume : (Call.consume count).action cursor = .ok .done (cursor.advance count) :=
      congrArg (Result.ok Answer.done) (consume_eq_advance hWord)
    apply meets_of_ok hConsume (h.advance count)
    refine ⟨rfl, rfl, ?_⟩
    simp only [plain, Cursor.advance, buffered]
    omega
  | readUpTo wanted =>
    obtain ⟨after, hRead, hAfter⟩ := h.readUpTo wanted
    apply meets_of_ok (by simp only [Call.action, bind_of_ok hRead]; rfl) hAfter
    refine ⟨_, (extract_min ..).symm, rfl, ?_⟩
    simp only [plain, ByteArray.size_extract]
    omega
  | readExact wanted =>
    by_cases hLeft : medium.data.size - cursor.position < wanted
    · obtain ⟨after, hRead, hAfter⟩ := h.readExact_short hLeft
      apply meets_of_error (by simp only [Call.action, bind_of_error hRead]; rfl) hAfter
      exact takes_short hLeft rfl
    · obtain ⟨after, hRead, hAfter⟩ := h.readExact (Nat.not_lt.mp hLeft)
      apply meets_of_ok (by simp only [Call.action, bind_of_ok hRead]; rfl) hAfter
      exact takes_enough hLeft
  | readByte =>
    by_cases hLeft : medium.data.size - cursor.position < 1
    · obtain ⟨after, hRead, hAfter⟩ := h.readByte_short hLeft
      apply meets_of_error (by simp only [Call.action, bind_of_error hRead]; rfl) hAfter
      exact takes_short hLeft rfl
    · obtain ⟨after, hRead, hAfter⟩ := h.readByte (Nat.not_lt.mp hLeft)
      apply meets_of_ok (by simp only [Call.action, bind_of_ok hRead]; rfl) hAfter
      exact takes_enough hLeft
  | readPair =>
    by_cases hLeft : medium.data.size - cursor.position < 2
    · obtain ⟨after, hRead, hAfter⟩ := h.readPair_short hLeft
      apply meets_of_error (by simp only [Call.action, bind_of_error hRead]; rfl) hAfter
      exact takes_short hLeft rfl
    · obtain ⟨after, hRead, hAfter⟩ := h.readPair (Nat.not_lt.mp hLeft)
      apply meets_of_ok (by simp only [Call.action, bind_of_ok hRead]; rfl) hAfter
      exact takes_enough hLeft
  | skip count =>
    obtain ⟨after, hSkip, hAfter⟩ := h.skip hWithin
    apply meets_of_ok (by simp only [Call.action, bind_of_ok hSkip]; rfl) hAfter
    exact ⟨rfl, rfl⟩
  | peekAt target wanted =>
    obtain ⟨after, hPeek, hAfter⟩ := h.peekAt hWithin wanted
    apply meets_of_ok (by simp only [Call.action, bind_of_ok hPeek]; rfl) hAfter
    exact ⟨by rw [extract_min], rfl⟩
  | seekStart target =>
    obtain ⟨after, hSeek, hAfter⟩ := h.seekStart hWithin
    apply meets_of_ok (by simp only [Call.action, bind_of_ok hSeek]; rfl) hAfter
    exact ⟨rfl, rfl⟩
  | seekEnd distance =>
    obtain ⟨hLow, hHigh⟩ := hWithin
    obtain ⟨target, hTarget⟩ := Int.eq_ofNat_of_zero_le hLow
    obtain ⟨after, hSeek, hAfter⟩ := h.seekEnd hTarget (by omega)
    apply meets_of_ok (by simp only [Call.action, bind_of_ok hSeek]; rfl) hAfter
    exact ⟨target, hTarget, rfl, rfl⟩
  | position =>
    apply meets_of_ok rfl h
    exact ⟨rfl, rfl⟩
  | atEnd =>
    obtain ⟨after, hAsk, hAfter⟩ := h.atEnd hSize
    apply meets_of_ok (by simp only [Call.action, bind_of_ok hAsk]; rfl) hAfter
    exact ⟨rfl, rfl⟩

/-! ### Counting in the window -/

/-- The turns that gathering `wanted` bytes takes: each with the bytes that are left to gather and
the cursor that it looks at. -/
inductive Gathers (wanted : Nat) (cursor : Cursor) : Nat → Cursor → Prop
  | start : Gathers wanted cursor wanted cursor
  | window {left : Nat} {turn : Cursor} :
      Gathers wanted cursor left turn → left ≠ 0 → turn.buffered ≠ 0 →
      Gathers wanted cursor (left - min turn.buffered left)
        (turn.advance (min turn.buffered left))
  | direct {left : Nat} {turn : Cursor} {bytes : ByteArray} {source : Source} :
      Gathers wanted cursor left turn → left ≠ 0 → turn.buffered = 0 → turn.capacity ≤ left →
      Source.read left turn.source = .ok bytes source → bytes.size ≠ 0 →
      Gathers wanted cursor (left - bytes.size) { turn.withoutWindow with source }
  | refill {left : Nat} {turn filled : Cursor} :
      Gathers wanted cursor left turn → left ≠ 0 → turn.buffered = 0 → left < turn.capacity →
      Cursor.fill turn = .ok () filled → filled.buffered ≠ 0 →
      Gathers wanted cursor left filled

/-- Each turn is a place from which gathering goes on. -/
theorem Gathers.gather_eq {wanted left : Nat} {turn : Cursor} (h : Gathers wanted cursor left turn)
    (got : ByteArray) : ∃ got', gather wanted got cursor = gather left got' turn := by
  induction h with
  | start => exact ⟨got, rfl⟩
  | window _ hLeft hBuffered ih =>
    obtain ⟨got', hGather⟩ := ih
    rw [hGather, gather, if_neg hLeft, if_pos hBuffered]
    exact ⟨_, rfl⟩
  | direct _ hLeft hBuffered hCapacity hRead hSome ih =>
    obtain ⟨got', hGather⟩ := ih
    rw [hGather, gather, if_neg hLeft, if_neg (not_not_intro hBuffered), if_pos hCapacity]
    simp only [hRead, if_neg hSome]
    exact ⟨_, rfl⟩
  | refill _ hLeft hBuffered hCapacity hFill hSome ih =>
    obtain ⟨got', hGather⟩ := ih
    rw [hGather, gather, if_neg hLeft, if_neg (not_not_intro hBuffered),
      if_neg (Nat.not_le.mpr hCapacity)]
    simp only [hFill, if_neg hSome]
    exact ⟨_, rfl⟩

theorem Gathers.exact {wanted left : Nat} {turn : Cursor} (h : Gathers wanted cursor left turn)
    (hExact : cursor.Exact) : turn.Exact := by
  induction h with
  | start => exact hExact
  | window _ _ _ ih => exact ih.advance _
  | direct => exact exact_withoutWindow _ _
  | refill _ _ _ _ hFill _ ih => exact ih.fill hFill

def Call.gathered : Call → Nat
  | readUpTo wanted => wanted
  | readExact wanted => wanted
  | readByte => 1
  | readPair => 2
  | peekAt _ wanted => wanted
  | _ => 0

/-- The cursors in which a call counts bytes of the window: the one that it begins with and those at
the turns of gathering, for a peek after it has gone to its place. -/
inductive Call.Counts (call : Call) (cursor : Cursor) : Cursor → Prop
  | here {left : Nat} {turn : Cursor} :
      Gathers call.gathered cursor left turn → call.Counts cursor turn
  | there {target wanted reached left : Nat} {moved turn : Cursor} :
      call = .peekAt target wanted → seek (.fromStart target) cursor = .ok reached moved →
      Gathers wanted moved left turn → call.Counts cursor turn

/-- Every count of bytes in the window stays above zero: no more of them are used than there are,
and no more are there than lie before the source. -/
theorem Call.Counts.exact {call : Call} {turn : Cursor} (h : call.Counts cursor turn)
    (hExact : cursor.Exact) : turn.Exact := by
  cases h with
  | here hTurn => exact hTurn.exact hExact
  | there _ hSeek hTurn => exact hTurn.exact (exact_seek hSeek)

/-! ### Sequences of calls -/

/-- Every sequence of calls over a steady medium keeps the cursor standing somewhere. The induction
is on the calls. -/
theorem standsAt_of_mem_events {calls : List Call} (h : cursor.StandsAt medium reach offset)
    (hSize : ∀ size, medium.reportedSize = some size → size = medium.data.size)
    (hWithin : ∀ event ∈ cursor.events calls,
      event.call.Within medium.data reach event.before.plain) {event : Event}
    (hEvent : event ∈ cursor.events calls) :
    event = event.call.event event.before ∧
      event.before.StandsAt medium reach event.before.position := by
  induction calls generalizing cursor offset with
  | nil => cases hEvent
  | cons call rest ih =>
    obtain ⟨-, hAfter⟩ := event_meets call h hSize (hWithin _ List.mem_cons_self)
    rcases List.mem_cons.mp hEvent with rfl | hLater
    · exact ⟨rfl, h.position_eq.symm ▸ h⟩
    · exact ih hAfter (fun other hOther => hWithin other (List.mem_cons_of_mem _ hOther)) hLater

/-- The cursor behaves as a plain cursor. In every sequence of calls over a steady medium that go to
and look at places within its reach, and count bytes to use within 64 bits, each call gives what it
gives for the plain cursor and moves as that does; no byte is shown past the end of the data, and no
count of bytes in the window goes below zero. -/
theorem events_refine {calls : List Call} (h : cursor.StandsAt medium reach offset)
    (hSize : ∀ size, medium.reportedSize = some size → size = medium.data.size)
    (hWithin : ∀ event ∈ cursor.events calls,
      event.call.Within medium.data reach event.before.plain) :
    ∀ event ∈ cursor.events calls,
      event.call.Meets medium.data event.before.plain event.result event.after.plain ∧
        event.after.plain.shown ≤ medium.data.size - event.after.plain.offset ∧
        ∀ turn, event.call.Counts event.before turn →
          turn.used ≤ turn.window.size ∧ turn.window.size ≤ turn.source.position := by
  intro event hEvent
  obtain ⟨hEq, hBefore⟩ := standsAt_of_mem_events h hSize hWithin hEvent
  obtain ⟨hMeets, hAfter⟩ := event_meets event.call hBefore hSize (hWithin event hEvent)
  rw [← hEq] at hMeets hAfter
  refine ⟨hMeets, hAfter.shown_le, ?_⟩
  intro turn hTurn
  have hExact := hTurn.exact hBefore.exact
  exact ⟨hExact.used_le, hExact.window_le⟩

/-- Five bytes that are handed over in twos. -/
def fiveInTwos : Medium := .ofFlaky ⟨#[10, 20, 30, 40, 50]⟩ (some 5) (some 2) none

/-- Calls that read two of five bytes, use the two that are shown next, the second by a count that
is too large, leave out the last one and look at all of them. -/
def someCalls : List Call :=
  [.readUpTo 2, .fill, .consume 1, .consume 9, .skip 1, .peekAt 0 9, .atEnd]

theorem events_refine_fiveInTwos :
    ((ofMedium fiveInTwos 16).events someCalls).length = 7 ∧
      ∀ event ∈ (ofMedium fiveInTwos 16).events someCalls,
        event.call.Meets fiveInTwos.data event.before.plain event.result event.after.plain ∧
          event.after.plain.shown ≤ 5 - event.after.plain.offset ∧
          ∀ turn, event.call.Counts event.before turn →
            turn.used ≤ turn.window.size ∧ turn.window.size ≤ turn.source.position := by
  have hSteady : fiveInTwos.Steady 0x7fff_ffff_ffff_ffff :=
    Medium.steady_ofFlaky (by decide) (by decide)
  refine ⟨rfl, ?_⟩
  apply events_refine (standsAt_ofMedium hSteady 16)
  · intro size hSize
    cases hSize
    rfl
  · intro event hEvent
    simp only [someCalls, events, List.mem_cons, List.not_mem_nil, or_false] at hEvent
    rcases hEvent with rfl | rfl | rfl | rfl | rfl | rfl | rfl
    · trivial
    · trivial
    · show _ < _
      decide +kernel
    · show _ < _
      decide +kernel
    · show _ ≤ _
      decide +kernel
    · show 0 ≤ _
      decide
    · trivial

end FrameFeed.Cursor
