import FrameFeed.Proofs.FeedBuffer.Mending
import FrameFeed.Proofs.FeedBuffer.Showing
import FrameFeed.Proofs.Run.Dump

/-! Feeding through a buffer that may grow. Every frame fits in then; the buffer is as large as it
was at first or as the largest frame, and it has grown once for each frame that was larger than
that at its turn. -/

namespace FrameFeed.Run

open EStateM (Result)

/-! ### Sizes that exceed all before -/

section Records

variable {capacity size : Nat} {sizes : List Nat}

/-- A size is larger than a capacity and than each size before it. -/
def Exceeds (capacity : Nat) (earlier : List Nat) (size : Nat) : Prop :=
  capacity < size ∧ ∀ other ∈ earlier, other < size

instance (capacity : Nat) (earlier : List Nat) (size : Nat) :
    Decidable (Exceeds capacity earlier size) :=
  inferInstanceAs (Decidable (_ ∧ _))

theorem exceeds_iff : Exceeds capacity sizes size ↔ sizes.foldl max capacity < size := by
  induction sizes generalizing capacity with
  | nil => simp [Exceeds]
  | cons first rest ih =>
    rw [List.foldl_cons, ← ih]
    simp only [Exceeds, List.forall_mem_cons, Nat.max_lt, and_assoc]

/-- How many of the sizes exceed the capacity and all sizes before them. -/
def records (capacity : Nat) (sizes : List Nat) : Nat :=
  (List.range sizes.length).countP fun index =>
    sizes[index]?.any fun size => Exceeds capacity (sizes.take index) size

theorem records_concat (capacity : Nat) (sizes : List Nat) (size : Nat) :
    records capacity (sizes ++ [size]) =
      records capacity sizes + if Exceeds capacity sizes size then 1 else 0 := by
  have hLast : (List.countP (fun index => (sizes ++ [size])[index]?.any fun other =>
      decide (Exceeds capacity ((sizes ++ [size]).take index) other)) [sizes.length]) =
      if Exceeds capacity sizes size then 1 else 0 := by
    simp [List.countP_singleton]
  rw [records, List.length_append, List.length_singleton, List.range_succ, List.countP_append,
    hLast, records]
  congr 1
  apply List.countP_congr
  intro index hIndex
  rw [List.mem_range] at hIndex
  rw [List.getElem?_append_left hIndex, List.take_append_of_le_length (Nat.le_of_lt hIndex)]

end Records

/-! ### One frame -/

variable {buffer filled left : FeedBuffer} {span : Span} {state after : Reading} {tally : Tally}
  {grew : Bool} {failure : Failure} {capacity : Nat} {sizes : List Nat}

/-- Feeding that may grow the buffer comes to growing it first, as far as the frame needs it, and
then filling it. -/
theorem feed_growing (span : Span) (buffer : FeedBuffer) (state : Reading) :
    let filling := FeedBuffer.fill span (buffer.grow span.size, state.cursor)
    ∃ notes, feed true span buffer state =
      (((resultOf filling).map fun _ => decide (buffer.capacity < span.size)).mapError
          (if buffer.capacity < span.size then .feedGrown span else .feed span),
        (stateOf filling).1, { cursor := (stateOf filling).2, notes }) := by
  obtain ⟨cursor, notes⟩ := state
  by_cases hLarge : buffer.capacity < span.size
  · have hRefused := (FeedBuffer.fill_refused_iff buffer cursor span).2 hLarge
    simp only [feed, hRefused, if_pos hLarge, if_true, decide_eq_true hLarge]
    cases FeedBuffer.fill span (buffer.grow span.size, cursor) <;> exact ⟨_, rfl⟩
  · rw [FeedBuffer.grow_of_le (Nat.not_lt.mp hLarge)]
    simp only [feed, if_neg hLarge, decide_eq_false hLarge]
    cases hFill : FeedBuffer.fill span (buffer, cursor) with
    | ok => exact ⟨notes, rfl⟩
    | error fault =>
      cases fault with
      | needLargerBuffer required capacity =>
        obtain ⟨-, -, rfl, hRequired⟩ := FeedBuffer.fill_needLarger hFill
        exact absurd hRequired hLarge
      | _ => exact ⟨notes, rfl⟩

/-- A frame is not fed for want of room. -/
def LacksRoom : Failure → Prop
  | .tooSmall _ => True
  | .feed _ fault | .feedGrown _ fault => fault.kind = .needLargerBuffer
  | _ => False

/-- Room is never wanting in a buffer that may grow. -/
theorem feed_growing_error (hFeed : feed true span buffer state = (.error failure, left, after)) :
    ¬LacksRoom failure := by
  obtain ⟨notes, hGrowing⟩ := feed_growing span buffer state
  obtain ⟨hRefused, -⟩ := FeedBuffer.fill_refused_iff (buffer.grow span.size) state.cursor span
  rw [hFeed] at hGrowing
  have hFailure := (Prod.mk.inj hGrowing).1
  cases hFill : resultOf (FeedBuffer.fill span (buffer.grow span.size, state.cursor)) with
  | ok =>
    rw [hFill] at hFailure
    cases hFailure
  | error fault =>
    rw [hFill] at hFailure
    have hKind : fault.kind ≠ .needLargerBuffer := by
      intro hKind
      have hLarge := hRefused.mp ⟨fault, hFill, hKind⟩
      rw [FeedBuffer.capacity_grow] at hLarge
      omega
    have hFailure : failure =
        (if buffer.capacity < span.size then Failure.feedGrown span else .feed span) fault :=
      Except.error.inj hFailure
    rw [hFailure]
    split <;> exact hKind

theorem feed_growing_ok (hFeed : feed true span buffer state = (.ok grew, filled, after)) :
    grew = decide (buffer.capacity < span.size) ∧
      ∃ count, FeedBuffer.fill span (buffer.grow span.size, state.cursor) =
        .ok count (filled, after.cursor) := by
  obtain ⟨notes, hGrowing⟩ := feed_growing span buffer state
  rw [hFeed] at hGrowing
  cases hFill : FeedBuffer.fill span (buffer.grow span.size, state.cursor) with
  | ok count next =>
    rw [hFill] at hGrowing
    cases hGrowing
    exact ⟨rfl, count, rfl⟩
  | error =>
    rw [hFill] at hGrowing
    cases hGrowing

/-- What a buffer and the totals come to when frames of some sizes have been fed. -/
structure Grown (capacity : Nat) (sizes : List Nat) (buffer : FeedBuffer) (tally : Tally) :
    Prop where
  placed : buffer.Placed
  capacity_eq : buffer.capacity = sizes.foldl max capacity
  reported_eq : tally.capacity = buffer.capacity
  frames_eq : tally.frames = sizes.length
  grows_eq : tally.grows = records capacity sizes

theorem grown_none (hPlaced : buffer.Placed) :
    Grown buffer.capacity [] buffer { mode := buffer.mode, capacity := buffer.capacity } :=
  ⟨hPlaced, rfl, rfl, rfl, rfl⟩

/-- One more frame has been fed. The buffer has grown just where the frame is larger than what it
held at first and than each frame before it. -/
theorem Grown.feed (h : Grown capacity sizes buffer tally)
    (hFeed : feed true span buffer state = (.ok grew, filled, after)) (wrapped : Bool) :
    grew = decide (Exceeds capacity sizes span.size) ∧
      filled.frameBytes = span.bytes state.cursor.source.medium.data ∧
      Grown capacity (sizes ++ [span.size]) filled
        (Tally.count tally span.size filled.capacity grew wrapped) := by
  obtain ⟨rfl, count, hFill⟩ := feed_growing_ok hFeed
  have hPlaced := h.placed.grow span.size
  obtain ⟨hFilled, hLaid, -⟩ := hPlaced.taken hFill
  have hCapacity : filled.capacity = max buffer.capacity span.size :=
    hLaid.size_eq.trans (FeedBuffer.capacity_grow buffer span.size)
  have hGrew : buffer.capacity < span.size ↔ Exceeds capacity sizes span.size := by
    rw [exceeds_iff, h.capacity_eq]
  refine ⟨decide_eq_decide.mpr hGrew, (hPlaced.shows hFill).frameBytes_eq hFilled, hFilled, ?_, ?_,
    ?_, ?_⟩
  · rw [hCapacity, List.foldl_append, h.capacity_eq]
    rfl
  · simp only [Tally.count, decide_eq_true_eq, h.reported_eq]
    split <;> omega
  · rw [List.length_append, ← h.frames_eq]
    rfl
  · rw [records_concat, ← h.grows_eq]
    simp only [Tally.count, decide_eq_true_eq, hGrew]
    split <;> rfl

/-! ### Frame after frame -/

/-- A frame to be fed, and where the reading stands then. -/
structure Call where
  span : Span
  state : Reading

/-- The data that a frame is fed from. -/
def Call.data (call : Call) : ByteArray := call.state.cursor.source.medium.data

/-- The frame is a span of the data of a stream that delivers; the cursor may stand anywhere. -/
structure Call.Within (call : Call) : Prop where
  stands : ∃ medium reach offset, call.state.cursor.StandsAt medium reach offset
  start_le : call.span.start ≤ call.span.stop
  stop_le : call.span.stop ≤ call.data.size

/-- Takes a frame as a run does, from wherever the reading stands. -/
def Call.take (options : Options) (format : Format) (call : Call) : EStateM Failure Job Unit :=
  fun job => takeFrame options format call.span { job with reading := call.state }

variable {options : Options} {format : Format} {job done : Job} {call : Call} {calls : List Call}

/-- A frame of the data is fed. -/
theorem Call.Within.feed (h : call.Within) (hPlaced : buffer.Placed) :
    ∃ filled after, Run.feed true call.span buffer call.state =
      (.ok (decide (buffer.capacity < call.span.size)), filled, after) := by
  obtain ⟨medium, reach, offset, hStands⟩ := h.stands
  have hStop := h.stop_le
  rw [Call.data, hStands.medium_eq] at hStop
  have hFits : call.span.size ≤ (buffer.grow call.span.size).capacity := by
    rw [FeedBuffer.capacity_grow]
    omega
  obtain ⟨filled, after, hFill, -⟩ := FeedBuffer.fill_standsAt hStands
    (hPlaced.grow call.span.size).frameStop_le hFits h.start_le hStop
  obtain ⟨notes, hFeed⟩ := feed_growing call.span buffer call.state
  rw [hFill] at hFeed
  exact ⟨filled, _, hFeed⟩

/-- A frame of the data is taken where nothing is dumped. -/
theorem Call.Within.take (h : call.Within) (hPlaced : job.buffer.Placed) (format : Format)
    (hGrow : options.autoGrow = true) (hDump : options.dumpFolder = none) :
    ∃ after, call.take options format job = .ok () after := by
  obtain ⟨filled, fed, hFeed⟩ := h.feed hPlaced
  simp only [Call.take, takeFrame, hGrow, hDump, hFeed]
  exact ⟨_, rfl⟩

/-- A frame that has been taken is in the buffer whole and has been counted, and so has the growth
of the buffer. -/
theorem Taken.grown {fed : Reading} (h : Taken options format span job done grew fed)
    (hGrow : options.autoGrow = true) (hJob : Grown capacity sizes job.buffer job.tally) :
    (feed true span job.buffer job.reading).1 = .ok (decide (Exceeds capacity sizes span.size)) ∧
      done.buffer.frameBytes = span.bytes job.reading.cursor.source.medium.data ∧
      Grown capacity (sizes ++ [span.size]) done.buffer done.tally := by
  have hFeed := h.feed_eq
  rw [hGrow] at hFeed
  obtain ⟨rfl, hBytes, hGrown⟩ := hJob.feed hFeed (done.buffer.segments.2.size ≠ 0)
  rw [hFeed, h.tally_eq]
  exact ⟨rfl, hBytes, hGrown⟩

theorem Grown.takeAll (h : Grown capacity sizes job.buffer job.tally) (format : Format)
    (hGrow : options.autoGrow = true) (hDump : options.dumpFolder = none)
    (hCalls : ∀ call ∈ calls, call.Within) :
    ∃ done, calls.forM (Call.take options format) job = .ok () done ∧
      Grown capacity (sizes ++ calls.map (·.span.size)) done.buffer done.tally := by
  induction calls generalizing sizes job with
  | nil =>
    rw [List.map_nil, List.append_nil]
    exact ⟨job, rfl, h⟩
  | cons call rest ih =>
    rw [List.forall_mem_cons] at hCalls
    obtain ⟨middle, hTake⟩ := hCalls.1.take h.placed format hGrow hDump
    obtain ⟨grew, fed, hTaken⟩ := takeFrame_ok hTake
    obtain ⟨-, -, hMiddle⟩ := hTaken.grown hGrow h
    obtain ⟨done, hRest, hDone⟩ := ih hMiddle hCalls.2
    rw [List.append_assoc] at hDone
    exact ⟨done, (bind_of_ok hTake).trans hRest, hDone⟩

/-! ### Runs -/

variable {method : Splitter.Method} {medium : Medium} {offset : Nat} {last : Job}
  {spans : List Span}

theorem takeFrame_growing_error (hGrow : options.autoGrow = true)
    (h : takeFrame options format span job = .error failure done) : ¬LacksRoom failure := by
  simp only [takeFrame, hGrow] at h
  split at h
  · rename_i hFeed
    cases h
    exact feed_growing_error hFeed
  · split at h
    · cases h
    · split at h <;> cases h
      exact not_false

/-- A run fails to take a frame for want of room only if the buffer may not grow. -/
theorem takeFrames_growing_error {limit : Nat} (hGrow : options.autoGrow = true)
    (h : takeFrames options format limit job = .error failure done) : ¬LacksRoom failure := by
  induction limit generalizing job with
  | zero => cases h
  | succ limit ih =>
    simp only [takeFrames] at h
    split at h
    · cases h
      exact not_false
    · cases h
    · split at h
      · rename_i hTake
        cases h
        exact takeFrame_growing_error hGrow hTake
      · exact ih h

theorem Takes.grown (h : Takes options format method medium offset job spans last)
    (hGrow : options.autoGrow = true) (hJob : Grown capacity sizes job.buffer job.tally) :
    Grown capacity (sizes ++ spans.map Span.size) last.buffer last.tally := by
  induction h generalizing sizes with
  | ended =>
    rw [List.map_nil, List.append_nil]
    exact hJob
  | cons _ hTake _ _ ih =>
    obtain ⟨grew, fed, hTaken⟩ := takeFrame_ok hTake
    obtain ⟨-, -, hMiddle⟩ := hTaken.grown hGrow hJob
    have hLast := ih hMiddle
    rw [List.append_assoc] at hLast
    exact hLast

theorem grown_firstJob (options : Options) (format : Format) (sps : Option Sps) (state : Reading)
    (disk : Disk) :
    let job := firstJob options format sps state disk
    Grown (chooseCapacity options sps) [] job.buffer job.tally := by
  have hCapacity : (firstJob options format sps state disk).buffer.capacity =
      chooseCapacity options sps := FeedBuffer.size_filled 0 _
  exact ⟨FeedBuffer.placed_empty rfl rfl rfl, hCapacity, hCapacity.symm, rfl, rfl⟩

/-- What a run that may grow its buffer reports of it: as many growths as frames were larger than
the buffer at first and than each frame before them, and in the end the size of the largest frame
if that is larger than the buffer was. -/
theorem work_growing_ok {disk : Disk} {data : ByteArray} {report : Report}
    (hGrow : options.autoGrow = true) (hInput : disk.medium options.input = .ok (.ofFile data))
    (hSize : data.size + 2 < 0x8000_0000_0000_0000) (h : (work options disk).result = .ok report)
    (hApart : Apart options report.format report.tally.frames) :
    ∃ spans,
      (∀ window, (Splitter.ofFormat report.format).Runs
        { cursor := .ofMedium (.ofBytes data) window } spans (.ok none)) ∧
      report.tally.frames = spans.length ∧
      report.tally.grows = records (chooseCapacity options report.sps) (spans.map Span.size) ∧
      report.tally.capacity =
        (spans.map Span.size).foldl max (chooseCapacity options report.sps) := by
  obtain ⟨spans, seen, made, job, hTakes, -, -, hTally, -⟩ := work_ok hInput hSize h hApart
  have hGrown := hTakes.grown hGrow (grown_firstJob options report.format report.sps seen made)
  rw [← hTally, List.nil_append] at hGrown
  exact ⟨spans, fun window => (frames_ofFile hSize hTakes.frames).2 _ window rfl,
    hGrown.frames_eq.trans (List.length_map _), hGrown.grows_eq,
    hGrown.reported_eq.trans hGrown.capacity_eq⟩

theorem work_growing_error {disk : Disk} (hGrow : options.autoGrow = true)
    (h : (work options disk).result = .error failure) : ¬LacksRoom failure := by
  simp only [work] at h
  split at h
  · cases h
    exact not_false
  · rcases workOn_error h with hEarly | ⟨format, sps, seen, made, job, hTake⟩
    · cases failure <;> first | exact not_false | cases hEarly
    · exact takeFrames_growing_error hGrow hTake

/-- Room is never wanting to a buffer that may grow. When frames of the data are taken one after
another, from any buffer and wherever the stream stands at each, every one of them is fed and read
back whole; the buffer grows just for those that are larger than it was at first and than each frame
before them, up to their size; and the totals say so. Those of a run that succeeds on a file say so
of the frames of its data, all of them, unless a frame has been written over the file. -/
theorem growth_counted :
    (∀ (span : Span) (buffer : FeedBuffer) (state : Reading) (failure : Failure),
      (feed true span buffer state).1 = .error failure → ¬LacksRoom failure) ∧
    (∀ (options : Options) (format : Format) (start : Job) (frame : ByteArray)
        (failed : List FeedBuffer.Attempt) (calls : List Call),
      options.autoGrow = true → options.dumpFolder = none →
      FeedBuffer.Past start.buffer frame failed →
      start.tally = { mode := start.buffer.mode, capacity := start.buffer.capacity } →
      (∀ call ∈ calls, call.Within) →
      let capacity := start.buffer.capacity
      let sizes := calls.map (·.span.size)
      (∀ index call, calls[index]? = some call → ∃ before after,
        (calls.take index).forM (Call.take options format) start = .ok () before ∧
        call.take options format before = .ok () after ∧
        (feed true call.span before.buffer call.state).1 =
          .ok (decide (Exceeds capacity (sizes.take index) call.span.size)) ∧
        after.buffer.frameBytes = call.span.bytes call.data ∧
        after.buffer.capacity = (sizes.take (index + 1)).foldl max capacity) ∧
      ∃ done, calls.forM (Call.take options format) start = .ok () done ∧
        done.tally.grows = records capacity sizes ∧
        done.tally.capacity = sizes.foldl max capacity) ∧
    ∀ (options : Options) (disk : Disk), options.autoGrow = true →
      (∀ failure, (work options disk).result = .error failure → ¬LacksRoom failure) ∧
      ∀ (data : ByteArray) (report : Report), disk.medium options.input = .ok (.ofFile data) →
        data.size + 2 < 0x8000_0000_0000_0000 → (work options disk).result = .ok report →
        Apart options report.format report.tally.frames →
        ∃ spans,
          (∀ window, (Splitter.ofFormat report.format).Runs
            { cursor := .ofMedium (.ofBytes data) window } spans (.ok none)) ∧
          report.tally.frames = spans.length ∧
          report.tally.grows = records (chooseCapacity options report.sps) (spans.map Span.size) ∧
          report.tally.capacity =
            (spans.map Span.size).foldl max (chooseCapacity options report.sps) := by
  refine ⟨fun span buffer state failure hFailure => ?_, ?_, fun options disk hGrow =>
    ⟨fun failure => work_growing_error hGrow, fun data report => work_growing_ok hGrow⟩⟩
  · exact feed_growing_error (Prod.ext hFailure rfl)
  · intro options format start frame failed calls hGrow hDump hPast hTally hCalls
    have hStart : Grown start.buffer.capacity [] start.buffer start.tally :=
      hTally ▸ grown_none hPast.placed
    refine ⟨fun index call hCall => ?_, ?_⟩
    · have hEarlier : ∀ other ∈ calls.take index, other.Within := fun other hOther =>
        hCalls other (List.mem_of_mem_take hOther)
      obtain ⟨before, hBefore, hGrown⟩ := hStart.takeAll format hGrow hDump hEarlier
      have hWithin := hCalls call (List.mem_of_getElem? hCall)
      obtain ⟨after, hTake⟩ := hWithin.take hGrown.placed format hGrow hDump
      obtain ⟨grew, fed, hTaken⟩ := takeFrame_ok hTake
      obtain ⟨hGrew, hBytes, hAfter⟩ := hTaken.grown hGrow hGrown
      rw [List.nil_append, List.map_take] at hGrew hAfter
      refine ⟨before, after, hBefore, hTake, hGrew, hBytes, ?_⟩
      rw [hAfter.capacity_eq, List.take_add_one, List.getElem?_map, hCall]
      rfl
    · obtain ⟨done, hDone, hGrown⟩ := hStart.takeAll format hGrow hDump hCalls
      exact ⟨done, hDone, hGrown.grows_eq, hGrown.reported_eq.trans hGrown.capacity_eq⟩

/-- Some spans of sixteen bytes, which are neither in order nor apart. -/
def fiveSpans : List Span := [⟨0, 3⟩, ⟨3, 8⟩, ⟨8, 12⟩, ⟨2, 7⟩, ⟨9, 16⟩]

def fiveCalls : List Call :=
  fiveSpans.map fun span => ⟨span, { cursor := .ofMedium (.ofBytes FeedBuffer.sixteenBytes) 16 }⟩

theorem within_fiveCalls : ∀ call ∈ fiveCalls, call.Within := by
  intro call hCall
  obtain ⟨span, hSpan, rfl⟩ := List.mem_map.mp hCall
  have hSize : FeedBuffer.sixteenBytes.size < 0x8000_0000_0000_0000 := by decide
  have hStands := Cursor.standsAt_ofMedium (Medium.steady_ofBytes hSize) 16
  have hInside : ∀ span ∈ fiveSpans, span.start ≤ span.stop ∧ span.stop ≤ 16 := by decide
  obtain ⟨hStart, hStop⟩ := hInside span hSpan
  exact ⟨⟨_, _, _, hStands⟩, hStart, hStop⟩

/-- A run through a ring of four bytes, before its first frame. -/
def ringOfFour : Job where
  reading := { cursor := .ofMedium (.ofBytes FeedBuffer.sixteenBytes) 16 }
  splitter := Splitter.ofFormat .mjpeg
  buffer := .ofCapacity .ring 4 0
  disk := ⟨[]⟩
  tally := { mode := .ring, capacity := 4 }

/-- A ring of four bytes grows for the second frame and for the last one. The program's run through
a buffer of three bytes grows once. -/
theorem growth_counted_fiveCalls :
    (∃ done,
      fiveCalls.forM (Call.take { growingOptions with dumpFolder := none } .mjpeg) ringOfFour =
        .ok () done ∧ done.tally.grows = 2 ∧ done.tally.capacity = 7) ∧
      ∃ spans,
        (∀ window, (Splitter.ofFormat (.nal .h264)).Runs
          { cursor := .ofMedium (.ofBytes AccessUnit.twoPictures) window } spans (.ok none)) ∧
        spans.length = 2 ∧ records 3 (spans.map Span.size) = 1 ∧
        (spans.map Span.size).foldl max 3 = 5 := by
  obtain ⟨-, hCalls, hRuns⟩ := growth_counted
  have hFour : ringOfFour.buffer.capacity = 4 := FeedBuffer.size_filled 0 4
  constructor
  · obtain ⟨-, done, hDone, hGrows, hCapacity⟩ :=
      hCalls { growingOptions with dumpFolder := none } .mjpeg ringOfFour _ _ fiveCalls rfl rfl
        (.made (FeedBuffer.filled 0 4) .ring 0) (by rw [hFour]; rfl) within_fiveCalls
    rw [hFour] at hGrows hCapacity
    have hRecords : records 4 (fiveCalls.map (·.span.size)) = 2 := by decide +kernel
    have hLargest : (fiveCalls.map (·.span.size)).foldl max 4 = 7 := by decide +kernel
    exact ⟨done, hDone, hGrows.trans hRecords, hCapacity.trans hLargest⟩
  · obtain ⟨spans, hSpans, hFrames, hGrown, hLast⟩ :=
      (hRuns growingOptions pictureDisk rfl).2 AccessUnit.twoPictures growingReport (by rfl)
        (by decide) (ok_of_toOption (by decide +kernel)) fun _ _ _ _ => framePath_apart_picture
    exact ⟨spans, hSpans, hFrames.symm, hGrown.symm, hLast.symm⟩

end FrameFeed.Run
