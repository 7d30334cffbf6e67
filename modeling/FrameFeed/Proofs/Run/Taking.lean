import FrameFeed.Proofs.FeedBuffer.Mending
import FrameFeed.Proofs.Run.Files
import FrameFeed.Proofs.Run.Opening
import FrameFeed.Proofs.Run.Working
import FrameFeed.Proofs.Splitter.Frames
import FrameFeed.Proofs.Splitter.Mending

/-! Taking frames. Each frame that is found is the next one along the data; it is fed through the
buffer, counted, and written to its file as it stands in the data. -/

namespace FrameFeed.Run

open EStateM (Result)

variable {medium : Medium} {reach offset : Nat}

/-! ### One frame -/

variable {buffer filled : FeedBuffer} {span : Span}

/-- A frame that has been fed is in the buffer whole, whether the buffer had to grow or not, and
the stream stands at its end. -/
theorem feed_ok {state after : Reading} (h : StandsAt medium reach offset state)
    (hPlace : buffer.frameStop ≤ buffer.capacity) (hSpan : span.start ≤ span.stop)
    (hStop : span.stop ≤ medium.data.size) {autoGrow grew : Bool}
    (hFeed : feed autoGrow span buffer state = (.ok grew, filled, after)) :
    filled.frameBytes = span.bytes medium.data ∧ filled.frameStop ≤ filled.capacity ∧
      StandsAt medium reach span.stop after := by
  obtain ⟨cursor, notes⟩ := state
  simp only [feed] at hFeed
  split at hFeed
  · rename_i hFill
    cases hFeed
    obtain ⟨hHolds, hAfter⟩ := FeedBuffer.fill_holds h hPlace hSpan hStop hFill
    exact ⟨hHolds.frameBytes_eq, hHolds.capacity_eq ▸ hHolds.frameStop_le, hAfter⟩
  · rename_i required capacity left moved hSmall
    obtain ⟨rfl, rfl, rfl, hRequired⟩ := FeedBuffer.fill_needLarger hSmall
    split at hFeed
    · split at hFeed
      · rename_i hFill
        cases hFeed
        have hGrown : (left.grow span.size).frameStop ≤ (left.grow span.size).capacity := by
          rw [FeedBuffer.grow_of_lt hRequired]
          exact Nat.zero_le _
        obtain ⟨hHolds, hAfter⟩ := FeedBuffer.fill_holds h hGrown hSpan hStop hFill
        exact ⟨hHolds.frameBytes_eq, hHolds.capacity_eq ▸ hHolds.frameStop_le, hAfter⟩
      · cases hFeed
    · cases hFeed
  · cases hFeed

/-- A frame that is found is the next one along the data, and the stream stands behind it. -/
theorem next_ok {splitter counted : Splitter} {state after : Reading} {span? : Option Span}
    (hRoom : splitter.method = .images → medium.Roomy reach)
    (h : StandsAt medium reach offset state)
    (hNext : splitter.next false state = .ok (span?, counted) after) :
    ∃ place, Splitter.outcome splitter.method medium offset = .ok span? place ∧
      counted.method = splitter.method ∧ StandsAt medium reach place after := by
  have hMended := splitter.carriesOver_next false hNext
  have hStands : state.mended.cursor.StandsAt medium reach offset := h
  obtain ⟨hResult, hSplitter, hAfter⟩ := Splitter.call_standsAt hRoom hStands rfl
  simp only [Splitter.call, hMended] at hResult hSplitter hAfter
  cases hPlain : Splitter.outcome splitter.method medium offset with
  | error fault place => rw [hPlain] at hResult; cases hResult
  | ok found place =>
    rw [hPlain] at hResult hAfter
    cases hResult
    exact ⟨place, rfl, hSplitter ▸ splitter.method_counted _, hAfter⟩

variable {options : Options} {format : Format} {folder : String} {method : Splitter.Method}
  {spans : List Span} {job after : Job}

/-- The pieces of the stream that rows are about. -/
def piecesOf (rows : List FrameRow) : List (Nat × Nat) := rows.map fun row => (row.offset, row.size)

theorem piecesOf_push (rows : Array FrameRow) (row : FrameRow) :
    piecesOf (rows.push row).toList = piecesOf rows.toList ++ [(row.offset, row.size)] := by
  rw [Array.toList_push, piecesOf, List.map_append]
  rfl

/-- What has happened when a frame has been taken: it has been fed, counted, listed if asked for,
and written to its file if there is a folder for it. A file in the place of the input is what is
read from then on. -/
structure Taken (options : Options) (format : Format) (span : Span) (job after : Job) (grew : Bool)
    (fed : Reading) : Prop where
  feed_eq : feed options.autoGrow span job.buffer job.reading = (.ok grew, after.buffer, fed)
  splitter_eq : after.splitter = job.splitter
  tally_eq : after.tally = Tally.count job.tally span.size after.buffer.capacity grew
    (after.buffer.segments.2.size ≠ 0)
  rows_eq : piecesOf after.rows.toList = piecesOf job.rows.toList ++
    if options.showFrames then [(span.start, span.size)] else []
  kept : options.dumpFolder = none → after.reading = fed ∧ after.disk = job.disk
  written : ∀ folder, options.dumpFolder = some folder →
    job.disk.write (framePath folder format job.tally.frames) after.buffer.frameBytes =
      .ok after.disk ∧
    after.reading =
      if after.disk.samePlace (framePath folder format job.tally.frames) options.input then
        replaceInput after.buffer.frameBytes fed
      else fed

theorem takeFrame_ok (h : takeFrame options format span job = .ok () after) :
    ∃ grew fed, Taken options format span job after grew fed := by
  obtain ⟨state, splitter, buffer, disk, tally, rows⟩ := job
  have hRows (row : FrameRow) (hRow : (row.offset, row.size) = (span.start, span.size)) :
      piecesOf (if options.showFrames then rows.push row else rows).toList =
        piecesOf rows.toList ++ if options.showFrames then [(span.start, span.size)] else [] := by
    split
    · rw [piecesOf_push, hRow]
    · exact (List.append_nil _).symm
  simp only [takeFrame] at h
  split at h
  · cases h
  · rename_i grew filled fed hFeed
    split at h
    · rename_i hDump
      cases h
      refine ⟨grew, fed, hFeed, rfl, rfl, hRows _ rfl, fun _ => ⟨rfl, rfl⟩, ?_⟩
      intro folder hFolder
      cases hDump.symm.trans hFolder
    · rename_i folder hDump
      split at h
      · cases h
      · rename_i written hWrite
        cases h
        refine ⟨grew, fed, hFeed, rfl, rfl, hRows _ rfl, fun hNone => ?_, fun other hOther => ?_⟩
        · cases hDump.symm.trans hNone
        · cases hDump.symm.trans hOther
          exact ⟨hWrite, rfl⟩

theorem Taken.frames_eq {grew : Bool} {fed : Reading}
    (h : Taken options format span job after grew fed) :
    after.tally.frames = job.tally.frames + 1 := by
  rw [h.tally_eq]
  rfl

/-- None of so many frames is written to the place of the input. -/
def Apart (options : Options) (format : Format) (frames : Nat) : Prop :=
  ∀ folder, options.dumpFolder = some folder → ∀ index < frames,
    Disk.target (framePath folder format index) ≠ Disk.target options.input

theorem Taken.reading_eq {grew : Bool} {fed : Reading}
    (h : Taken options format span job after grew fed)
    (hApart : Apart options format after.tally.frames) : after.reading = fed := by
  cases hDump : options.dumpFolder with
  | none => exact (h.kept hDump).1
  | some folder =>
    have hNumber : job.tally.frames < after.tally.frames := by
      rw [h.frames_eq]
      exact Nat.lt_succ_self _
    rw [(h.written folder hDump).2, Disk.samePlace_eq_false (hApart folder hDump _ hNumber)]
    rfl

/-! ### Frame after frame -/

/-- A run between two frames, at an offset of the stream. -/
structure At (job : Job) (method : Splitter.Method) (medium : Medium) (reach offset : Nat) :
    Prop where
  stands : StandsAt medium reach offset job.reading
  method_eq : job.splitter.method = method
  place_le : job.buffer.frameStop ≤ job.buffer.capacity

/-- A frame that is taken has been fed whole, and the stream stands behind it. -/
theorem At.takeFrame (h : At job method medium reach offset) (hSpan : span.start ≤ span.stop)
    (hStop : span.stop ≤ medium.data.size) (hApart : Apart options format after.tally.frames)
    (hTake : takeFrame options format span job = .ok () after) :
    after.buffer.frameBytes = span.bytes medium.data ∧ At after method medium reach span.stop := by
  obtain ⟨grew, fed, hTaken⟩ := takeFrame_ok hTake
  obtain ⟨hBytes, hPlace, hFed⟩ := feed_ok h.stands h.place_le hSpan hStop hTaken.feed_eq
  exact ⟨hBytes, hTaken.reading_eq hApart ▸ hFed,
    (congrArg Splitter.method hTaken.splitter_eq).trans h.method_eq, hPlace⟩

/-- The frames that a run takes one after another to the end of the stream: each is the next one
along the data and has been fed whole. -/
inductive Takes (options : Options) (format : Format) (method : Splitter.Method) (medium : Medium) :
    Nat → Job → List Span → Job → Prop
  | ended {offset place : Nat} {job : Job} {reading : Reading} {splitter : Splitter} :
      Splitter.outcome method medium offset = .ok none place →
      Takes options format method medium offset job [] { job with reading, splitter }
  | cons {offset : Nat} {span : Span} {spans : List Span} {job middle after : Job}
      {reading : Reading} {splitter : Splitter} :
      Splitter.outcome method medium offset = .ok (some span) span.stop →
      takeFrame options format span { job with reading, splitter } = .ok () middle →
      middle.buffer.frameBytes = span.bytes medium.data →
      Takes options format method medium span.stop middle spans after →
      Takes options format method medium offset job (span :: spans) after

theorem Takes.frames (h : Takes options format method medium offset job spans after) :
    Splitter.Frames method medium offset spans := by
  induction h with
  | ended hEnd => exact .ended hEnd
  | cons hSpan _ _ _ ih => exact .cons hSpan ih

theorem frames_takeFrames_le {limit : Nat}
    (h : takeFrames options format limit job = .ok () after) :
    job.tally.frames ≤ after.tally.frames := by
  induction limit generalizing job with
  | zero =>
    cases h
    exact Nat.le_refl _
  | succ limit ih =>
    simp only [takeFrames] at h
    split at h
    · cases h
    · cases h
      exact Nat.le_refl _
    · split at h
      · cases h
      · rename_i middle hTake
        obtain ⟨grew, fed, hTaken⟩ := takeFrame_ok hTake
        have hFrames := hTaken.frames_eq
        have hLater := ih h
        simp only at hFrames
        omega

theorem Apart.mono {frames more : Nat} (h : Apart options format more) (hLe : frames ≤ more) :
    Apart options format frames :=
  fun folder hFolder index hIndex => h folder hFolder index (Nat.lt_of_lt_of_le hIndex hLe)

/-- Taking frames to the end of the stream takes all of them. -/
theorem takeFrames_ok (hRoom : method = .images → medium.Roomy reach)
    (hApart : Apart options format after.tally.frames) {limit : Nat}
    (h : At job method medium reach offset) (hOffset : offset ≤ medium.data.size)
    (hLimit : medium.data.size < offset + limit)
    (hTake : takeFrames options format limit job = .ok () after) :
    ∃ spans, Takes options format method medium offset job spans after := by
  -- Each frame has a byte, so that the limit is never reached before the end.
  induction limit generalizing job offset with
  | zero => omega
  | succ limit ih =>
    have hRoom' : job.splitter.method = .images → medium.Roomy reach := fun hMethod =>
      hRoom (h.method_eq ▸ hMethod)
    simp only [takeFrames] at hTake
    split at hTake
    · cases hTake
    · rename_i counted ended hNext
      cases hTake
      obtain ⟨place, hPlain, -⟩ := next_ok hRoom' h.stands hNext
      exact ⟨[], .ended (h.method_eq ▸ hPlain)⟩
    · rename_i span counted found hNext
      obtain ⟨place, hPlain, hCounted, hFound⟩ := next_ok hRoom' h.stands hNext
      obtain ⟨rfl, hNonempty, hStop⟩ := Splitter.outcome_some hPlain
      have hStart := Splitter.outcome_start hPlain
      split at hTake
      · cases hTake
      · rename_i middle hTaken
        have hAt : At { job with reading := found, splitter := counted } method medium reach
            span.stop :=
          ⟨hFound, hCounted.trans h.method_eq, h.place_le⟩
        obtain ⟨hBytes, hMiddle⟩ := hAt.takeFrame (Nat.le_of_lt hNonempty) hStop
          (hApart.mono (frames_takeFrames_le hTake)) hTaken
        obtain ⟨rest, hRest⟩ := ih hMiddle hStop (by omega) hTake
        exact ⟨span :: rest, .cons (h.method_eq ▸ hPlain) hTaken hBytes hRest⟩

/-! ### Frames that are dumped -/

/-- What taking frames adds to a run: they are counted, listed if asked for, and written to their
files. -/
structure Took (options : Options) (format : Format) (folder : String) (data : ByteArray)
    (spans : List Span) (job after : Job) : Prop where
  frames_eq : after.tally.frames = job.tally.frames + spans.length
  bytes_eq : after.tally.bytes = (spans.map Span.size).foldl (· + ·) job.tally.bytes
  largest_eq : after.tally.largest = (spans.map Span.size).foldl max job.tally.largest
  rows_eq : piecesOf after.rows.toList = piecesOf job.rows.toList ++
    if options.showFrames then spans.map fun span => (span.start, span.size) else []
  wrote : Wrote folder format data job.tally.frames spans job.disk after.disk

theorem Taken.took {data : ByteArray} {grew : Bool} {fed : Reading} {middle : Job}
    (h : Taken options format span job middle grew fed) (hDump : options.dumpFolder = some folder)
    (hBytes : middle.buffer.frameBytes = span.bytes data)
    (hRest : Took options format folder data spans middle after) :
    Took options format folder data (span :: spans) job after where
  frames_eq := by
    rw [hRest.frames_eq, h.frames_eq, List.length_cons]
    omega
  bytes_eq := by
    rw [hRest.bytes_eq, h.tally_eq]
    rfl
  largest_eq := by
    rw [hRest.largest_eq, h.tally_eq]
    rfl
  rows_eq := by
    rw [hRest.rows_eq, h.rows_eq, List.append_assoc]
    split <;> rfl
  wrote := by
    have hWrote := hRest.wrote
    rw [h.frames_eq] at hWrote
    exact .cons (hBytes ▸ (h.written folder hDump).1) hWrote

theorem Takes.took (h : Takes options format method medium offset job spans after)
    (hDump : options.dumpFolder = some folder) :
    Took options format folder medium.data spans job after := by
  induction h with
  | ended =>
    refine ⟨rfl, rfl, rfl, ?_, .none⟩
    split <;> exact (List.append_nil _).symm
  | @cons offset span spans job middle after reading splitter _ hTake hBytes _ ih =>
    obtain ⟨grew, fed, hTaken⟩ := takeFrame_ok hTake
    -- It began with the reading and the splitter after the search, which nothing here is about.
    have hTook := hTaken.took hDump hBytes ih
    exact ⟨hTook.frames_eq, hTook.bytes_eq, hTook.largest_eq, hTook.rows_eq, hTook.wrote⟩

/-! ### The frames of a file -/

theorem delivers_ofFile (data : ByteArray) : (Medium.ofFile data).Delivers := by
  intro turn position wanted served hWanted hServe
  cases hServe
  exact hWanted

/-- A run that succeeds on a file has taken all the frames of its data. -/
theorem work_ok {data : ByteArray} {disk : Disk} {report : Report}
    (hInput : disk.medium options.input = .ok (.ofFile data))
    (hSize : data.size + 2 < 0x8000_0000_0000_0000) (h : (work options disk).result = .ok report)
    (hApart : Apart options report.format report.tally.frames) :
    ∃ spans seen made job,
      Takes options report.format (Splitter.ofFormat report.format).method
        (Medium.ofFile data).mended 0 (firstJob options report.format report.sps seen made) spans
        job ∧
      (∀ folder, options.dumpFolder = some folder → disk.createFolder folder = .ok made) ∧
      (work options disk).disk = job.disk ∧ report.tally = job.tally ∧
      report.rows = if options.showFrames then some job.rows.toList else none := by
  have hWork : work options disk =
      workOn options (.ofFile data) #[.inputNamed options.input] disk := by
    simp only [work, hInput]
  rw [hWork] at h ⊢
  obtain ⟨opened, seen, made, job, hOpens, hTake, hDisk, hTally, hRows⟩ := workOn_ok h
  -- The system may refuse offsets far out, but no step of this run has been refused one.
  have hSteady : (Medium.ofFile data).mended.Steady 0x7fff_ffff_ffff_ffff :=
    (delivers_ofFile data).steady (show data.size ≤ _ by omega) (by decide)
  have hRoom : (Medium.ofFile data).mended.Roomy 0x7fff_ffff_ffff_ffff := by
    refine ⟨fun size hReported => ?_, Nat.le_pred_of_lt hSize, fun hNone => nomatch hNone⟩
    cases hReported
    rfl
  have hOpened := keepsOnSuccess_chooseFormat options hOpens.format_eq
    (Cursor.standsAt_ofMedium hSteady Cursor.defaultCapacity)
  have hSeen : StandsAt (Medium.ofFile data).mended 0x7fff_ffff_ffff_ffff 0 seen := by
    have hSps := hOpens.sps_eq
    split at hSps
    · exact keepsOnSuccess_findSps hSps hOpened
    · exact keepsOnSuccess_pure _ hSps hOpened
  obtain ⟨spans, hTakes⟩ := takeFrames_ok (fun _ => hRoom) (hTally ▸ hApart)
    ⟨hSeen, rfl, Nat.zero_le _⟩ (Nat.zero_le _)
    (by show data.size < 0 + (data.size + 1); omega) hTake
  exact ⟨spans, seen, made, job, hTakes, hOpens.made_eq, hDisk, hTally, hRows⟩

end FrameFeed.Run
