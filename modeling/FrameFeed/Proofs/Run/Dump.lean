import FrameFeed.Proofs.AccessUnit.Frames
import FrameFeed.Proofs.Catalog.Comparing
import FrameFeed.Proofs.Run.Taking
import FrameFeed.Proofs.Run.Working

/-! A run that succeeds reports and dumps exactly the stream. -/

namespace FrameFeed.Run

open EStateM (Result)

variable {medium : Medium} {options : Options} {folder : String}

theorem chooseFormat_congr {other : Options} (hInput : other.input = options.input)
    (hFormat : other.format = options.format) : chooseFormat other = chooseFormat options := by
  simp only [chooseFormat, hInput, hFormat]

/-- A run that has succeeded on a file and has dumped its frames into a folder. No frame has been
written to the file's own place. -/
structure Succeeds (options : Options) (disk : Disk) (data : ByteArray) (folder : String)
    (report : Report) : Prop where
  input_eq : disk.medium options.input = .ok (.ofFile data)
  folder_eq : options.dumpFolder = some folder
  result_eq : (work options disk).result = .ok report
  apart : ∀ index < report.tally.frames,
    Disk.target (framePath folder report.format index) ≠ Disk.target options.input

variable {data : ByteArray} {disk : Disk} {report : Report}

theorem Succeeds.format_eq {other : Options} {disk' : Disk} {folder' : String} {report' : Report}
    (hOther : Succeeds other disk' data folder' report')
    (h : Succeeds options disk data folder report) (hInput : other.input = options.input)
    (hFormat : other.format = options.format) : report'.format = report.format := by
  have hResult := h.result_eq
  have hResult' := hOther.result_eq
  simp only [work, h.input_eq] at hResult
  simp only [work, hOther.input_eq] at hResult'
  obtain ⟨opened, seen, made, job, hOpens, -⟩ := workOn_ok hResult
  obtain ⟨opened', seen', made', job', hOpens', -⟩ := workOn_ok hResult'
  have hChosen := hOpens.format_eq
  have hChosen' := hOpens'.format_eq
  rw [chooseFormat_congr hInput hFormat, hInput] at hChosen'
  exact (Prod.mk.inj (Result.ok.inj (hChosen'.symm.trans hChosen)).1).1

/-- A report and a dump that are exactly the stream: the frames of the stream, which tile its data
from the first frame to the end, are counted and measured, and each one is in a file of its own.
No other file has changed. -/
structure Dumps (data : ByteArray) (folder : String) (report : Report) (before after : Disk)
    (spans : List Span) : Prop where
  runs : ∀ capacity, (Splitter.ofFormat report.format).Runs
    { cursor := .ofMedium (.ofBytes data) capacity } spans (.ok none)
  tile : ∃ start, Span.Tile start spans data.size
  joined_eq : ∀ first, spans.head? = some first →
    Span.joined data spans = data.extract first.start data.size
  frames_eq : report.tally.frames = spans.length
  bytes_eq : report.tally.bytes = (Span.joined data spans).size
  largest_eq : report.tally.largest =
    (spans.map fun span => (span.bytes data).size).foldl max 0
  rows_eq : ∀ rows, report.rows = some rows →
    piecesOf rows = spans.map fun span => (span.start, span.size)
  apart : ∀ left right, Disk.target (framePath folder report.format left) =
    Disk.target (framePath folder report.format right) → left = right
  file_eq : ∀ index span, spans[index]? = some span →
    after.medium (framePath folder report.format index) = .ok (.ofFile (span.bytes data))
  others : ∀ place, (∀ index < spans.length,
    place ≠ Disk.target (framePath folder report.format index)) → Disk.SameFile before after place

/-- The frames along the data of a file are what the calls of a splitter at its start give, through
any window. -/
theorem frames_ofFile {method : Splitter.Method} {spans : List Span}
    (hSize : data.size + 2 < 0x8000_0000_0000_0000)
    (h : Splitter.Frames method (Medium.ofFile data).mended 0 spans) :
    Splitter.Frames method (.ofBytes data) 0 spans ∧
      ∀ (splitter : Splitter) (capacity : Nat), splitter.method = method →
        splitter.Runs { cursor := .ofMedium (.ofBytes data) capacity } spans (.ok none) := by
  have hMedia : (Medium.ofFile data).mended.Alike (.ofBytes data) := ⟨rfl, rfl⟩
  have hFrames := h.alike hMedia
  have hSteady : (Medium.ofBytes data).Steady 0x7fff_ffff_ffff_ffff :=
    Medium.steady_ofBytes (by omega)
  exact ⟨hFrames, fun splitter capacity hMethod => hFrames.runs hMethod
    (fun _ => Medium.roomy_ofBytes hSize) (Cursor.standsAt_ofMedium hSteady capacity)⟩

theorem Succeeds.apart_frames (h : Succeeds options disk data folder report) :
    Apart options report.format report.tally.frames := by
  intro other hOther
  cases h.folder_eq.symm.trans hOther
  exact h.apart

theorem Succeeds.dumps (h : Succeeds options disk data folder report)
    (hSize : data.size + 2 < 0x8000_0000_0000_0000) :
    ∃ spans, Splitter.Frames (Splitter.ofFormat report.format).method (.ofBytes data) 0 spans ∧
      Dumps data folder report disk (work options disk).disk spans := by
  obtain ⟨spans, seen, made, job, hTakes, hMade, hDisk, hTally, hRows⟩ :=
    work_ok h.input_eq hSize h.result_eq h.apart_frames
  obtain ⟨hSpans, hRuns⟩ := frames_ofFile hSize hTakes.frames
  have hTook := hTakes.took h.folder_eq
  have hWrote : Wrote folder report.format data 0 spans made job.disk := hTook.wrote
  obtain ⟨first, hTile⟩ : ∃ first, Span.Tile first spans data.size :=
    hSpans.tile (Nat.zero_le _)
  refine ⟨spans, hSpans, fun capacity => hRuns _ capacity rfl, ⟨first, hTile⟩, ?_, ?_, ?_, ?_, ?_,
    ?_, ?_, ?_⟩
  · intro head hHead
    cases hTile with
    | none => cases hHead
    | cons hSpan hRest =>
      cases hHead
      exact (Span.Tile.cons hSpan hRest).joined_eq data
  · rw [hTally, hTook.frames_eq]
    exact Nat.zero_add _
  · rw [hTally, hTook.bytes_eq, hTile.size_joined]
    rfl
  · rw [hTally, hTook.largest_eq, hTile.map_size]
    rfl
  · intro rows hSome
    rw [hRows] at hSome
    split at hSome
    · rename_i hShow
      cases hSome
      rw [hTook.rows_eq, if_pos hShow]
      rfl
    · cases hSome
  · exact fun left right => target_framePath_inj
  · intro index span hSpan
    have hFile := hWrote.medium_eq hSpan
    rwa [Nat.zero_add, ← hDisk] at hFile
  · intro place hPlace
    rw [hDisk]
    have hKept : Disk.SameFile made job.disk place :=
      hWrote.sameFile fun index hIndex => by rw [Nat.zero_add]; exact hPlace index hIndex
    have hFolder := Disk.sameFile_createFolder (hMade folder h.folder_eq) place
    exact fun bytes => (hKept bytes).trans (hFolder bytes)

/-- A run that succeeds reports and dumps exactly the stream, and any other run on the same data and
format dumps the same files, whatever its buffer, its folder and the rest of its disk are. -/
theorem dump_exact (hSize : data.size + 2 < 0x8000_0000_0000_0000)
    (h : Succeeds options disk data folder report) :
    (∃ spans, Dumps data folder report disk (work options disk).disk spans) ∧
      ∀ (other : Options) (disk' : Disk) (folder' : String) (report' : Report),
        Succeeds other disk' data folder' report' → other.input = options.input →
        other.format = options.format →
          report'.format = report.format ∧ report'.tally.frames = report.tally.frames ∧
          ∀ index < report.tally.frames,
            (work other disk').disk.medium (framePath folder' report'.format index) =
              (work options disk).disk.medium (framePath folder report.format index) := by
  obtain ⟨spans, hSpans, hDumps⟩ := h.dumps hSize
  refine ⟨⟨spans, hDumps⟩, fun other disk' folder' report' hOther hInput hFormat => ?_⟩
  have hSame := hOther.format_eq h hInput hFormat
  obtain ⟨others, hOthers, hDumps'⟩ := hOther.dumps hSize
  rw [hSame] at hOthers
  cases hSpans.eq hOthers
  refine ⟨hSame, hDumps'.frames_eq.trans hDumps.frames_eq.symm, fun index hIndex => ?_⟩
  rw [hDumps.frames_eq] at hIndex
  have hSpan := List.getElem?_eq_getElem hIndex
  rw [hDumps.file_eq index _ hSpan, hDumps'.file_eq index _ hSpan]

/-- A disk with one file, an H.264 stream of two pictures of five bytes each. -/
def pictureDisk : Disk := ⟨[(["in.264"], .file AccessUnit.twoPictures)]⟩

/-- A run through a ring of seven bytes. -/
def ringOptions : Options :=
  { input := "in.264", bufferSize := some 7, ring := true, dumpFolder := some "out" }

def ringReport : Report where
  path := "in.264"
  format := .nal .h264
  score := some 75
  fileSize := some 10
  sps := none
  tally := { frames := 2, bytes := 10, largest := 5, mode := .ring, capacity := 7, wraps := 1 }
  rows := none

/-- A run through a buffer of three bytes that grows. -/
def growingOptions : Options :=
  { input := "in.264", bufferSize := some 3, autoGrow := true, dumpFolder := some "new/" }

def growingReport : Report :=
  { ringReport with
    tally :=
      { frames := 2, bytes := 10, largest := 5, mode := .linear, capacity := 5, grows := 1 } }

theorem framePath_apart_picture {format : Format} {index : Nat} :
    Disk.target (framePath folder format index) ≠ Disk.target "in.264" :=
  target_framePath_ne (show (Disk.target "in.264").getLast? = some "in.264" by decide +kernel)
    (by decide)

theorem dump_exact_twoPictures :
    (∃ spans, Dumps AccessUnit.twoPictures "out" ringReport pictureDisk
      (work ringOptions pictureDisk).disk spans) ∧
    ∀ index < 2,
      (work growingOptions pictureDisk).disk.medium (framePath "new/" (.nal .h264) index) =
        (work ringOptions pictureDisk).disk.medium (framePath "out" (.nal .h264) index) := by
  have hRing : Succeeds ringOptions pictureDisk AccessUnit.twoPictures "out" ringReport :=
    ⟨by rfl, rfl, ok_of_toOption (by decide +kernel), fun _ _ => framePath_apart_picture⟩
  have hGrowing : Succeeds growingOptions pictureDisk AccessUnit.twoPictures "new/" growingReport :=
    ⟨by rfl, rfl, ok_of_toOption (by decide +kernel), fun _ _ => framePath_apart_picture⟩
  obtain ⟨hDumps, hSame⟩ := dump_exact (by decide) hRing
  exact ⟨hDumps, (hSame _ _ _ _ hGrowing rfl rfl).2.2⟩

end FrameFeed.Run
