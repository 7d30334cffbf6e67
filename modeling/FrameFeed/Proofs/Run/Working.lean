import FrameFeed.Proofs.Catalog.Comparing
import FrameFeed.Proofs.Steps
import FrameFeed.Run

/-! What has happened in a run, taken apart from its result: what was told before the first frame,
and the taking of frames from there. -/

namespace FrameFeed.Run

open EStateM (Result)

variable {options : Options} {medium : Medium} {notes : Array Note} {disk : Disk}
  {report : Report} {failure : Failure}

theorem mapError_ok {Error Error' Value : Type} {result : Except Error Value} {value : Value}
    {wrap : Error → Error'} (h : result.mapError wrap = .ok value) : result = .ok value := by
  cases result with
  | ok =>
    cases h
    rfl
  | error => cases h

theorem mapError_error {Error Error' Value : Type} {result : Except Error Value} {error' : Error'}
    {wrap : Error → Error'} (h : result.mapError wrap = .error error') :
    ∃ error, error' = wrap error := by
  cases result with
  | ok => cases h
  | error error =>
    cases h
    exact ⟨error, rfl⟩

/-- A run before its first frame. -/
def firstJob (options : Options) (format : Format) (sps : Option Sps) (reading : Reading)
    (disk : Disk) : Job :=
  let mode : FeedMode := if options.ring then .ring else .linear
  let capacity := chooseCapacity options sps
  { reading, splitter := Splitter.ofFormat format, buffer := .ofCapacity mode capacity 0, disk
    tally := { mode, capacity } }

/-- What has been told of the stream, and the folder that has been made, when the first frame is
looked for. -/
structure Opens (options : Options) (medium : Medium) (notes : Array Note) (disk : Disk)
    (format : Format) (score : Option Nat) (sps : Option Sps) (opened seen : Reading)
    (made : Disk) : Prop where
  format_eq : chooseFormat options { cursor := .ofMedium medium Cursor.defaultCapacity, notes } =
    .ok (format, score) opened
  sps_eq : (if format = .nal .h264 then findSps else pure none)
    { opened with notes := opened.notes.push (.formatChosen format score) } = .ok sps seen
  made_eq : ∀ folder, options.dumpFolder = some folder → disk.createFolder folder = .ok made

/-- What has happened in a run that has succeeded. -/
theorem workOn_ok (h : (workOn options medium notes disk).result = .ok report) :
    ∃ opened seen made job,
      Opens options medium notes disk report.format report.score report.sps opened seen made ∧
      takeFrames options report.format (medium.data.size + 1)
        (firstJob options report.format report.sps seen made) = .ok () job ∧
      (workOn options medium notes disk).disk = job.disk ∧ report.tally = job.tally ∧
      report.rows = if options.showFrames then some job.rows.toList else none := by
  unfold workOn at h ⊢
  dsimp only at h ⊢
  split at h
  · cases h
  · rename_i format score opened hFormat
    split at h
    · cases h
    · rename_i sps seen hSps
      rw [Catalog.make_standard] at h
      simp only at h
      split at h
      · cases h
      · rename_i made hMade
        split at h
        · cases h
        · rename_i job hTake
          cases h
          simp only [Catalog.make_standard, hTake]
          refine ⟨opened, seen, made, job, ⟨hFormat, hSps, ?_⟩, hTake, rfl, rfl, rfl⟩
          intro folder hSome
          rw [hSome] at hMade
          exact mapError_ok hMade

/-! ### Runs that fail -/

/-- A failure that comes before the first frame is looked for. -/
def Early : Failure → Prop
  | .openInput .. | .unknownFormat _ | .probe _ | .head _ | .splitter _ | .dumpFolder .. => True
  | .frame .. | .tooSmall _ | .feed .. | .feedGrown .. | .dumpFile .. => False

theorem failsOnly_reading {Value : Type} {wrap : Fault → Failure} (step : Reading.Action Value)
    (h : ∀ fault, Early (wrap fault)) : FailsOnly Early (reading wrap step) := by
  intro state failure after hStep
  simp only [reading] at hStep
  split at hStep <;> cases hStep
  exact h _

theorem failsOnly_chooseFormat (options : Options) : FailsOnly Early (chooseFormat options) := by
  unfold chooseFormat
  split
  · split
    · exact failsOnly_pure _
    · exact failsOnly_throw trivial
  · refine (failsOnly_reading _ ?_).bind fun _ => failsOnly_pure _
    exact fun fault => trivial

theorem failsOnly_remark (note : Note) : FailsOnly Early (remark note) :=
  fun _ _ _ h => nomatch h

theorem failsOnly_findSps : FailsOnly Early findSps := by
  refine (failsOnly_reading _ ?_).bind fun bytes => ?_
  · exact fun fault => trivial
  split
  · exact (failsOnly_remark _).bind fun _ => failsOnly_pure _
  · exact failsOnly_pure _
  · split
    · exact (failsOnly_remark _).bind fun _ => failsOnly_pure _
    · exact (failsOnly_pure _).bind fun _ => failsOnly_pure _

/-- A run fails before it looks for a frame, or in taking one. -/
theorem workOn_error (h : (workOn options medium notes disk).result = .error failure) :
    Early failure ∨ ∃ format sps seen made job,
      takeFrames options format (medium.data.size + 1)
        (firstJob options format sps seen made) = .error failure job := by
  unfold workOn at h
  dsimp only at h
  split at h
  · rename_i hFormat
    cases h
    exact .inl (failsOnly_chooseFormat options hFormat)
  · rename_i format score opened hFormat
    split at h
    · rename_i hSps
      cases h
      split at hSps
      · exact .inl (failsOnly_findSps hSps)
      · cases hSps
    · rename_i sps seen hSps
      rw [Catalog.make_standard] at h
      simp only at h
      split at h
      · rename_i hMade
        cases h
        split at hMade
        · cases hMade
        · obtain ⟨error, rfl⟩ := mapError_error hMade
          exact .inl trivial
      · rename_i made hMade
        split at h
        · rename_i job hTake
          cases h
          exact .inr ⟨format, sps, seen, made, job, hTake⟩
        · cases h

end FrameFeed.Run
