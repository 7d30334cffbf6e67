import FrameFeed.Proofs.FeedBuffer.Feeding
import FrameFeed.Proofs.Session.Blind
import FrameFeed.Proofs.Splitter.Mending

/-! A failure of the medium is never mistaken for the end of the stream. Up to the first failure,
the frames of a stream whose medium fails are those of the stream over a medium that does not. -/

namespace FrameFeed

open EStateM (Result)

/-! ### Media that fail from a place on -/

/-- The medium that hands over the pieces of another one as far as `bad` and fails from there
on. -/
def Medium.failingFrom (medium : Medium) (bad : Nat) (fault : IoFault) : Medium :=
  { medium with
    serve := fun turn position wanted =>
      if bad ≤ position then .error fault
      else (medium.serve turn position wanted).map (min · (bad - position)) }

theorem Medium.Steady.delivers {medium : Medium} {reach : Nat} (h : medium.Steady reach)
    (bad : Nat) (fault : IoFault) : (medium.failingFrom bad fault).Delivers := by
  intro turn position wanted served hWanted hServe
  obtain ⟨whole, hWhole, hMedium⟩ := h.serves turn position wanted hWanted
  simp only [failingFrom, hMedium] at hServe
  split at hServe
  · cases hServe
  · cases hServe
    show min whole (bad - position) ≠ 0
    omega

/-- A flaky medium is one that fails from a place on. -/
theorem Medium.ofFlaky_eq (data : ByteArray) (reportedSize chunk : Option Nat) (bad : Nat) :
    ofFlaky data reportedSize chunk (some bad) =
      (ofFlaky data reportedSize chunk none).failingFrom bad (.device "bad sector") := rfl

namespace Splitter

variable {splitter : Splitter} {failing intact : Medium} {reach : Nat} {left right : Reading}

theorem method_call (splitter : Splitter) (reading : Reading) :
    (splitter.call reading).splitter.method = splitter.method := by
  simp only [call]
  split
  · rename_i span? counted after hNext
    obtain ⟨given, middle, -, hRest⟩ := ok_of_bind hNext
    cases given <;> cases hRest <;> rfl
  · rfl

/-- A call that succeeds over the failing medium gives the same over the intact one. -/
theorem call_intact (hMedia : intact.Alike failing.mended)
    (hRoom : splitter.method = .images → intact.Roomy reach)
    (hAlike : Reading.Alike intact failing.mended reach right left.mended)
    {span? : Option Span} (hCall : (splitter.call left).result = .ok span?) :
    (splitter.call right).result = .ok span? ∧
      (splitter.call right).splitter = (splitter.call left).splitter ∧
      Reading.Alike intact failing.mended reach (splitter.call right).reading
        (splitter.call left).reading.mended := by
  simp only [call] at hCall ⊢
  cases hLeft : splitter.next false left with
  | error fault after => rw [hLeft] at hCall; cases hCall
  | ok value after =>
    obtain ⟨given, counted⟩ := value
    rw [hLeft] at hCall
    cases hCall
    obtain ⟨hResult, hAfter⟩ := splitter.blind_next hMedia false hRoom right left.mended hAlike
    rw [splitter.carriesOver_next false hLeft] at hResult hAfter
    cases hRight : splitter.next false right with
    | error fault after' => rw [hRight] at hResult; cases hResult
    | ok value after' =>
      rw [hRight] at hResult hAfter
      cases hResult
      exact ⟨rfl, rfl, hAfter⟩

/-- The results of the first calls for frames. -/
def results (splitter : Splitter) (reading : Reading) : Nat → List (Except Fault (Option Span))
  | 0 => []
  | count + 1 =>
    let first := splitter.call reading
    first.result :: first.splitter.results first.reading count

theorem results_agree (hMedia : intact.Alike failing.mended)
    (hRoom : splitter.method = .images → intact.Roomy reach)
    (hAlike : Reading.Alike intact failing.mended reach right left.mended) (count : Nat) :
    (splitter.results left count).takeWhile Except.isOk <+: splitter.results right count := by
  induction count generalizing splitter left right with
  | zero => exact List.prefix_refl _
  | succ count ih =>
    simp only [results]
    cases hCall : (splitter.call left).result with
    | error fault => exact ⟨_, rfl⟩
    | ok span? =>
      obtain ⟨hResult, hSplitter, hAfter⟩ := call_intact hMedia hRoom hAlike hCall
      rw [hResult, hSplitter, List.takeWhile_cons_of_pos rfl]
      exact List.cons_prefix_cons.mpr
        ⟨rfl, ih (fun hMethod => hRoom (splitter.method_call left ▸ hMethod)) hAfter⟩

/-- Calls for frames over a medium that may fail, up to the first failure, give what they give over
an intact medium with the same data. No failure is taken for the end of the stream or for the end
of a frame, whatever pieces either medium hands over and whatever amounts the refills ask for. -/
theorem interrupted_agrees (hDelivers : failing.Delivers) (hMedia : intact.Alike failing)
    (hIntact : intact.Steady reach) (hRoom : splitter.method = .images → intact.Roomy reach)
    (capacity capacity' count : Nat) :
    (splitter.results { cursor := .ofMedium failing capacity } count).takeWhile Except.isOk <+:
      splitter.results { cursor := .ofMedium intact capacity' } count := by
  have hMended : failing.mended.Steady reach :=
    hDelivers.steady (hMedia.data_eq ▸ hIntact.size_le) hIntact.reach_lt
  have hAlike : Reading.Alike intact failing.mended reach
      { cursor := .ofMedium intact capacity' }
      (Reading.mended { cursor := .ofMedium failing capacity }) :=
    ⟨0, Cursor.standsAt_ofMedium hIntact capacity', Cursor.standsAt_ofMedium hMended capacity⟩
  exact results_agree ⟨hMedia.data_eq, hMedia.reportedSize_eq⟩ hRoom hAlike count

/-- Two images in pieces of two bytes, from a medium that fails inside the second one. -/
def flakyImages : Medium := .ofFlaky FeedBuffer.twoImages (some 8) (some 2) (some 6)

theorem interrupted_agrees_flakyImages :
    ((ofFormat .mjpeg).results { cursor := .ofMedium flakyImages 16 } 3).takeWhile Except.isOk <+:
        (ofFormat .mjpeg).results { cursor := .ofMedium (.ofBytes FeedBuffer.twoImages) 32 } 3 ∧
      ((ofFormat .mjpeg).results { cursor := .ofMedium flakyImages 16 } 2).map Except.toOption =
        [some (some ⟨0, 4⟩), none] := by
  have hFlaky : (Medium.ofFlaky FeedBuffer.twoImages (some 8) (some 2) none).Steady
      0x7fff_ffff_ffff_ffff :=
    Medium.steady_ofFlaky (by decide) (by decide)
  have hDelivers : flakyImages.Delivers := by
    rw [flakyImages, Medium.ofFlaky_eq]
    exact hFlaky.delivers 6 _
  have hMedia : (Medium.ofBytes FeedBuffer.twoImages).Alike flakyImages := ⟨rfl, rfl⟩
  have hIntact : (Medium.ofBytes FeedBuffer.twoImages).Steady 0x7fff_ffff_ffff_ffff :=
    Medium.steady_ofBytes (by decide)
  have hRoom : (Medium.ofBytes FeedBuffer.twoImages).Roomy 0x7fff_ffff_ffff_ffff :=
    Medium.roomy_ofBytes (by decide)
  exact ⟨interrupted_agrees hDelivers hMedia hIntact (fun _ => hRoom) 16 32 3, by decide +kernel⟩

end Splitter

end FrameFeed
