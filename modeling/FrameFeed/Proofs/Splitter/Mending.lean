import FrameFeed.Proofs.Cursor.Mending
import FrameFeed.Splitter

/-! Reading a frame carries over from a failing medium to the mended one. Each of the loops on the
way is followed turn by turn. -/

namespace FrameFeed

open EStateM (Result)

/-! ### Start codes and access units -/

namespace StartCode

/-- One window of the search. -/
theorem scanFrom_eq (zeros : Nat) (cursor : Cursor) : scanFrom zeros cursor =
    match cursor.fill with
    | .error fault failed => .error fault failed
    | .ok _ filled =>
      if filled.buffered = 0 then
        .ok none filled
      else
        match scanWindow filled.window filled.used zeros with
        | .found index counted =>
          .ok (some ⟨filled.position + (index - filled.used) - counted, counted⟩)
            (filled.advance (index - filled.used + 1))
        | .exhausted counted => scanFrom counted (filled.advance filled.buffered) := by
  rw [scanFrom]
  split <;> rename_i hFill <;> simp only [hFill]
  rfl

theorem carriesOver_scanFrom (zeros : Nat) : CarriesOver Cursor.mended (scanFrom zeros) := by
  intro cursor code? after h
  fun_induction scanFrom zeros cursor with
  | case1 => cases h
  | case2 zeros cursor _ filled hFill hEnd =>
    cases h
    rw [scanFrom_eq, Cursor.carriesOver_fill hFill]
    exact if_pos hEnd
  | case3 zeros cursor _ filled hFill hEnd index counted hScan =>
    cases h
    rw [scanFrom_eq, Cursor.carriesOver_fill hFill]
    refine (if_neg hEnd).trans ?_
    simp only [Cursor.window_mended, Cursor.used_mended, hScan]
    rfl
  | case4 zeros cursor _ filled hFill hEnd counted hScan _ ih =>
    rw [scanFrom_eq, Cursor.carriesOver_fill hFill]
    refine (if_neg hEnd).trans ?_
    simp only [Cursor.window_mended, Cursor.used_mended, hScan]
    exact ih h

end StartCode

namespace Reading

def mended (reading : Reading) : Reading := { reading with cursor := reading.cursor.mended }

theorem carriesOver_onCursor {Value : Type} {step : Cursor.Action Value}
    (h : CarriesOver Cursor.mended step) : CarriesOver mended (onCursor step) := by
  intro reading value after hStep
  simp only [onCursor] at hStep
  split at hStep
  · rename_i hCursor
    cases hStep
    simp only [onCursor, mended, h hCursor]
  · cases hStep

theorem carriesOver_position : CarriesOver mended position := by
  intro reading place after h
  cases h
  rfl

theorem carriesOver_remark (note : Note) : CarriesOver mended (remark note) := by
  intro reading _ after h
  cases h
  rfl

end Reading

theorem NalClass.carriesOver_peek? (coding : NalCoding) (offset : Nat) :
    CarriesOver Cursor.mended (peek? coding offset) := by
  intro cursor unitClass? after h
  simp only [peek?] at h
  split at h
  · rename_i hPeek
    cases h
    simp only [peek?, Cursor.carriesOver_peekAt _ _ hPeek]
  · cases h

namespace AccessUnit

/-- One unit of the reading of an access unit. -/
theorem stopFrom_eq (coding : NalCoding) (phase : Phase) (code : StartCode) (notes : Array Note)
    (cursor : Cursor) : stopFrom coding phase code notes cursor =
    match NalClass.peek? coding code.nalOffset cursor with
    | .error fault cursor => .error fault { cursor, notes }
    | .ok unitClass peeked =>
      let notes :=
        if unitClass.isNone then notes.push (.headerCut coding code.nalOffset) else notes
      match phase.next code.offset (unitClass.getD .nonSlice) with
      | .cut stop => .ok stop { cursor := peeked, notes }
      | .goOn phase =>
        match StartCode.scan peeked with
        | .error fault cursor => .error fault { cursor, notes }
        | .ok none cursor => .ok cursor.position { cursor, notes }
        | .ok (some next) scanned => stopFrom coding phase next notes scanned := by
  rw [stopFrom]
  split <;> rename_i hPeek <;> simp only [hPeek]
  rename_i unitClass _
  cases phase.next code.offset (unitClass.getD .nonSlice) with
  | cut stop => rfl
  | goOn phase => dsimp only; split <;> rename_i hScan <;> simp only [hScan]

theorem stopFrom_mended {coding : NalCoding} {phase : Phase} {code : StartCode}
    {notes : Array Note} {cursor : Cursor} {stop : Nat} {after : Reading}
    (h : stopFrom coding phase code notes cursor = .ok stop after) :
    stopFrom coding phase code notes cursor.mended = .ok stop after.mended := by
  fun_induction stopFrom coding phase code notes cursor with
  | case1 => cases h
  | case2 phase code notes cursor unitClass peeked hPeek notes' stop hCut =>
    cases h
    rw [stopFrom_eq, NalClass.carriesOver_peek? _ _ hPeek]
    simp only [hCut]
    rfl
  | case3 => cases h
  | case4 phase code notes cursor unitClass peeked hPeek notes' next hGoOn ended hScan =>
    cases h
    rw [stopFrom_eq, NalClass.carriesOver_peek? _ _ hPeek]
    simp only [hGoOn, StartCode.scan, StartCode.carriesOver_scanFrom _ hScan]
    rfl
  | case5 phase code notes cursor unitClass peeked hPeek notes' next hGoOn code' scanned hScan _
      ih =>
    rw [stopFrom_eq, NalClass.carriesOver_peek? _ _ hPeek]
    simp only [hGoOn, StartCode.scan, StartCode.carriesOver_scanFrom _ hScan]
    exact ih h

theorem carriesOver_next (coding : NalCoding) (cancelled : Bool) :
    CarriesOver Reading.mended (next coding cancelled) := by
  refine Reading.carriesOver_position.bind fun origin => ?_
  refine (Reading.carriesOver_onCursor (StartCode.carriesOver_scanFrom 0)).bind fun code? => ?_
  cases code? with
  | none =>
    refine Reading.carriesOver_position.bind fun stop => ?_
    split
    · exact (carriesOver_throw _).bind fun _ => carriesOver_pure _
    · exact (carriesOver_pure _).bind fun _ => carriesOver_pure _
  | some first =>
    have hRest : CarriesOver Reading.mended (do
        let stop ← fun reading => stopFrom coding .leading first reading.notes reading.cursor
        let _ ← Reading.onCursor (Cursor.seek (.fromStart stop))
        if stop ≤ first.offset then
          return none
        return some ⟨first.offset, stop⟩ : Reading.Action (Option Span)) := by
      refine CarriesOver.bind (fun reading stop after h => stopFrom_mended h) fun stop => ?_
      refine (Reading.carriesOver_onCursor (Cursor.carriesOver_seek _)).bind fun _ => ?_
      split <;> exact carriesOver_pure _
    have hRead : CarriesOver Reading.mended (do
        if cancelled then
          throw .cancelled
        let stop ← fun reading => stopFrom coding .leading first reading.notes reading.cursor
        let _ ← Reading.onCursor (Cursor.seek (.fromStart stop))
        if stop ≤ first.offset then
          return none
        return some ⟨first.offset, stop⟩ : Reading.Action (Option Span)) := by
      split
      · exact (carriesOver_throw _).bind fun _ => hRest
      · exact hRest
    dsimp only
    split
    · exact (Reading.carriesOver_remark _).bind fun _ => hRead
    · exact hRead

end AccessUnit

namespace Image

theorem skipToMark_eq (cursor : Cursor) : skipToMark cursor =
    match cursor.fill with
    | .error fault failed => .error fault failed
    | .ok _ filled =>
      if filled.buffered = 0 then
        .ok false filled
      else
        match findMark? filled.window filled.used with
        | some index => .ok true (filled.advance (index - filled.used + 1))
        | none => skipToMark (filled.advance filled.buffered) := by
  rw [skipToMark]
  split <;> rename_i hFill <;> simp only [hFill]
  rfl

theorem carriesOver_skipToMark : CarriesOver Cursor.mended skipToMark := by
  intro cursor found after h
  fun_induction skipToMark cursor with
  | case1 => cases h
  | case2 cursor _ filled hFill hEnd =>
    cases h
    rw [skipToMark_eq, Cursor.carriesOver_fill hFill]
    exact if_pos hEnd
  | case3 cursor _ filled hFill hEnd index hMark =>
    cases h
    rw [skipToMark_eq, Cursor.carriesOver_fill hFill]
    refine (if_neg hEnd).trans ?_
    simp only [Cursor.window_mended, Cursor.used_mended, hMark]
    rfl
  | case4 cursor _ filled hFill hEnd hMark _ ih =>
    rw [skipToMark_eq, Cursor.carriesOver_fill hFill]
    refine (if_neg hEnd).trans ?_
    simp only [Cursor.window_mended, Cursor.used_mended, hMark]
    exact ih h

theorem readCode_eq (cursor : Cursor) : readCode cursor =
    match cursor.fill with
    | .error fault failed => .error fault failed
    | .ok _ filled =>
      if hEnd : filled.used < filled.window.size then
        if filled.window[filled.used] = 0xff then
          readCode (filled.advance 1)
        else
          .ok (some filled.window[filled.used]) (filled.advance 1)
      else
        .ok none filled := by
  rw [readCode]
  split <;> rename_i hFill <;> simp only [hFill]

theorem carriesOver_readCode : CarriesOver Cursor.mended readCode := by
  intro cursor code? after h
  fun_induction readCode cursor with
  | case1 => cases h
  | case2 cursor _ filled hFill hEnd _ hFull ih =>
    rw [readCode_eq, Cursor.carriesOver_fill hFill]
    refine (dif_pos hEnd).trans ((if_pos hFull).trans ?_)
    exact ih h
  | case3 cursor _ filled hFill hEnd _ hCode =>
    cases h
    rw [readCode_eq, Cursor.carriesOver_fill hFill]
    exact (dif_pos hEnd).trans (if_neg hCode)
  | case4 cursor _ filled hFill hEnd =>
    cases h
    rw [readCode_eq, Cursor.carriesOver_fill hFill]
    exact dif_neg hEnd

theorem carriesOver_nextMarker? : CarriesOver Cursor.mended nextMarker? := by
  intro cursor code? after h
  simp only [nextMarker?] at h
  split at h
  · cases h
  · rename_i hMark
    cases h
    simp only [nextMarker?, carriesOver_skipToMark hMark]
  · rename_i hMark
    simp only [nextMarker?, carriesOver_skipToMark hMark, carriesOver_readCode h]

theorem carriesOver_jump (marker : UInt8) (size : Option Nat) (offset : Nat) :
    CarriesOver Cursor.mended (jump marker size offset) := by
  intro cursor _ after h
  simp only [jump] at h
  split at h
  · cases h
  · cases h
  · rename_i length read hRead
    split at h
    · cases h
    · rename_i hLength
      split at h
      · cases h
      · rename_i hRoom
        simp only [jump, Cursor.carriesOver_readPair hRead, if_neg hLength]
        exact (if_neg hRoom).trans (Cursor.carriesOver_skip _ h)

/-- One marker of the reading of an image. -/
theorem stopFrom_eq (start : Nat) (thumbnail : Bool) (cursor : Cursor) :
    stopFrom start thumbnail cursor =
    match nextMarker? cursor with
    | .error fault after => .error fault after
    | .ok none after => .error (.noImageEnd start) after
    | .ok (some marker) marked =>
      if marker = endMarker then
        if thumbnail then stopFrom start false marked else .ok marked.position marked
      else if marker = applicationMarker then
        match marked.peekAt (marked.position + 2) thumbnailBytes.length with
        | .error fault after => .error fault after
        | .ok bytes peeked =>
          stopFrom start (thumbnail || listed bytes = thumbnailBytes) peeked
      else if isJumped marker then
        match jump marker marked.size (marked.position - 2) marked with
        | .error fault after => .error fault after
        | .ok _ jumped => stopFrom start thumbnail jumped
      else
        stopFrom start thumbnail marked := by
  rw [stopFrom]
  split <;> rename_i hMarker <;> simp only [hMarker]
  -- The two sides differ only in the proofs that the steps inside carry along.
  congr 3
  · split <;> rename_i hPeek <;> simp only [hPeek]
  · split <;> rename_i hJump <;> simp only [hJump]

theorem carriesOver_stopFrom (start : Nat) (thumbnail : Bool) :
    CarriesOver Cursor.mended (stopFrom start thumbnail) := by
  intro cursor stop after h
  fun_induction stopFrom start thumbnail cursor with
  | case1 => cases h
  | case2 => cases h
  | case3 cursor marked hMarker _ ih =>
    rw [stopFrom_eq, carriesOver_nextMarker? hMarker]
    exact ih h
  | case4 thumbnail cursor marked hThumbnail hMarker =>
    cases h
    rw [stopFrom_eq, carriesOver_nextMarker? hMarker]
    exact (if_pos rfl).trans (if_neg hThumbnail)
  | case5 => cases h
  | case6 thumbnail cursor marked bytes peeked hPeek hMarker hLess hEnd _ ih =>
    rw [stopFrom_eq, carriesOver_nextMarker? hMarker]
    refine (if_neg hEnd).trans ((if_pos rfl).trans ?_)
    simp only [Cursor.position_mended, Cursor.carriesOver_peekAt _ _ hPeek]
    exact ih h
  | case7 => cases h
  | case8 thumbnail cursor code marked hMarker hLess hEnd hApplication hJumped _ jumped hJump _
      ih =>
    rw [stopFrom_eq, carriesOver_nextMarker? hMarker]
    refine (if_neg hEnd).trans ((if_neg hApplication).trans ((if_pos hJumped).trans ?_))
    simp only [Cursor.position_mended, Cursor.size_mended, carriesOver_jump _ _ _ hJump]
    exact ih h
  | case9 thumbnail cursor code marked hMarker hLess hEnd hApplication hJumped ih =>
    rw [stopFrom_eq, carriesOver_nextMarker? hMarker]
    refine (if_neg hEnd).trans ((if_neg hApplication).trans ((if_neg hJumped).trans ?_))
    exact ih h

theorem carriesOver_next : CarriesOver Reading.mended next := by
  refine (Reading.carriesOver_onCursor Cursor.carriesOver_atEnd).bind fun ended => ?_
  split
  · exact carriesOver_pure _
  · refine Reading.carriesOver_position.bind fun start => ?_
    refine (Reading.carriesOver_onCursor (Cursor.carriesOver_peekAt _ _)).bind fun bytes => ?_
    have hRest : CarriesOver Reading.mended (do
        let stop ← Reading.onCursor (stopFrom start false)
        return some ⟨start, stop⟩ : Reading.Action (Option Span)) :=
      (Reading.carriesOver_onCursor (carriesOver_stopFrom start false)).bind fun _ =>
        carriesOver_pure _
    split
    · exact (Reading.carriesOver_remark _).bind fun _ => hRest
    · exact hRest

end Image

theorem Splitter.carriesOver_next (splitter : Splitter) (cancelled : Bool) :
    CarriesOver Reading.mended (splitter.next cancelled) := by
  have hRead : CarriesOver Reading.mended (read splitter.method cancelled) := by
    cases splitter.method with
    | accessUnits coding cancellable => exact AccessUnit.carriesOver_next coding _
    | images => exact Image.carriesOver_next
  refine hRead.bind fun span? => ?_
  cases span? with
  | none => exact carriesOver_pure _
  | some span => exact (Reading.carriesOver_remark _).bind fun _ => carriesOver_pure _

end FrameFeed
