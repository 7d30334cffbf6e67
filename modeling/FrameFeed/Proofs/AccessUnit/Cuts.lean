import FrameFeed.Proofs.AccessUnit.Units

/-! Where a stream is cut into access units. Going along the units once, with a fresh phase after
every cut, finds the offsets of all cuts. The rule that they follow looks at the list as a whole: a
picture ends before the first unit after a slice from which on only units that are no slices stand
before a first slice. -/

namespace FrameFeed.AccessUnit

/-- The offsets at which units are cut off, from a phase before them on. After a cut the first
slice that brought it about has been seen. -/
def Phase.cuts (phase : Phase) : List NalUnit → List Nat
  | [] => []
  | unit :: rest =>
    match phase.next unit.offset unit.unitClass with
    | .cut stop => stop :: Phase.picture.cuts rest
    | .goOn phase => phase.cuts rest

/-- Units that are no slices stand at the head of the list, perhaps none, and then a first slice. -/
def OpensPicture (units : List NalUnit) : Prop :=
  ∃ run first rest, units = run ++ first :: rest ∧ (∀ unit ∈ run, unit.unitClass = .nonSlice) ∧
    first.unitClass = .firstSlice

/-- A picture ends before the unit at an offset: the unit comes right after a slice, and it is
itself a first slice or the first of a run of units that are no slices which a first slice
follows. -/
def IsCut (units : List NalUnit) (offset : Nat) : Prop :=
  ∃ before slice unit after, units = before ++ slice :: unit :: after ∧
    slice.unitClass ≠ .nonSlice ∧ unit.offset = offset ∧
      (unit.unitClass = .firstSlice ∨ unit.unitClass = .nonSlice ∧ OpensPicture after)

variable {phase : Phase} {unit : NalUnit} {units : List NalUnit} {size offset : Nat}

/-! ### The rule, unit by unit -/

theorem not_opensPicture_nil : ¬OpensPicture [] := by
  rintro ⟨run, first, rest, hUnits, -⟩
  cases run <;> cases hUnits

theorem opensPicture_cons :
    OpensPicture (unit :: units) ↔
      unit.unitClass = .firstSlice ∨ unit.unitClass = .nonSlice ∧ OpensPicture units := by
  constructor
  · rintro ⟨run, first, rest, hUnits, hRun, hFirst⟩
    cases run with
    | nil =>
      cases hUnits
      exact .inl hFirst
    | cons head run =>
      cases hUnits
      exact .inr ⟨hRun unit List.mem_cons_self, run, first, rest, rfl,
        fun other hOther => hRun other (List.mem_cons_of_mem _ hOther), hFirst⟩
  · rintro (hFirst | ⟨hNone, run, first, rest, rfl, hRun, hFirst⟩)
    · exact ⟨[], unit, units, rfl, fun _ hOther => absurd hOther List.not_mem_nil, hFirst⟩
    · refine ⟨unit :: run, first, rest, rfl, fun other hOther => ?_, hFirst⟩
      rcases List.mem_cons.mp hOther with rfl | hOther
      · exact hNone
      · exact hRun other hOther

/-- A run of units that are no slices opens no picture before a later slice or the end. -/
theorem not_opensPicture_run {run rest : List NalUnit}
    (hRun : ∀ unit ∈ run, unit.unitClass = .nonSlice)
    (hRest : rest = [] ∨ ∃ slice later, rest = slice :: later ∧ slice.unitClass = .laterSlice) :
    ¬OpensPicture (run ++ rest) := by
  induction run with
  | nil =>
    rcases hRest with rfl | ⟨slice, later, rfl, hSlice⟩
    · exact not_opensPicture_nil
    · simp [opensPicture_cons, hSlice]
  | cons unit run ih =>
    have hUnit := hRun unit List.mem_cons_self
    have hLater := ih fun other hOther => hRun other (List.mem_cons_of_mem _ hOther)
    simpa [opensPicture_cons, hUnit] using hLater

theorem not_isCut_nil : ¬IsCut [] offset := by
  rintro ⟨before, slice, unit, after, hUnits, -⟩
  cases before <;> cases hUnits

theorem isCut_cons :
    IsCut (unit :: units) offset ↔
      (unit.unitClass ≠ .nonSlice ∧ (units.head?.map NalUnit.offset = some offset ∧
        OpensPicture units)) ∨ IsCut units offset := by
  constructor
  · rintro ⟨before, slice, next, after, hUnits, hSlice, hOffset, hNext⟩
    cases before with
    | nil =>
      cases hUnits
      exact .inl ⟨hSlice, by rw [← hOffset]; rfl, opensPicture_cons.mpr hNext⟩
    | cons head before =>
      cases hUnits
      exact .inr ⟨before, slice, next, after, rfl, hSlice, hOffset, hNext⟩
  · rintro (⟨hSlice, hOffset, hOpens⟩ | ⟨before, slice, next, after, rfl, hSlice, hNext⟩)
    · cases units with
      | nil => cases hOffset
      | cons next after =>
        exact ⟨[], unit, next, after, rfl, hSlice, Option.some.inj hOffset,
          opensPicture_cons.mp hOpens⟩
    · exact ⟨unit :: before, slice, next, after, rfl, hSlice, hNext⟩

/-- A unit of a stream opens a picture if there is a cut before it; no other unit has its offset. -/
theorem opensPicture_of_isCut {coding : NalCoding} {data : ByteArray} {start : Nat}
    {before after : List NalUnit}
    (hUnits : NalUnit.listFrom coding data start = before ++ unit :: after)
    (h : IsCut (NalUnit.listFrom coding data start) unit.offset) :
    OpensPicture (unit :: after) := by
  obtain ⟨before', slice, unit', after', hCut, -, hOffset, hClass⟩ := h
  rw [List.append_cons] at hCut
  have hSuffix := NalUnit.listFrom_suffix hCut
  rw [hOffset, NalUnit.listFrom_suffix hUnits] at hSuffix
  rw [hSuffix]
  exact opensPicture_cons.mpr hClass

/-- The cuts that the rule gives among units, when a phase has been reached before them. -/
def Phase.IsCut : Phase → List NalUnit → Nat → Prop
  | leading, units, offset => AccessUnit.IsCut units offset
  | picture, units, offset =>
    (units.head?.map NalUnit.offset = some offset ∧ OpensPicture units) ∨
      AccessUnit.IsCut units offset
  | trailing start, units, offset =>
    (start = offset ∧ OpensPicture units) ∨ AccessUnit.IsCut units offset

/-- The units are cut off where the rule says. The induction is on the units; each phase stands
for what the units before it were. -/
theorem Phase.mem_cuts_iff : offset ∈ phase.cuts units ↔ phase.IsCut units offset := by
  induction units generalizing phase with
  | nil =>
    cases phase <;> simp [cuts, Phase.IsCut, not_isCut_nil, not_opensPicture_nil]
  | cons unit rest ih =>
    cases phase <;> cases hClass : unit.unitClass <;>
      simp [cuts, Phase.next, hClass, Phase.IsCut, ih, isCut_cons, opensPicture_cons, eq_comm]

/-! ### From one access unit to the next -/

/-- An access unit ends at the first cut or, if there is none, with the data. -/
theorem Phase.stopAmong_eq : phase.stopAmong size units = (phase.cuts units).headD size := by
  induction units generalizing phase with
  | nil => rfl
  | cons unit rest ih =>
    cases hNext : phase.next unit.offset unit.unitClass with
    | cut stop => simp only [stopAmong, cuts, hNext, List.headD_cons]
    | goOn later => simp only [stopAmong, cuts, hNext, ih]

/-- Units that are no slices make no difference before the first slice. -/
theorem leading_cuts_append {run : List NalUnit} (h : ∀ unit ∈ run, unit.unitClass = .nonSlice) :
    Phase.leading.cuts (run ++ units) = Phase.leading.cuts units := by
  induction run with
  | nil => rfl
  | cons unit run ih =>
    have hUnit := h unit List.mem_cons_self
    rw [List.cons_append, ← ih fun other hOther => h other (List.mem_cons_of_mem _ hOther)]
    simp only [Phase.cuts, Phase.next, hUnit]

/-- The units that a phase has kept in mind because an access unit may begin with the first of
them: a run of units that are no slices, after a slice. -/
def Phase.Keeps : Phase → List NalUnit → Prop
  | leading, kept => kept = []
  | picture, kept => kept = []
  | trailing start, kept =>
    kept.head?.map NalUnit.offset = some start ∧ ∀ unit ∈ kept, unit.unitClass = .nonSlice

/-- A unit that does not bring about a cut is kept in mind after those kept before it, or none of
them is. -/
theorem Phase.Keeps.goOn {kept : List NalUnit} {later : Phase} (h : phase.Keeps kept)
    (hNext : phase.next unit.offset unit.unitClass = .goOn later) :
    ∃ dropped kept', kept ++ [unit] = dropped ++ kept' ∧ later.Keeps kept' := by
  cases phase <;> cases hClass : unit.unitClass <;> simp only [next, hClass] at hNext <;>
    cases hNext
  case picture.nonSlice =>
    cases h
    exact ⟨[], [unit], rfl, rfl, by simpa using hClass⟩
  case trailing.nonSlice start =>
    obtain ⟨hStart, hRun⟩ := h
    refine ⟨[], kept ++ [unit], rfl, ?_, ?_⟩
    · rw [List.head?_append, Option.map_or, hStart]
      rfl
    · intro other hOther
      rcases List.mem_append.mp hOther with hOld | hNew
      · exact hRun other hOld
      · rwa [List.mem_singleton.mp hNew]
  all_goals exact ⟨kept ++ [unit], [], (List.append_nil _).symm, rfl⟩

/-- At a cut the unit that begins the next access unit is the first of those kept in mind or, if
there are none, the one at hand. -/
theorem Phase.Keeps.cut {kept : List NalUnit} {stop : Nat} (h : phase.Keeps kept)
    (hNext : phase.next unit.offset unit.unitClass = .cut stop) :
    ∃ head after, kept ++ unit :: units = head :: after ∧ head.offset = stop ∧
      Phase.leading.cuts (head :: after) = Phase.picture.cuts units := by
  cases phase <;> cases hClass : unit.unitClass <;> simp only [next, hClass] at hNext <;>
    cases hNext
  case picture.firstSlice =>
    cases h
    exact ⟨unit, units, rfl, rfl, by simp only [cuts, next, hClass]⟩
  case trailing.firstSlice =>
    obtain ⟨hStart, hRun⟩ := h
    cases kept with
    | nil => cases hStart
    | cons head run =>
      refine ⟨head, run ++ unit :: units, rfl, Option.some.inj hStart, ?_⟩
      rw [← List.cons_append, leading_cuts_append hRun]
      simp only [cuts, next, hClass]

/-- The unit at a cut begins the list from which the later cuts are found afresh. The induction
is on the units; those kept in mind are moved along. -/
theorem Phase.cuts_rest {kept : List NalUnit} {stop : Nat} {stops : List Nat}
    (hKept : phase.Keeps kept) (h : phase.cuts units = stop :: stops) :
    ∃ before head after, kept ++ units = before ++ head :: after ∧ head.offset = stop ∧
      Phase.leading.cuts (head :: after) = stops := by
  induction units generalizing phase kept with
  | nil => cases h
  | cons unit rest ih =>
    cases hNext : phase.next unit.offset unit.unitClass with
    | cut =>
      simp only [cuts, hNext] at h
      cases h
      obtain ⟨head, after, hUnits, hHead⟩ := hKept.cut hNext
      exact ⟨[], head, after, hUnits, hHead⟩
    | goOn later =>
      simp only [cuts, hNext] at h
      obtain ⟨dropped, kept', hMoved, hKept'⟩ := hKept.goOn hNext
      obtain ⟨before, head, after, hUnits, hHead⟩ := ih hKept' h
      refine ⟨dropped ++ before, head, after, ?_, hHead⟩
      rw [List.append_assoc, ← hUnits, ← List.append_assoc, ← hMoved, List.append_assoc]
      rfl

/-- The first unit of an access unit is not cut off, so that a cut lies at a later one. -/
theorem leading_cuts_rest {stop : Nat} {stops : List Nat}
    (h : Phase.leading.cuts (unit :: units) = stop :: stops) :
    ∃ before head after, units = before ++ head :: after ∧ head.offset = stop ∧
      Phase.leading.cuts (head :: after) = stops := by
  cases hClass : unit.unitClass <;> simp only [Phase.cuts, Phase.next, hClass] at h
  case nonSlice => exact Phase.cuts_rest (show Phase.leading.Keeps [] from rfl) h
  all_goals exact Phase.cuts_rest (show Phase.picture.Keeps [] from rfl) h

end FrameFeed.AccessUnit
