import FrameFeed.Proofs.AccessUnit.Alone
import FrameFeed.Proofs.Bits.Words
import FrameFeed.Sps

/-! Finding the first parameter set of a stream. The units of a stream lie behind its start codes.
The search takes the first one whose header announces a parameter set, no byte that it asks for is
out of range, and what comes after the unit has no part in what it gives. -/

namespace FrameFeed.Sps

open StartCode (unitStop)

variable {data : ByteArray} {index : Nat}

/-! ### Units -/

/-- The units behind the start codes that are found from an index on, each from its header to the
next start code or the end of the data. -/
def unitsFrom (data : ByteArray) (index : Nat) : List Span :=
  match hCode : StartCode.findFrom? data index with
  | none => []
  | some code =>
    have : data.size - code.nalOffset < data.size - index := StartCode.left_lt_of_findFrom? hCode
    ⟨code.nalOffset, unitStop data code.nalOffset⟩ :: unitsFrom data code.nalOffset
termination_by data.size - index

def units (data : ByteArray) : List Span := unitsFrom data 0

/-- A unit that is not empty, and whose header announces a parameter set. -/
def HoldsSps (data : ByteArray) (unit : Span) : Prop :=
  unit.start < unit.stop ∧ (data[unit.start]?.map fun header => header.toNat % 32) = some 7

instance (data : ByteArray) (unit : Span) : Decidable (HoldsSps data unit) :=
  inferInstanceAs (Decidable (_ ∧ _))

/-- The parameter set in a unit, behind its header. -/
def parseUnit (data : ByteArray) (unit : Span) : Except Fault Sps :=
  parse (Emulation.remove (data.extract (unit.start + 1) unit.stop))

theorem unitsFrom_none (h : StartCode.findFrom? data index = none) : unitsFrom data index = [] := by
  rw [unitsFrom]
  split
  · rfl
  · rename_i hSome
    cases h.symm.trans hSome

theorem unitsFrom_some {code : StartCode} (h : StartCode.findFrom? data index = some code) :
    unitsFrom data index =
      ⟨code.nalOffset, unitStop data code.nalOffset⟩ :: unitsFrom data code.nalOffset := by
  rw [unitsFrom]
  split
  · rename_i hNone
    cases h.symm.trans hNone
  · rename_i hSome
    cases h.symm.trans hSome
    rfl

/-- Behind the end of a unit the search finds what it finds behind its header. -/
theorem unitsFrom_unitStop (data : ByteArray) (start : Nat) :
    unitsFrom data (unitStop data start) = unitsFrom data start := by
  cases hCode : StartCode.findFrom? data start with
  | none =>
    have hEnd : unitStop data start = data.size := by
      rw [unitStop, hCode]
    rw [hEnd, unitsFrom_none hCode, unitsFrom_none (StartCode.findFrom?_past (Nat.le_refl _))]
  | some code =>
    have hEnd : unitStop data start = code.offset := by
      rw [unitStop, hCode]
    have hLow := (StartCode.findFrom?_bounds hCode).1
    rw [hEnd, unitsFrom_some hCode,
      unitsFrom_some (StartCode.findFrom?_between hCode hLow (Nat.le_refl _))]

theorem ofHeader_eq_sps_iff :
    ∀ header, H264.UnitType.ofHeader header = .sps ↔ header.toNat % 32 = 7 := by
  decide +kernel

/-- The header of a parameter set is no zero, so that no start code begins at it. -/
theorem lt_unitStop {start : Nat} (hIn : start < data.size)
    (hHeader : data[start].toNat % 32 = 7) : start < unitStop data start := by
  unfold unitStop
  split
  · rename_i next hNext
    obtain ⟨hLow, hBegins, -⟩ := StartCode.findFrom?_sound hNext
    refine Nat.lt_of_le_of_ne hLow fun hHere => ?_
    have hZero : data[start]? = some 0 := hHere ▸ hBegins.1
    rw [getElem?_eq_some_iff_getElem hIn] at hZero
    rw [hZero] at hHeader
    cases hHeader
  · exact hIn

theorem holdsSps_iff {start : Nat} (hIn : start < data.size) :
    HoldsSps data ⟨start, unitStop data start⟩ ↔
      H264.UnitType.ofHeader data[start] = .sps := by
  rw [ofHeader_eq_sps_iff, HoldsSps, getElem?_pos data start hIn, Option.map_some,
    Option.some.injEq]
  exact ⟨And.right, fun hHeader => ⟨lt_unitStop hIn hHeader, hHeader⟩⟩

/-- The search takes the first unit that holds a parameter set. -/
theorem findFrom?_eq (data : ByteArray) (index : Nat) :
    findFrom? data index = match (unitsFrom data index).find? (HoldsSps data ·) with
      | none => .ok none
      | some unit => (parseUnit data unit).map some := by
  fun_induction findFrom? data index with
  | case1 index hCode => rw [unitsFrom_none hCode, List.find?_nil]
  | case2 index code hCode hStart stop hSps =>
    have hHolds : HoldsSps data ⟨code.nalOffset, unitStop data code.nalOffset⟩ :=
      (holdsSps_iff hStart).mpr hSps
    rw [unitsFrom_some hCode, List.find?_cons_of_pos (by simpa using hHolds)]
    rfl
  | case3 index code hCode hStart stop hOther ih =>
    have hHolds : ¬HoldsSps data ⟨code.nalOffset, unitStop data code.nalOffset⟩ :=
      mt (holdsSps_iff hStart).mp hOther
    rw [ih, unitsFrom_unitStop, unitsFrom_some hCode,
      List.find?_cons_of_neg (by simpa using hHolds)]
  | case4 index code hCode hEnd =>
    have hNone : data[code.nalOffset]? = none := getElem?_neg data _ hEnd
    have hHolds : ¬HoldsSps data ⟨code.nalOffset, unitStop data code.nalOffset⟩ := by
      rintro ⟨-, hHeader⟩
      rw [hNone] at hHeader
      cases hHeader
    rw [unitsFrom_some hCode, List.find?_cons_of_neg (by simpa using hHolds),
      unitsFrom_none (StartCode.findFrom?_past (Nat.not_lt.mp hEnd)), List.find?_nil]

/-! ### Slices -/

/-- Some bytes of the data; their ends must be in order and inside the data. -/
def slice (data : ByteArray) (start stop : Nat) : Except Stop ByteArray :=
  if start ≤ stop ∧ stop ≤ data.size then .ok (data.extract start stop) else .error .outOfRange

def byteAt (data : ByteArray) (index : Nat) : Except Stop UInt8 :=
  match data[index]? with
  | some byte => .ok byte
  | none => .error .outOfRange

/-- The first start code in the slice from an index on, as it stands in the data. -/
def codeFrom (data : ByteArray) (index : Nat) : Except Stop (Option StartCode) := do
  let rest ← slice data index data.size
  return (StartCode.find? rest).map (StartCode.shift index)

/-- The search, slice by slice. A slice or a byte out of range stops it, and so does a start code
more than it has passes for. -/
def searchFrom (data : ByteArray) : (passes index : Nat) → Except Stop (Option Sps)
  | 0, _ => throw .outOfRange
  | passes + 1, index => do
    match ← codeFrom data index with
    | none => return none
    | some code =>
      if data.size ≤ code.nalOffset then
        return none
      else
        let stop := match ← codeFrom data code.nalOffset with
          | some next => next.offset
          | none => data.size
        let header ← byteAt data code.nalOffset
        if H264.UnitType.ofHeader header = .sps then
          let bytes ← slice data (code.nalOffset + 1) stop
          ((parse (Emulation.remove bytes)).map some).mapError Stop.fault
        else
          searchFrom data passes stop

theorem slice_eq {start stop : Nat} (hOrder : start ≤ stop) (hStop : stop ≤ data.size) :
    slice data start stop = .ok (data.extract start stop) := if_pos ⟨hOrder, hStop⟩

theorem byteAt_eq (h : index < data.size) : byteAt data index = .ok data[index] := by
  rw [byteAt, getElem?_pos data index h]

theorem codeFrom_eq (h : index ≤ data.size) :
    codeFrom data index = .ok (StartCode.findFrom? data index) := by
  rw [codeFrom, slice_eq h (Nat.le_refl _), StartCode.findFrom?_eq_shift]
  rfl

theorem unitStop_le (data : ByteArray) (start : Nat) : unitStop data start ≤ data.size := by
  unfold unitStop
  split
  · rename_i next hNext
    have hBounds := StartCode.findFrom?_bounds hNext
    exact Nat.le_of_lt (Nat.lt_of_lt_of_le next.offset_lt_nalOffset hBounds.2)
  · exact Nat.le_refl _

theorem codeFrom_nalOffset {code : StartCode} (h : StartCode.findFrom? data index = some code) :
    codeFrom data code.nalOffset = .ok (StartCode.findFrom? data code.nalOffset) :=
  codeFrom_eq (StartCode.findFrom?_bounds h).2

/-- A pass that comes upon a unit with a header parses the unit, or goes on behind it. -/
theorem searchFrom_succ (passes : Nat) {code : StartCode} (hIndex : index ≤ data.size)
    (hCode : StartCode.findFrom? data index = some code) (hStart : code.nalOffset < data.size) :
    searchFrom data (passes + 1) index =
      if H264.UnitType.ofHeader data[code.nalOffset] = .sps then do
        let bytes ← slice data (code.nalOffset + 1) (unitStop data code.nalOffset)
        ((parse (Emulation.remove bytes)).map some).mapError Stop.fault
      else
        searchFrom data passes (unitStop data code.nalOffset) := by
  rw [searchFrom, codeFrom_eq hIndex, hCode]
  simp only [bind, Except.bind, if_neg (Nat.not_le.mpr hStart), codeFrom_nalOffset hCode,
    byteAt_eq hStart]
  rfl

/-- Every pass goes on behind a start code, so that one more than there are bytes are enough. -/
theorem searchFrom_eq {passes : Nat} (hIndex : index ≤ data.size)
    (hPasses : data.size - index < passes) :
    searchFrom data passes index = (findFrom? data index).mapError Stop.fault := by
  obtain ⟨fewer, rfl⟩ : ∃ fewer, passes = fewer + 1 := ⟨passes - 1, by omega⟩
  fun_induction findFrom? data index generalizing fewer with
  | case1 index hCode =>
    rw [searchFrom, codeFrom_eq hIndex, hCode]
    rfl
  | case2 index code hCode hStart stop hSps =>
    have hLow : code.nalOffset + 1 ≤ stop := lt_unitStop hStart ((ofHeader_eq_sps_iff _).mp hSps)
    rw [searchFrom_succ fewer hIndex hCode hStart, if_pos hSps,
      slice_eq hLow (unitStop_le data code.nalOffset)]
    rfl
  | case3 index code hCode hStart stop hOther ih =>
    have hLow : index < code.nalOffset :=
      Nat.lt_of_le_of_lt (StartCode.findFrom?_bounds hCode).1 code.offset_lt_nalOffset
    have hStop : code.nalOffset ≤ stop := StartCode.le_unitStop (Nat.le_of_lt hStart)
    rw [searchFrom_succ fewer hIndex hCode hStart, if_neg hOther]
    obtain ⟨fewest, rfl⟩ : ∃ fewest, fewer = fewest + 1 := ⟨fewer - 1, by omega⟩
    exact ih (unitStop_le data code.nalOffset) fewest (by omega)
  | case4 index code hCode hEnd =>
    rw [searchFrom, codeFrom_eq hIndex, hCode]
    exact if_pos (Nat.not_lt.mp hEnd)

/-! ### What comes after a unit -/

theorem exists_code_of_mem {unit : Span} (h : unit ∈ unitsFrom data index) :
    ∃ code, StartCode.findFrom? data index = some code ∧ code.nalOffset ≤ unit.start ∧
      unit.start ≤ data.size := by
  fun_induction unitsFrom data index with
  | case1 => cases h
  | case2 index code hCode _ ih =>
    refine ⟨code, hCode, ?_⟩
    rcases List.mem_cons.mp h with rfl | hLater
    · exact ⟨Nat.le_refl _, (StartCode.findFrom?_bounds hCode).2⟩
    · obtain ⟨next, hNext, hLow, hHigh⟩ := ih hLater
      have hBetween := (StartCode.findFrom?_bounds hNext).1
      have hLess := next.offset_lt_nalOffset
      exact ⟨by omega, hHigh⟩

/-- A unit ends before the header of a later one. -/
theorem stop_lt_start {before after : List Span} {unit next : Span}
    (h : unitsFrom data index = before ++ next :: after) (hUnit : unit ∈ before) :
    unit.start ≤ unit.stop ∧ unit.stop < next.start := by
  induction before generalizing index with
  | nil => cases hUnit
  | cons first before ih =>
    cases hCode : StartCode.findFrom? data index with
    | none => rw [unitsFrom_none hCode] at h; cases h
    | some code =>
      rw [unitsFrom_some hCode] at h
      obtain ⟨hFirst, hRest⟩ := List.cons.inj h
      rcases List.mem_cons.mp hUnit with rfl | hLater
      · obtain ⟨second, hSecond, hStart, -⟩ :=
          exists_code_of_mem (show next ∈ unitsFrom data code.nalOffset by simp [hRest])
        have hStop : unit.stop = second.offset := by
          rw [← hFirst, unitStop, hSecond]
        rw [hStop, ← hFirst]
        exact ⟨(StartCode.findFrom?_bounds hSecond).1,
          Nat.lt_of_lt_of_le second.offset_lt_nalOffset hStart⟩
      · exact ih hRest hLater

section Replace

variable {count : Nat}

/-- A search for a start code that lies in the first bytes finds it whatever follows them. -/
theorem findFrom?_replace {code : StartCode} (h : StartCode.findFrom? data index = some code)
    (hInside : code.nalOffset ≤ count) (hCount : count ≤ data.size) (more : ByteArray) :
    StartCode.findFrom? (data.extract 0 count ++ more) index = some code := by
  have hWhole : data.extract 0 count ++ data.extract count data.size = data := by
    rw [← ByteArray.extract_eq_extract_append_extract count (Nat.zero_le _) hCount,
      ByteArray.extract_zero_size]
  have hFirst : code.nalOffset ≤ (data.extract 0 count).size := by
    rw [ByteArray.size_extract]
    omega
  rw [← hWhole] at h
  exact StartCode.findFrom?_append (StartCode.findFrom?_of_append h hFirst) more

/-- The units before another one stay when what follows the start code of that one is replaced. -/
theorem unitsFrom_replace {before after : List Span} {next : Span}
    (h : unitsFrom data index = before ++ next :: after) (more : ByteArray) :
    ∃ later, unitsFrom (data.extract 0 next.start ++ more) index = before ++ later := by
  induction before generalizing index with
  | nil => exact ⟨_, rfl⟩
  | cons first before ih =>
    cases hCode : StartCode.findFrom? data index with
    | none => rw [unitsFrom_none hCode] at h; cases h
    | some code =>
      rw [unitsFrom_some hCode] at h
      obtain ⟨rfl, hRest⟩ := List.cons.inj h
      obtain ⟨later, hLater⟩ := ih hRest
      -- The end of the unit is the start code of the one behind it, which is there as well.
      obtain ⟨second, hSecond, hLow, hHigh⟩ :=
        exists_code_of_mem (show next ∈ unitsFrom data code.nalOffset by simp [hRest])
      have hBetween := (StartCode.findFrom?_bounds hSecond).1
      have hLess := second.offset_lt_nalOffset
      have hSame : unitStop (data.extract 0 next.start ++ more) code.nalOffset =
          unitStop data code.nalOffset := by
        rw [unitStop, findFrom?_replace hSecond hLow hHigh, unitStop, hSecond]
      refine ⟨later, ?_⟩
      rw [unitsFrom_some (findFrom?_replace hCode (by omega) hHigh more), hSame, hLater,
        List.cons_append]

variable {unit : Span}

theorem holdsSps_replace (hStop : unit.stop ≤ count) (hCount : count ≤ data.size)
    (more : ByteArray) :
    HoldsSps (data.extract 0 count ++ more) unit ↔ HoldsSps data unit := by
  unfold HoldsSps
  refine and_congr_right fun hSome => ?_
  rw [getElem?_append_left (by rw [ByteArray.size_extract]; omega), getElem?_extract (by omega),
    Nat.zero_add]

theorem parseUnit_replace (hStop : unit.stop ≤ count) (hCount : count ≤ data.size)
    (more : ByteArray) :
    parseUnit (data.extract 0 count ++ more) unit = parseUnit data unit := by
  have hBytes : (data.extract 0 count ++ more).extract (unit.start + 1) unit.stop =
      data.extract (unit.start + 1) unit.stop := by
    have hSize : (data.extract 0 count).size = count := by
      rw [ByteArray.size_extract]
      omega
    have hNothing : more.extract (unit.start + 1 - count) 0 = ByteArray.empty :=
      ByteArray.extract_eq_empty_iff.mpr (by omega)
    rw [ByteArray.extract_append, hSize, Nat.sub_eq_zero_of_le hStop, hNothing,
      ByteArray.append_empty, ByteArray.extract_extract, Nat.zero_add, Nat.zero_add,
      Nat.min_eq_left hStop]
  rw [parseUnit, parseUnit, hBytes]

end Replace

/-! ### The first parameter set -/

theorem findFrom?_first {before after : List Span} {unit : Span}
    (h : unitsFrom data index = before ++ unit :: after)
    (hBefore : ∀ other ∈ before, ¬HoldsSps data other) (hUnit : HoldsSps data unit) :
    findFrom? data index = (parseUnit data unit).map some := by
  have hFound : (unitsFrom data index).find? (HoldsSps data ·) = some unit := by
    rw [List.find?_eq_some_iff_append]
    exact ⟨by simpa using hUnit, before, after, h, by simpa using hBefore⟩
  rw [findFrom?_eq, hFound]

theorem findFrom?_eq_none_iff :
    findFrom? data index = .ok none ↔ ∀ unit ∈ unitsFrom data index, ¬HoldsSps data unit := by
  rw [findFrom?_eq]
  cases hFound : (unitsFrom data index).find? (HoldsSps data ·) with
  | none => simpa using hFound
  | some unit =>
    have hUnit : HoldsSps data unit := by simpa using List.find?_some hFound
    have hMem := List.mem_of_find?_eq_some hFound
    refine ⟨fun hNone => ?_, fun hNone => absurd hUnit (hNone unit hMem)⟩
    have hGives : (parseUnit data unit).map some = .ok none := hNone
    cases hParsed : parseUnit data unit <;> rw [hParsed] at hGives <;> cases hGives

/-- A stream gives the parameter set of the first of its units that hold one. Searched slice by
slice, it is searched to the end, and no byte or slice is out of range. It gives nothing just when
none of its units that are not empty has a header that announces a parameter set. Otherwise it gives
what the first such unit gives, a parameter set or a fault, and this stays so when all that follows
the start code behind the unit is replaced. -/
theorem find?_first (data : ByteArray) :
    (∀ passes, data.size < passes →
      searchFrom data passes 0 = (find? data).mapError Stop.fault) ∧
    (find? data = .ok none ↔ ∀ unit ∈ units data, ¬HoldsSps data unit) ∧
    ∀ before unit after, units data = before ++ unit :: after →
      (∀ other ∈ before, ¬HoldsSps data other) → HoldsSps data unit →
      find? data = (parseUnit data unit).map some ∧
      ∀ next later more, after = next :: later →
        find? (data.extract 0 next.start ++ more) = find? data := by
  refine ⟨fun passes hPasses => searchFrom_eq (Nat.zero_le _) hPasses, findFrom?_eq_none_iff,
    fun before unit after hUnits hBefore hUnit => ?_⟩
  have hFirst : find? data = (parseUnit data unit).map some := findFrom?_first hUnits hBefore hUnit
  refine ⟨hFirst, fun next later more hAfter => ?_⟩
  subst hAfter
  have hSplit : unitsFrom data 0 = (before ++ [unit]) ++ next :: later := by
    rw [List.append_assoc]
    exact hUnits
  obtain ⟨others, hOthers⟩ := unitsFrom_replace hSplit more
  obtain ⟨-, -, -, hSize⟩ :=
    exists_code_of_mem (show next ∈ unitsFrom data 0 by simp [hSplit])
  have hStop {other : Span} (hOther : other ∈ before ++ [unit]) : other.stop ≤ next.start :=
    Nat.le_of_lt (stop_lt_start hSplit hOther).2
  have hUnitStop : unit.stop ≤ next.start := hStop (by simp)
  rw [List.append_assoc] at hOthers
  rw [hFirst, ← parseUnit_replace hUnitStop hSize more]
  have hHolds := (holdsSps_replace hUnitStop hSize more).mpr hUnit
  refine findFrom?_first hOthers (fun other hOther => ?_) hHolds
  rw [holdsSps_replace (hStop (List.mem_append_left _ hOther)) hSize]
  exact hBefore other hOther

/-- A delimiter, an empty unit, a parameter set, and another one that is too short. The shape of
256 to 2 in the first set is written with an emulation prevention byte inside. -/
def twoSets : ByteArray :=
  ⟨#[0, 0, 0, 1, 0x09, 0xf0, 0, 0, 1, 0, 0, 1, 0x67, 0x4d, 0x40, 0x28, 0x97, 0x40, 0x3c, 0x02, 0x23,
    0xef, 0xff, 0x01, 0, 0, 3, 0x02, 0x80, 0, 0, 1, 0x67, 0x42]⟩

def delimiterAndSlice : ByteArray := ⟨#[0, 0, 0, 1, 0x09, 0xf0, 0, 0, 1, 0x65, 0x88]⟩

theorem find?_first_twoSets :
    (∃ sps, searchFrom twoSets 35 0 = .ok (some sps) ∧ sps.width = 1920 ∧ sps.height = 1080 ∧
      sps.aspect = .explicit 256 2 ∧
      find? (twoSets.extract 0 32 ++ delimiterAndSlice) = .ok (some sps)) ∧
    find? delimiterAndSlice = .ok none := by
  constructor
  · obtain ⟨hSearch, -, hFirst⟩ := find?_first twoSets
    have hUnits : units twoSets = [⟨4, 6⟩, ⟨9, 9⟩] ++ ⟨12, 29⟩ :: [⟨32, 34⟩] := by decide +kernel
    obtain ⟨hFound, hAfter⟩ := hFirst _ _ _ hUnits (by decide +kernel) (by decide +kernel)
    have hParse : parseUnit twoSets ⟨12, 29⟩ = .ok
        { profile := 77, level := 40, width := 1920, height := 1080, framesOnly := false
          aspect := .explicit 256 2 } := ok_of_toOption (by decide +kernel)
    rw [hParse] at hFound
    refine ⟨_, ?_, rfl, rfl, rfl, (hAfter _ _ _ rfl).trans hFound⟩
    rw [hSearch 35 (by decide), hFound]
    rfl
  · obtain ⟨-, hNone, -⟩ := find?_first delimiterAndSlice
    exact hNone.mpr (by decide +kernel)

end FrameFeed.Sps
