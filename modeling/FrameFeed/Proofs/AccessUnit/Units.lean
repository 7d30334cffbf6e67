import FrameFeed.AccessUnit
import FrameFeed.Proofs.StartCode.Search

/-! The NAL units of a stream as a list, and what an access unit is in terms of it. Over a steady
medium the reading of an access unit depends on the data and the offset alone: it goes along the
list of units until one of them starts the next picture. -/

namespace FrameFeed

open EStateM (Result)
open StartCode (findFrom?)

/-- A NAL unit in a stream: the offset at which its start code begins, and its class. -/
structure NalUnit where
  offset : Nat
  unitClass : NalClass
  deriving DecidableEq, Repr

namespace NalUnit

/-- The class of the unit whose header is at an offset. A unit whose header the end of the data
cuts off counts as no slice. -/
def classAt (coding : NalCoding) (data : ByteArray) (offset : Nat) : NalClass :=
  (NalClass.ofBytes? coding (data.extract offset (offset + (coding.headerSize + 1)))).getD .nonSlice

/-- The unit behind a start code. -/
def ofCode (coding : NalCoding) (data : ByteArray) (code : StartCode) : NalUnit where
  offset := code.offset
  unitClass := classAt coding data code.nalOffset

/-- The units whose start codes are found from an offset on, in order. -/
def listFrom (coding : NalCoding) (data : ByteArray) (offset : Nat) : List NalUnit :=
  match hCode : findFrom? data offset with
  | none => []
  | some code =>
    have : data.size - code.nalOffset < data.size - offset := StartCode.left_lt_of_findFrom? hCode
    ofCode coding data code :: listFrom coding data code.nalOffset
termination_by data.size - offset

variable {coding : NalCoding} {data : ByteArray} {offset : Nat}

theorem listFrom_none (h : findFrom? data offset = none) : listFrom coding data offset = [] := by
  rw [listFrom]
  split
  · rfl
  · rename_i hSome
    cases h.symm.trans hSome

theorem listFrom_some {code : StartCode} (h : findFrom? data offset = some code) :
    listFrom coding data offset =
      ofCode coding data code :: listFrom coding data code.nalOffset := by
  rw [listFrom]
  split
  · rename_i hNone
    cases h.symm.trans hNone
  · rename_i hSome
    cases h.symm.trans hSome
    rfl

theorem le_offset_of_mem {unit : NalUnit} (h : unit ∈ listFrom coding data offset) :
    offset ≤ unit.offset := by
  fun_induction listFrom coding data offset with
  | case1 => cases h
  | case2 offset code hCode _ ih =>
    have hLow := (StartCode.findFrom?_bounds hCode).1
    rcases List.mem_cons.mp h with rfl | hLater
    · exact hLow
    · have := ih hLater
      simp only [StartCode.nalOffset] at this
      omega

/-- From the start code of a unit on, the units are that one and those after it. -/
theorem listFrom_suffix {before after : List NalUnit} {unit : NalUnit}
    (h : listFrom coding data offset = before ++ unit :: after) :
    listFrom coding data unit.offset = unit :: after := by
  induction before generalizing offset with
  | nil =>
    cases hCode : findFrom? data offset with
    | none => rw [listFrom_none hCode] at h; cases h
    | some code =>
      obtain ⟨hLow, -⟩ := StartCode.findFrom?_sound hCode
      rw [listFrom_some hCode] at h
      cases h
      exact listFrom_some (StartCode.findFrom?_between hCode hLow (Nat.le_refl _))
  | cons first before ih =>
    cases hCode : findFrom? data offset with
    | none => rw [listFrom_none hCode] at h; cases h
    | some code =>
      rw [listFrom_some hCode] at h
      exact ih (List.cons.inj h).2

end NalUnit

namespace AccessUnit

/-- The offset at which an access unit ends that has come to a phase before `units`, the last ones
in data of a size. -/
def Phase.stopAmong (phase : Phase) (size : Nat) : List NalUnit → Nat
  | [] => size
  | unit :: rest =>
    match phase.next unit.offset unit.unitClass with
    | .cut stop => stop
    | .goOn phase => phase.stopAmong size rest

theorem Phase.stopAmong_cut {phase : Phase} {size stop : Nat} (unit : NalUnit)
    (rest : List NalUnit) (h : phase.next unit.offset unit.unitClass = .cut stop) :
    phase.stopAmong size (unit :: rest) = stop := by
  simp only [stopAmong, h]

theorem Phase.stopAmong_goOn {phase later : Phase} {size : Nat} (unit : NalUnit)
    (rest : List NalUnit) (h : phase.next unit.offset unit.unitClass = .goOn later) :
    phase.stopAmong size (unit :: rest) = later.stopAmong size rest := by
  simp only [stopAmong, h]

/-- The span of the access unit that is found from an offset on. -/
def spanFrom? (coding : NalCoding) (data : ByteArray) (offset : Nat) : Option Span :=
  match NalUnit.listFrom coding data offset with
  | [] => none
  | first :: rest => some ⟨first.offset, Phase.leading.stopAmong data.size (first :: rest)⟩

variable {medium : Medium} {reach offset : Nat}

/-- Looking at a unit gives the class of its bytes and stays where it is. -/
theorem peek?_standsAt {coding : NalCoding} {cursor : Cursor}
    (h : cursor.StandsAt medium reach offset) {target : Nat} (hTarget : target ≤ reach) :
    ∃ unitClass after, NalClass.peek? coding target cursor = .ok unitClass after ∧
      unitClass.getD .nonSlice = NalUnit.classAt coding medium.data target ∧
      after.StandsAt medium reach offset := by
  obtain ⟨after, hPeek, hAfter⟩ := h.peekAt hTarget (coding.headerSize + 1)
  exact ⟨_, after, by simp only [NalClass.peek?, hPeek], rfl, hAfter⟩

/-- The reading of an access unit ends where the list of units says. The induction is on the
units, each of which is looked at and then left behind. -/
theorem stopFrom_standsAt (coding : NalCoding) (phase : Phase) (notes : Array Note)
    {code : StartCode} {cursor : Cursor} (h : cursor.StandsAt medium reach code.nalOffset)
    (hCode : code.nalOffset ≤ medium.data.size) :
    ∃ after place, stopFrom coding phase code notes cursor =
        .ok (phase.stopAmong medium.data.size (NalUnit.ofCode coding medium.data code ::
          NalUnit.listFrom coding medium.data code.nalOffset)) after ∧
      after.cursor.StandsAt medium reach place := by
  have hTarget := Nat.le_trans hCode h.steady.size_le
  fun_induction stopFrom coding phase code notes cursor with
  | case1 phase code notes cursor fault failed hPeek =>
    obtain ⟨_, _, hOk, -⟩ := peek?_standsAt h hTarget
    cases hPeek.symm.trans hOk
  | case2 phase code notes cursor unitClass peeked hPeek notes' stop hCut =>
    obtain ⟨_, _, hOk, hClass, hPeeked⟩ := peek?_standsAt h hTarget
    cases hPeek.symm.trans hOk
    rw [hClass] at hCut
    exact ⟨{ cursor := peeked, notes := notes' }, code.nalOffset,
      by rw [Phase.stopAmong_cut (NalUnit.ofCode ..) _ hCut], hPeeked⟩
  | case3 phase code notes cursor unitClass peeked hPeek notes' next hGoOn fault failed hScan =>
    obtain ⟨_, _, hOk, hClass, hPeeked⟩ := peek?_standsAt h hTarget
    cases hPeek.symm.trans hOk
    obtain ⟨_, hFound, -⟩ := StartCode.scan_standsAt hPeeked
    cases hScan.symm.trans hFound
  | case4 phase code notes cursor unitClass peeked hPeek notes' next hGoOn ended hScan =>
    obtain ⟨_, _, hOk, hClass, hPeeked⟩ := peek?_standsAt h hTarget
    cases hPeek.symm.trans hOk
    obtain ⟨_, hFound, hEnded⟩ := StartCode.scan_standsAt hPeeked
    obtain ⟨hNone, rfl⟩ := Result.ok.inj (hScan.symm.trans hFound)
    rw [← hNone] at hEnded
    rw [hClass] at hGoOn
    refine ⟨{ cursor := ended, notes := notes' }, _, ?_, hEnded⟩
    rw [Phase.stopAmong_goOn (NalUnit.ofCode ..) _ hGoOn, NalUnit.listFrom_none hNone.symm,
      Phase.stopAmong, hEnded.position_eq, Nat.max_eq_right hCode]
  | case5 phase code notes cursor unitClass peeked hPeek notes' next hGoOn code' scanned hScan _
      ih =>
    obtain ⟨_, _, hOk, hClass, hPeeked⟩ := peek?_standsAt h hTarget
    cases hPeek.symm.trans hOk
    obtain ⟨_, hFound, hScanned⟩ := StartCode.scan_standsAt hPeeked
    obtain ⟨hSome, rfl⟩ := Result.ok.inj (hScan.symm.trans hFound)
    rw [← hSome] at hScanned
    rw [hClass] at hGoOn
    have hNext := (StartCode.findFrom?_bounds hSome.symm).2
    obtain ⟨after, place, hStop, hAfter⟩ :=
      ih hScanned hNext (Nat.le_trans hNext h.steady.size_le)
    refine ⟨after, place, ?_, hAfter⟩
    rw [Phase.stopAmong_goOn (NalUnit.ofCode ..) _ hGoOn, NalUnit.listFrom_some hSome.symm, hStop]

end AccessUnit

end FrameFeed
