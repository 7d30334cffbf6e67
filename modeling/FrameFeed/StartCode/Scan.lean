import FrameFeed.Cursor.Unread
import FrameFeed.StartCode

/-! The search for the next start code in a stream. The search goes through one window after
another and carries the number of zeros from each to the next. Of a longer run of zeros only the
last three belong to the start code. -/

namespace FrameFeed.StartCode

open EStateM (Result)
open Cursor (Action)

/-- What a search through one window comes to. -/
inductive WindowScan where
  /-- The one of a start code is at an index and has this many zeros before it. -/
  | found (index zeros : Nat)
  /-- The window ends with this many zeros. -/
  | exhausted (zeros : Nat)
  deriving DecidableEq, Repr

/-- The most zeros that a start code has. -/
def maxZeros : Nat := 3

/-- Searches a window from an index on, after `zeros` zeros. -/
def scanWindow (window : ByteArray) (index zeros : Nat) : WindowScan :=
  if h : index < window.size then
    if window[index] = 0 then
      scanWindow window (index + 1) (min (zeros + 1) maxZeros)
    else if window[index] = 1 ∧ 2 ≤ zeros then
      .found index zeros
    else
      scanWindow window (index + 1) 0
  else
    .exhausted zeros
termination_by window.size - index

theorem scanWindow_bounds {window : ByteArray} {index zeros found counted : Nat}
    (h : scanWindow window index zeros = .found found counted) :
    index ≤ found ∧ found < window.size := by
  fun_induction scanWindow window index zeros with
  | case1 index zeros hIndex _ ih =>
    have := ih h
    omega
  | case2 index zeros hIndex =>
    cases h
    exact ⟨Nat.le_refl _, hIndex⟩
  | case3 index zeros hIndex _ _ ih =>
    have := ih h
    omega
  | case4 => cases h

/-- Goes on with the search for a start code after `zeros` zeros. -/
def scanFrom (zeros : Nat) (cursor : Cursor) : Result Fault Cursor (Option StartCode) :=
  match hFill : cursor.fill with
  | .error fault failed => .error fault failed
  | .ok _ filled =>
    if hEnd : filled.buffered = 0 then
      .ok none filled
    else
      match scanWindow filled.window filled.used zeros with
      | .found index counted =>
        .ok (some ⟨filled.position + (index - filled.used) - counted, counted⟩)
          (filled.advance (index - filled.used + 1))
      | .exhausted counted =>
        have : (filled.advance filled.buffered).unread < cursor.unread := by
          rw [← Cursor.unread_fill hFill]
          exact Cursor.unread_advance_lt hEnd hEnd
        scanFrom counted (filled.advance filled.buffered)
termination_by cursor.unread

/-- Finds the next start code and moves past it. There is none when the stream ends first; the
cursor is then at the end. -/
def scan : Action (Option StartCode) := scanFrom 0

/-- A start code that is found leaves fewer bytes to come. -/
theorem unread_scanFrom_lt {zeros : Nat} {cursor after : Cursor} {code : StartCode}
    (h : scanFrom zeros cursor = .ok (some code) after) : after.unread < cursor.unread := by
  fun_induction scanFrom zeros cursor with
  | case1 => cases h
  | case2 => cases h
  | case3 zeros cursor _ filled hFill hEnd index =>
    cases h
    rw [← Cursor.unread_fill hFill]
    exact Cursor.unread_advance_lt (Nat.succ_ne_zero _) hEnd
  | case4 _ _ _ _ _ _ _ _ hLess ih => exact Nat.lt_trans (ih h) hLess

theorem unread_scan_lt {cursor after : Cursor} {code : StartCode}
    (h : scan cursor = .ok (some code) after) : after.unread < cursor.unread :=
  unread_scanFrom_lt h

end FrameFeed.StartCode
