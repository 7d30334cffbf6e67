import FrameFeed.Cursor
import FrameFeed.Note

/-! A stream being read, together with the remarks made on the way. -/

namespace FrameFeed

/-- A cursor and the remarks made so far, the first one first. -/
structure Reading where
  cursor : Cursor
  notes : Array Note := #[]

namespace Reading

/-- A step that reads, may remark on what it reads, and can fail. -/
abbrev Action := EStateM Fault Reading

/-- A step of the cursor as a step that makes no remark. -/
def onCursor {α : Type} (step : Cursor.Action α) : Action α := fun reading =>
  match step reading.cursor with
  | .ok value cursor => .ok value { reading with cursor }
  | .error fault cursor => .error fault { reading with cursor }

def remark (note : Note) : Action Unit :=
  modify fun reading => { reading with notes := reading.notes.push note }

def position : Action Nat := do return (← get).cursor.position

end Reading

end FrameFeed
