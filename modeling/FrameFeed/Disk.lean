import FrameFeed.Source

/-! Files and folders. A disk lists what lies at each place below a folder that is always there. A
path is walked piece by piece: a name leads into a folder, two dots lead out of it, and a single
dot or an empty piece stays in it. Each piece needs a folder to start from, so that a path can lead
to a place only through folders; whether anything lies at that place is another matter. -/

namespace FrameFeed

/-- What lies at a place. -/
inductive Disk.Entry where
  | file (data : ByteArray)
  | folder
  /-- Something that the system does not let anyone use. -/
  | closed (error : SystemError)

/-- The names on the way to a place from the folder that is always there. Two dots come before all
names and lead further out; a slash comes first on the way from the root. -/
abbrev Disk.Place := List String

/-- The entries of a disk by their places; the first one for a place counts. -/
structure Disk where
  entries : List (Disk.Place × Disk.Entry) := []

namespace Disk

/-! ### Paths -/

/-- The most bytes in a name. -/
def nameLimit : Nat := 255

/-- The most bytes in a path. -/
def pathLimit : Nat := 4095

def split : List Char → List (List Char)
  | [] => [[]]
  | char :: rest =>
    if char = '/' then
      [] :: split rest
    else
      match split rest with
      | [] => [[char]]
      | part :: parts => (char :: part) :: parts

/-- The pieces of a path. -/
def pieces (path : String) : List String := (split path.toList).map String.ofList

/-- The place that a path starts from: the root if it begins with a slash. -/
def start (path : String) : Place := if path.toList.head? = some '/' then ["/"] else []

/-- The place lies on the way out of the folder that is always there, or is that folder. -/
def isOutward (place : Place) : Bool := place.all (· = "..")

/-- The place of the folder that a place lies in; the root lies in itself. -/
def outer (place : Place) : Place :=
  if isOutward place then place ++ [".."]
  else if place = ["/"] then place
  else place.dropLast

/-- The place that a piece leads to. -/
def step (place : Place) (piece : String) : Place :=
  if piece = "" ∨ piece = "." then place
  else if piece = ".." then outer place
  else place ++ [piece]

/-- The path of a file in a folder. -/
def join (folder file : String) : String :=
  if folder.toList.getLast? = some '/' then folder ++ file else folder ++ "/" ++ file

/-! ### Places -/

/-- What lies at a place, if anything does. -/
def entry? (disk : Disk) (place : Place) : Option Entry :=
  if isOutward place || place = ["/"] then some .folder
  else (disk.entries.find? (·.1 = place)).map (·.2)

def put (disk : Disk) (place : Place) (entry : Entry) : Disk :=
  ⟨(place, entry) :: disk.entries.filter (·.1 ≠ place)⟩

/-- A folder lies at a place. -/
def checkFolder (disk : Disk) (place : Place) : Except SystemError Unit :=
  match disk.entry? place with
  | some .folder => .ok ()
  | some (.file _) => .error .notDirectory
  | some (.closed error) => .error error
  | none => .error .noEntry

/-- The place that a piece leads to from a folder. -/
def follow (disk : Disk) (place : Place) (piece : String) : Except SystemError Place := do
  disk.checkFolder place
  if nameLimit < piece.utf8ByteSize then
    throw .nameTooLong
  return step place piece

/-- The place that a path leads to. -/
def locate (disk : Disk) (path : String) : Except SystemError Place := do
  if pathLimit < path.utf8ByteSize then
    throw .nameTooLong
  (pieces path).foldlM disk.follow (start path)

/-- Two paths lead to the same place. -/
def samePlace (disk : Disk) (left right : String) : Bool :=
  match disk.locate left, disk.locate right with
  | .ok left, .ok right => left = right
  | _, _ => false

/-! ### Files and folders -/

/-- The medium at a path that is opened to be read; a folder can be opened like a file. -/
def medium (disk : Disk) (path : String) : Except SystemError Medium := do
  match disk.entry? (← disk.locate path) with
  | some (.file data) => return .ofFile data
  | some .folder => return .ofFolder
  | some (.closed error) => throw error
  | none => throw .noEntry

/-- Makes the folder that a piece leads to, unless something is there. -/
def extend (reached : Disk × Place) (piece : String) : Except SystemError (Disk × Place) := do
  let (disk, place) := reached
  let next ← disk.follow place piece
  match disk.entry? next with
  | none => return (disk.put next .folder, next)
  | some _ => return (disk, next)

/-- Makes a folder and those it lies in, unless they are there. -/
def createFolder (disk : Disk) (path : String) : Except SystemError Disk := do
  if pathLimit < path.utf8ByteSize then
    throw .nameTooLong
  let (disk, place) ← (pieces path).foldlM extend (disk, start path)
  match disk.entry? place with
  | some (.file _) => throw .alreadyExists
  | some (.closed error) => throw error
  | _ => return disk

/-- Writes a file, in place of another one. -/
def write (disk : Disk) (path : String) (data : ByteArray) : Except SystemError Disk := do
  let place ← disk.locate path
  match disk.entry? place with
  | some .folder => throw .isDirectory
  | some (.closed error) => throw error
  | _ => return disk.put place (.file data)

/-- The files that lie in a folder, by name, if it is one. -/
def files? (disk : Disk) (folder : String) : Option (List (String × ByteArray)) :=
  match disk.locate folder with
  | .error _ => none
  | .ok folder =>
    match disk.entry? folder with
    | some .folder =>
      some <| disk.entries.filterMap fun (place, entry) =>
        match place.getLast?, entry with
        | some name, .file data => if place.dropLast = folder then some (name, data) else none
        | _, _ => none
    | _ => none

end Disk

end FrameFeed
