import FrameFeed.Disk

/-! Where paths lead, and what writing a file changes. A path that can be followed leads to a place
that the path alone decides; the disk only decides whether it can be followed. -/

namespace FrameFeed.Disk

variable {disk disk' : Disk} {path : String} {place : Place}

/-! ### Following a path -/

/-- The place that a path leads to where it can be followed. -/
def target (path : String) : Place := (pieces path).foldl step (start path)

theorem follow_eq (disk : Disk) (place : Place) (piece : String) :
    disk.follow place piece = match disk.checkFolder place with
      | .error error => .error error
      | .ok _ => if nameLimit < piece.utf8ByteSize then .error .nameTooLong
        else .ok (step place piece) := by
  unfold follow
  cases disk.checkFolder place with
  | error error => rfl
  | ok _ =>
    simp only [bind, Except.bind]
    split <;> rfl

theorem checkFolder_ok : disk.checkFolder place = .ok () ↔ disk.entry? place = some .folder := by
  simp only [checkFolder]
  constructor
  · intro h
    split at h
    · assumption
    all_goals cases h
  · intro h
    rw [h]

theorem follow_ok {piece : String} {next : Place} (h : disk.follow place piece = .ok next) :
    disk.entry? place = some .folder ∧ next = step place piece := by
  rw [follow_eq] at h
  split at h
  · cases h
  · rename_i hCheck
    split at h <;> cases h
    exact ⟨checkFolder_ok.mp hCheck, rfl⟩

/-- Every folder of one disk is one of another. -/
def KeepsFolders (disk disk' : Disk) : Prop :=
  ∀ place, disk.entry? place = some .folder → disk'.entry? place = some .folder

theorem KeepsFolders.follow (h : KeepsFolders disk disk') {piece : String} {next : Place}
    (hFollow : disk.follow place piece = .ok next) : disk'.follow place piece = .ok next := by
  have hFolder := (follow_ok hFollow).1
  rw [follow_eq, checkFolder_ok.mpr hFolder] at hFollow
  rw [follow_eq, checkFolder_ok.mpr (h place hFolder)]
  exact hFollow

theorem foldlM_follow {parts : List String} {reached : Place}
    (h : parts.foldlM disk.follow place = .ok reached) : reached = parts.foldl step place := by
  induction parts generalizing place with
  | nil => cases h; rfl
  | cons part rest ih =>
    rw [List.foldlM_cons] at h
    cases hFollow : disk.follow place part with
    | error error => rw [hFollow] at h; cases h
    | ok next =>
      rw [hFollow] at h
      obtain ⟨-, rfl⟩ := follow_ok hFollow
      exact ih h

theorem KeepsFolders.foldlM (h : KeepsFolders disk disk') {parts : List String} {reached : Place}
    (hWalk : parts.foldlM disk.follow place = .ok reached) :
    parts.foldlM disk'.follow place = .ok reached := by
  induction parts generalizing place with
  | nil => exact hWalk
  | cons part rest ih =>
    rw [List.foldlM_cons] at hWalk ⊢
    cases hFollow : disk.follow place part with
    | error error => rw [hFollow] at hWalk; cases hWalk
    | ok next =>
      rw [hFollow] at hWalk
      rw [h.follow hFollow]
      exact ih hWalk

theorem locate_eq (disk : Disk) (path : String) :
    disk.locate path = if pathLimit < path.utf8ByteSize then .error .nameTooLong
      else (pieces path).foldlM disk.follow (start path) := by
  simp only [locate]
  split <;> rfl

theorem locate_ok (h : disk.locate path = .ok place) : place = target path := by
  rw [locate_eq] at h
  split at h
  · cases h
  · exact foldlM_follow h

theorem KeepsFolders.locate (h : KeepsFolders disk disk') (hLocate : disk.locate path = .ok place) :
    disk'.locate path = .ok place := by
  rw [locate_eq] at hLocate ⊢
  split at hLocate
  · cases hLocate
  · rename_i hLimit
    rw [if_neg hLimit]
    exact h.foldlM hLocate

theorem samePlace_eq_false {left right : String} (h : target left ≠ target right) :
    disk.samePlace left right = false := by
  simp only [samePlace]
  split
  · rename_i hLeft hRight
    rw [locate_ok hLeft, locate_ok hRight]
    exact decide_eq_false h
  · rfl

/-! ### Writing -/

theorem entry?_put_self {entry : Entry} (h : disk.entry? place ≠ some .folder) :
    Disk.entry? (disk.put place entry) place = some entry := by
  simp only [ entry?] at h ⊢
  split at h
  · exact absurd rfl h
  · rename_i hInside
    rw [if_neg hInside]
    simp [put]

theorem entry?_put_of_ne {entry : Entry} {other : Place} (h : other ≠ place) :
    Disk.entry? (disk.put place entry) other = disk.entry? other := by
  simp only [ entry?]
  split
  · rfl
  · have hKept : ∀ item : Place × Entry, item.1 ≠ place ∧ item.1 = other ↔ item.1 = other :=
      fun item => ⟨And.right, fun hItem => ⟨hItem ▸ h, hItem⟩⟩
    simp only [put, List.find?_cons, decide_eq_false h.symm, List.find?_filter,
      decide_eq_true_eq, hKept]

theorem keepsFolders_put (h : disk.entry? place ≠ some .folder) (entry : Entry) :
    KeepsFolders disk (disk.put place entry) := by
  intro other hFolder
  have hOther : other ≠ place := by
    rintro rfl
    exact h hFolder
  rwa [entry?_put_of_ne hOther]

theorem write_ok {bytes : ByteArray} (h : disk.write path bytes = .ok disk') :
    disk.locate path = .ok (target path) ∧ disk.entry? (target path) ≠ some .folder ∧
      disk' = disk.put (target path) (.file bytes) := by
  simp only [write, bind, Except.bind] at h
  split at h
  · cases h
  · rename_i place hLocate
    cases locate_ok hLocate
    split at h
    · cases h
    · cases h
    · rename_i hFolder _
      cases h
      exact ⟨hLocate, hFolder, rfl⟩

/-- A file that has been written can be opened, and everything else is as before. -/
theorem medium_write {bytes : ByteArray} (h : disk.write path bytes = .ok disk') :
    disk'.medium path = .ok (.ofFile bytes) := by
  obtain ⟨hLocate, hFolder, rfl⟩ := write_ok h
  have hAfter := (keepsFolders_put hFolder (.file bytes)).locate hLocate
  simp only [medium, hAfter, bind, Except.bind, entry?_put_self hFolder]
  rfl

theorem entry?_of_medium {medium : Medium} (h : disk.medium path = .ok medium) :
    disk.locate path = .ok (target path) ∧
      ∀ other : Disk, other.locate path = .ok (target path) →
        other.entry? (target path) = disk.entry? (target path) → other.medium path = .ok medium := by
  cases hLocate : disk.locate path with
  | error error => simp only [Disk.medium, hLocate, bind, Except.bind] at h; cases h
  | ok place =>
    cases locate_ok hLocate
    refine ⟨rfl, fun other hOther hEntry => ?_⟩
    rw [← h]
    simp only [Disk.medium, hLocate, hOther, hEntry, bind, Except.bind]

/-- What a path opens stays the same when a file is written elsewhere. -/
theorem medium_write_of_ne {bytes : ByteArray} (h : disk.write path bytes = .ok disk')
    {other : String} (hOther : target other ≠ target path) {medium : Medium}
    (hMedium : disk.medium other = .ok medium) : disk'.medium other = .ok medium := by
  obtain ⟨-, hFolder, rfl⟩ := write_ok h
  obtain ⟨hLocate, hSame⟩ := entry?_of_medium hMedium
  exact hSame _ ((keepsFolders_put hFolder _).locate hLocate) (entry?_put_of_ne hOther)

/-- The two disks hold the same files at a place. -/
def SameFile (disk disk' : Disk) (place : Place) : Prop :=
  ∀ bytes, disk'.entry? place = some (.file bytes) ↔ disk.entry? place = some (.file bytes)

theorem sameFile_extend {reached reached' : Disk × Place} {piece : String}
    (h : extend reached piece = .ok reached') (place : Place) :
    SameFile reached.1 reached'.1 place := by
  obtain ⟨disk, here⟩ := reached
  intro bytes
  simp only [extend, bind, Except.bind] at h
  split at h
  · cases h
  · rename_i next hFollow
    split at h <;> cases h
    · rename_i hNone
      by_cases hPlace : place = next
      · rw [hPlace, entry?_put_self (by rw [hNone]; exact nofun), hNone]
        exact ⟨nofun, nofun⟩
      · rw [entry?_put_of_ne hPlace]
    · rfl

theorem sameFile_createFolder (h : disk.createFolder path = .ok disk') (place : Place) :
    SameFile disk disk' place := by
  have hParts : ∀ (parts : List String) (reached reached' : Disk × Place),
      parts.foldlM extend reached = .ok reached' → SameFile reached.1 reached'.1 place := by
    intro parts
    induction parts with
    | nil => intro reached reached' h; cases h; exact fun _ => Iff.rfl
    | cons part rest ih =>
      intro reached reached' h
      rw [List.foldlM_cons] at h
      cases hExtend : extend reached part with
      | error error => rw [hExtend] at h; cases h
      | ok next =>
        rw [hExtend] at h
        exact fun bytes =>
          (ih next reached' h bytes).trans (sameFile_extend hExtend place bytes)
  have hCreate : ∃ reached, (pieces path).foldlM extend (disk, start path) = .ok reached ∧
      reached.1 = disk' := by
    simp only [createFolder] at h
    split at h
    · cases h
    · cases hFold : (pieces path).foldlM extend (disk, start path) with
      | error error => simp only [hFold, bind, Except.bind] at h; cases h
      | ok reached =>
        simp only [hFold, bind, Except.bind] at h
        split at h <;> cases h
        exact ⟨reached, rfl, rfl⟩
  obtain ⟨reached, hFold, rfl⟩ := hCreate
  exact hParts _ _ _ hFold

/-! ### Names in a folder -/

theorem split_ne_nil (chars : List Char) : split chars ≠ [] := by
  cases chars with
  | nil => exact nofun
  | cons char rest =>
    simp only [split]
    split
    · exact nofun
    · split <;> exact nofun

theorem split_append (front back : List Char) :
    split (front ++ '/' :: back) = split front ++ split back := by
  induction front with
  | nil => rfl
  | cons char rest ih =>
    simp only [List.cons_append, split, ih]
    split
    · rfl
    · cases hRest : split rest with
      | nil => exact absurd hRest (split_ne_nil rest)
      | cons part parts => rfl

theorem split_of_noSlash {chars : List Char} (h : '/' ∉ chars) : split chars = [chars] := by
  induction chars with
  | nil => rfl
  | cons char rest ih =>
    have hChar : char ≠ '/' := fun hSlash => h (hSlash ▸ List.mem_cons_self ..)
    have hRest : '/' ∉ rest := fun hMem => h (List.mem_cons_of_mem _ hMem)
    rw [split, if_neg hChar, ih hRest]

/-- A piece of a path that names something in a folder. -/
structure IsName (piece : String) : Prop where
  noSlash : '/' ∉ piece.toList
  ne_empty : piece ≠ ""
  ne_dot : piece ≠ "."
  ne_dots : piece ≠ ".."

theorem IsName.step_eq {piece : String} (h : IsName piece) (place : Place) :
    step place piece = place ++ [piece] := by
  rw [step, if_neg (by simp [h.ne_empty, h.ne_dot]), if_neg h.ne_dots]

theorem toList_join (folder : String) :
    ∃ front, ∀ file, (join folder file).toList = front ++ '/' :: file.toList := by
  by_cases hSlash : folder.toList.getLast? = some '/'
  · obtain ⟨front, hFront⟩ := List.getLast?_eq_some_iff.mp hSlash
    refine ⟨front, fun file => ?_⟩
    rw [join, if_pos hSlash, String.toList_append, hFront, List.append_assoc]
    rfl
  · refine ⟨folder.toList, fun file => ?_⟩
    rw [join, if_neg hSlash, String.toList_append, String.toList_append, List.append_assoc]
    rfl

/-- Files in one folder lie at places that differ in their names only. -/
theorem target_join (folder : String) :
    ∃ base : Place, ∀ file, IsName file → target (join folder file) = base ++ [file] := by
  obtain ⟨front, hFront⟩ := toList_join folder
  refine ⟨((split front).map String.ofList).foldl step
    (if (front ++ ['/']).head? = some '/' then ["/"] else []), fun file hName => ?_⟩
  have hHead : (join folder file).toList.head? = (front ++ ['/']).head? := by
    rw [hFront]
    cases front <;> rfl
  have hPieces : pieces (join folder file) = (split front).map String.ofList ++ [file] := by
    rw [pieces, hFront, split_append, split_of_noSlash hName.noSlash, List.map_append]
    simp only [List.map_cons, List.map_nil, String.ofList_toList]
  rw [target, start, hHead, hPieces, List.foldl_append]
  exact hName.step_eq _

end FrameFeed.Disk
