import PlaceholderIcons.FileTree.Access
import PlaceholderIcons.Proofs.TableView

/-!
What a write does to a file tree. It puts one file where no directory was, so
it leaves every directory in place, and which location a path leads to depends
on the directories alone. A path that was written once therefore leads to the
same file in every later tree, and only a write to that location changes it.
-/

namespace PlaceholderIcons

namespace FileTreeM

theorem run_bind {α β : Type} (action : FileTreeM α) (next : α → FileTreeM β) (tree : FileTree) :
    (action >>= next).run tree = (next (action.run tree).1).run (action.run tree).2 := rfl

theorem run_pure {α : Type} (value : α) (tree : FileTree) :
    (pure value : FileTreeM α).run tree = (value, tree) := rfl

theorem run_read (path : Bytes) (tree : FileTree) :
    (FileAccess.read path : FileTreeM _).run tree = (tree.read path, tree) := rfl

theorem run_write (path content : Bytes) (tree : FileTree) :
    (FileAccess.write path content : FileTreeM _).run tree = tree.write path content := rfl

theorem run_status (path : Bytes) (tree : FileTree) :
    (FileAccess.status path : FileTreeM _).run tree = (tree.status path, tree) := rfl

end FileTreeM

namespace FileTree

theorem entry?_put_self (tree : FileTree) (name : Bytes) (parent : Location) (content : Bytes) :
    FileTree.entry? (tree.put (name :: parent) content) (name :: parent) =
      some (.file content) := by
  simp [ entry?, put]

theorem entry?_put_of_ne {tree : FileTree} {location other : Location} {content : Bytes}
    (h : other ≠ location) :
    FileTree.entry? (tree.put location content) other = tree.entry? other := by
  cases other with
  | nil => rfl
  | cons name parent => exact Table.get?_insert_of_ne h

/-- Of two files put in one place the later stays. -/
theorem put_put (tree : FileTree) (location : Location) (content content' : Bytes) :
    (tree.put location content).put location content' = tree.put location content' := by
  simp only [put, Table.insert_insert]

/-- Trees with the same directories, whatever their files hold. -/
structure SameDirectories (tree next : FileTree) : Prop where
  workingDirectory : next.workingDirectory = tree.workingDirectory
  directory_iff : ∀ location,
    next.entry? location = some .directory ↔ tree.entry? location = some .directory

namespace SameDirectories

theorem refl (tree : FileTree) : SameDirectories tree tree :=
  ⟨rfl, fun _ => Iff.rfl⟩

theorem symm {tree next : FileTree} (h : SameDirectories tree next) : SameDirectories next tree :=
  ⟨h.workingDirectory.symm, fun location => (h.directory_iff location).symm⟩

theorem trans {first second third : FileTree} (h : SameDirectories first second)
    (h' : SameDirectories second third) : SameDirectories first third :=
  ⟨h'.workingDirectory.trans h.workingDirectory,
    fun location => (h'.directory_iff location).trans (h.directory_iff location)⟩

end SameDirectories

theorem sameDirectories_put {tree : FileTree} {name : Bytes} {parent : Location} {content : Bytes}
    (h : tree.entry? (name :: parent) ≠ some .directory) :
    SameDirectories tree (tree.put (name :: parent) content) := by
  refine ⟨rfl, fun location => ?_⟩
  by_cases heq : location = name :: parent
  · subst heq
    rw [entry?_put_self]
    constructor
    · intro hfile
      cases hfile
    · intro hdir
      exact absurd hdir h
  · rw [entry?_put_of_ne heq]

/-- A step starts from a directory and goes nowhere, up, or down by a name that
is not too long. -/
theorem walk_cons_eq_ok_iff {tree : FileTree} {location found : Location} {name : Bytes}
    {rest : List Bytes} :
    tree.walk location (name :: rest) = .ok found ↔
      tree.entry? location = some .directory ∧
        if name = FilePath.here then tree.walk location rest = .ok found
        else if name = FilePath.above then tree.walk location.tail rest = .ok found
        else name.length ≤ maxName ∧ tree.walk (name :: location) rest = .ok found := by
  rw [walk]
  cases hentry : tree.entry? location with
  | none => simp
  | some entry =>
      cases entry with
      | file content => simp
      | directory =>
          by_cases hhere : name = FilePath.here
          · simp [hhere]
          · by_cases habove : name = FilePath.above
            · have hne : FilePath.above ≠ FilePath.here := by decide
              simp [habove, hne]
            · by_cases hlong : maxName < name.length
              · simp [hhere, habove, hlong, Nat.not_le_of_gt hlong]
              · simp [hhere, habove, hlong, Nat.le_of_not_lt hlong]

theorem walk_append_eq_ok_iff {tree : FileTree} {location found : Location}
    {front back : List Bytes} :
    tree.walk location (front ++ back) = .ok found ↔
      ∃ middle, tree.walk location front = .ok middle ∧ tree.walk middle back = .ok found := by
  induction front generalizing location with
  | nil => simp [walk]
  | cons name rest ih =>
      simp only [List.cons_append, walk_cons_eq_ok_iff, ih]
      split
      · simp only [and_assoc, exists_and_left]
      · split
        · simp only [and_assoc, exists_and_left]
        · simp only [and_assoc, exists_and_left]

theorem walk_here_eq_ok_iff {tree : FileTree} {location found : Location} :
    tree.walk location [FilePath.here] = .ok found ↔
      tree.entry? location = some .directory ∧ found = location := by
  rw [walk_cons_eq_ok_iff]
  simp [walk, eq_comm]

theorem walk_name_eq_ok_iff {tree : FileTree} {location found : Location} {name : Bytes}
    (hhere : name ≠ FilePath.here) (habove : name ≠ FilePath.above) :
    tree.walk location [name] = .ok found ↔
      tree.entry? location = some .directory ∧ name.length ≤ maxName ∧
        found = name :: location := by
  rw [walk_cons_eq_ok_iff]
  simp [walk, hhere, habove, eq_comm]

/-- Following names only ever looks at directories. -/
theorem walk_of_sameDirectories {tree next : FileTree} (h : SameDirectories tree next)
    {location found : Location} {names : List Bytes}
    (hwalk : tree.walk location names = .ok found) : next.walk location names = .ok found := by
  induction names generalizing location with
  | nil => simpa [walk] using hwalk
  | cons name rest ih =>
      rw [walk_cons_eq_ok_iff] at hwalk ⊢
      refine ⟨(h.directory_iff location).2 hwalk.1, ?_⟩
      have hrest := hwalk.2
      split at hrest <;> rename_i hhere
      · simpa [hhere] using ih hrest
      · rw [if_neg hhere]
        split at hrest <;> rename_i habove
        · simpa [habove] using ih hrest
        · rw [if_neg habove]
          exact ⟨hrest.1, ih hrest.2⟩

/-- Everything that lets a path be opened for writing: it is not refused, its
last name is an ordinary one, and that name lies in a directory and is not
itself one. -/
structure Opens (tree : FileTree) (path : Bytes) (parents : List Bytes) (name : Bytes)
    (parent : Location) : Prop where
  accepted : refuse path = .ok ()
  names_eq : FilePath.names path = parents ++ [name]
  walk_eq : tree.walk (tree.origin path) (parents ++ [FilePath.here]) = .ok parent
  ne_here : name ≠ FilePath.here
  ne_above : name ≠ FilePath.above
  no_slash : endsInSlash path = false
  short : name.length ≤ maxName
  not_directory : tree.entry? (name :: parent) ≠ some .directory

theorem writable_eq_ok_iff {tree : FileTree} {path : Bytes} {location : Location} :
    tree.writable path = .ok location ↔
      ∃ parents name parent, tree.Opens path parents name parent ∧ location = name :: parent := by
  constructor
  · intro h
    unfold writable at h
    cases hrefuse : refuse path with
    | error cause => simp [hrefuse, bind, Except.bind] at h
    | ok _ =>
        cases hnames : (FilePath.names path).reverse with
        | nil => simp [hrefuse, hnames, bind, Except.bind] at h
        | cons name parents =>
            have hsplit : FilePath.names path = parents.reverse ++ [name] := by
              rw [← List.reverse_reverse (FilePath.names path), hnames, List.reverse_cons]
            cases hwalk : tree.walk (tree.origin path) (parents.reverse ++ [FilePath.here]) with
            | error cause => simp [hrefuse, hnames, hwalk, bind, Except.bind] at h
            | ok parent =>
                simp only [hrefuse, hnames, hwalk, bind, Except.bind] at h
                split at h <;> rename_i hplain
                · cases h
                · split at h <;> rename_i hshort
                  · cases h
                  · split at h <;> rename_i hfree
                    · cases h
                    · simp only [Bool.or_eq_true, beq_iff_eq, not_or, Bool.not_eq_true] at hplain
                      refine ⟨parents.reverse, name, parent, ?_, (Except.ok.inj h).symm⟩
                      exact ⟨hrefuse, hsplit, hwalk, hplain.1.1, hplain.1.2, hplain.2,
                        Nat.le_of_not_lt hshort, hfree⟩
  · rintro ⟨parents, name, parent, h, rfl⟩
    have hnames : (FilePath.names path).reverse = name :: parents.reverse := by
      simp [h.names_eq]
    unfold writable
    simp [h.accepted, hnames, h.walk_eq, h.ne_here, h.ne_above, h.no_slash,
      Nat.not_lt_of_le h.short, h.not_directory, bind, Except.bind]

namespace Opens

variable {tree next : FileTree} {path name : Bytes} {parents : List Bytes} {parent : Location}

theorem of_sameDirectories (h : tree.Opens path parents name parent)
    (hsame : SameDirectories tree next) : next.Opens path parents name parent := by
  have horigin : next.origin path = tree.origin path := by
    simp [origin, hsame.workingDirectory]
  refine { h with walk_eq := ?_, not_directory := ?_ }
  · rw [horigin]
    exact walk_of_sameDirectories hsame h.walk_eq
  · rw [Ne, hsame.directory_iff]
    exact h.not_directory

/-- Reading follows the same names to the same location as writing. -/
theorem locate_eq (h : tree.Opens path parents name parent) :
    tree.locate path = .ok (name :: parent) := by
  obtain ⟨middle, hfront, hlast⟩ := walk_append_eq_ok_iff.1 h.walk_eq
  obtain ⟨hdir, rfl⟩ := walk_here_eq_ok_iff.1 hlast
  have hwalk : tree.walk (tree.origin path) (parents ++ [name]) = .ok (name :: parent) := by
    rw [walk_append_eq_ok_iff]
    refine ⟨parent, hfront, ?_⟩
    rw [walk_name_eq_ok_iff h.ne_here h.ne_above]
    exact ⟨hdir, h.short, rfl⟩
  simpa [locate, h.accepted, h.names_eq, h.no_slash, bind, Except.bind] using hwalk

end Opens

/-- Whether a path can be written, and where it leads, is settled by the
directories; no write of a file changes it. -/
theorem writable_of_sameDirectories {tree next : FileTree} (h : SameDirectories tree next)
    {path : Bytes} {location : Location} (hpath : tree.writable path = .ok location) :
    next.writable path = .ok location := by
  obtain ⟨parents, name, parent, hopens, rfl⟩ := writable_eq_ok_iff.1 hpath
  exact writable_eq_ok_iff.2 ⟨parents, name, parent, hopens.of_sameDirectories h, rfl⟩

theorem locate_of_writable {tree : FileTree} {path : Bytes} {location : Location}
    (h : tree.writable path = .ok location) : tree.locate path = .ok location := by
  obtain ⟨parents, name, parent, hopens, rfl⟩ := writable_eq_ok_iff.1 h
  exact hopens.locate_eq

theorem sameDirectories_of_writable {tree : FileTree} {path content : Bytes} {location : Location}
    (h : tree.writable path = .ok location) : SameDirectories tree (tree.put location content) := by
  obtain ⟨parents, name, parent, hopens, rfl⟩ := writable_eq_ok_iff.1 h
  exact sameDirectories_put hopens.not_directory

theorem entry?_put_of_writable {tree : FileTree} {path content : Bytes} {location : Location}
    (h : tree.writable path = .ok location) :
    FileTree.entry? (tree.put location content) location = some (.file content) := by
  obtain ⟨parents, name, parent, -, rfl⟩ := writable_eq_ok_iff.1 h
  exact entry?_put_self tree name parent content

theorem find_eq_ok_iff {tree : FileTree} {path : Bytes} {entry : Entry} :
    tree.find path = .ok entry ↔
      ∃ location, tree.locate path = .ok location ∧ tree.entry? location = some entry := by
  unfold find
  cases hlocate : tree.locate path with
  | error cause => simp [bind, Except.bind]
  | ok location => cases hentry : tree.entry? location <;> simp [bind, Except.bind, hentry]

/-- A path reads the same in two trees if it leads to one place in both and the
same is there. -/
theorem read_congr {tree next : FileTree} {path : Bytes}
    (hlocate : next.locate path = tree.locate path)
    (hentry : ∀ location, tree.locate path = .ok location →
      next.entry? location = tree.entry? location) : next.read path = tree.read path := by
  have hfind : next.find path = tree.find path := by
    unfold find
    rw [hlocate]
    cases hpath : tree.locate path with
    | error cause => rfl
    | ok location => simp only [bind, Except.bind, hentry location hpath]
  rw [read, hfind, read]

theorem locate_of_sameDirectories {tree next : FileTree} (h : SameDirectories tree next)
    {path : Bytes} {location : Location} (hpath : tree.locate path = .ok location) :
    next.locate path = .ok location := by
  have horigin : next.origin path = tree.origin path := by
    simp [origin, h.workingDirectory]
  unfold locate at hpath ⊢
  cases hrefuse : refuse path with
  | error cause => simp [hrefuse, bind, Except.bind] at hpath
  | ok _ =>
      simp only [hrefuse, bind, Except.bind, horigin] at hpath ⊢
      exact walk_of_sameDirectories h hpath

/-- The two ways in which a write can end. -/
theorem write_cases (tree : FileTree) (path content : Bytes) :
    (∃ location, tree.writable path = .ok location ∧
      tree.write path content = (.ok (), tree.put location content)) ∨
    (∃ cause, tree.writable path = .error cause ∧
      tree.write path content = (.error ⟨.openFile, path, cause⟩, tree)) := by
  unfold write
  cases hpath : tree.writable path with
  | ok location => exact .inl ⟨location, rfl, rfl⟩
  | error cause => exact .inr ⟨cause, rfl, rfl⟩

/-- A write, successful or not, leaves all directories in place. -/
theorem sameDirectories_write (tree : FileTree) (path content : Bytes) :
    SameDirectories tree (tree.write path content).2 := by
  rcases write_cases tree path content with ⟨location, hpath, hwrite⟩ | ⟨cause, -, hwrite⟩
  · rw [hwrite]
    exact sameDirectories_of_writable hpath
  · rw [hwrite]
    exact SameDirectories.refl tree

/-- What was written can be read back through the same path. -/
theorem find_of_write_ok {tree next : FileTree} {path content : Bytes}
    (h : tree.write path content = (.ok (), next)) : next.find path = .ok (.file content) := by
  rcases write_cases tree path content with ⟨location, hpath, hwrite⟩ | ⟨cause, -, hwrite⟩
  · obtain rfl : tree.put location content = next := by simpa [hwrite] using h
    rw [find_eq_ok_iff]
    refine ⟨location, ?_, entry?_put_of_writable hpath⟩
    exact locate_of_sameDirectories (sameDirectories_of_writable hpath) (locate_of_writable hpath)
  · simp [hwrite] at h

/-- A write that succeeded can be made again, and then changes nothing. -/
theorem write_of_write_ok {tree next : FileTree} {path content : Bytes}
    (h : tree.write path content = (.ok (), next)) :
    next.write path content = (.ok (), next) := by
  rcases write_cases tree path content with ⟨location, hpath, hwrite⟩ | ⟨cause, -, hwrite⟩
  · obtain rfl : tree.put location content = next := by simpa [hwrite] using h
    have hagain : FileTree.writable (tree.put location content) path = .ok location :=
      writable_of_sameDirectories (sameDirectories_of_writable hpath) hpath
    rw [write, hagain]
    simp only [put_put]
  · simp [hwrite] at h

end FileTree

end PlaceholderIcons
