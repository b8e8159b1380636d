import PlaceholderIcons.Proofs.FileWrites
import PlaceholderIcons.Proofs.PathNames

/-!
Where ordinary paths below a root lead. A root leads to one directory, and a
path of ordinary names is followed from there, so the outputs of a root lie
side by side however the root is spelled.
-/

namespace PlaceholderIcons

open Bytes

namespace FilePath

/-- A relative path of ordinary names: some folders and a file. -/
structure IsOrdinary (path : Bytes) (folders : List Bytes) (file : Bytes) : Prop where
  relative : isRooted path = false
  names_eq : names path = folders ++ [file]
  ordinary : ∀ n ∈ folders ++ [file], n ≠ here ∧ n ≠ above

namespace IsOrdinary

variable {path file : Bytes} {folders : List Bytes}

theorem path_ne_nil (h : IsOrdinary path folders file) : path ≠ [] := by
  rintro rfl
  have hnil : folders ++ [file] = [] := h.names_eq.symm
  simp at hnil

theorem join_eq (h : IsOrdinary path folders file) (root : Bytes) :
    join root path =
      assemble (isRooted root) ((settle root).reverse ++ folders ++ [file]) := by
  have hordinary : ∀ n ∈ names path, n ≠ here ∧ n ≠ above := h.names_eq ▸ h.ordinary
  rw [join_of_plain h.path_ne_nil h.relative hordinary, h.names_eq, List.append_assoc]

theorem isName (h : IsOrdinary path folders file) {root n : Bytes}
    (hn : n ∈ (settle root).reverse ++ folders ++ [file]) : IsName n := by
  rw [List.append_assoc, ← h.names_eq] at hn
  rcases List.mem_append.1 hn with hn | hn
  · exact isName_of_mem_settle hn
  · exact isName_of_mem_names hn

theorem isRooted_join (h : IsOrdinary path folders file) (root : Bytes) :
    isRooted (join root path) = isRooted root := by
  rw [h.join_eq]
  exact isRooted_assemble fun _ => h.isName

theorem names_join (h : IsOrdinary path folders file) (root : Bytes) :
    names (join root path) = (settle root).reverse ++ folders ++ [file] := by
  rw [h.join_eq]
  exact names_assemble (fun _ => h.isName) (by simp)

theorem file_isName (h : IsOrdinary path folders file) : IsName file :=
  isName_of_mem_names (h.names_eq ▸ List.mem_append_right folders List.mem_cons_self)

end IsOrdinary

/-- A path is a front that does not depend on its last name, and this name. The
front ends in a slash unless there is none. -/
theorem exists_assemble_append (rooted : Bool) (ns : List Bytes) :
    ∃ front, (front = [] ∨ ∃ body, front = body ++ [slash]) ∧
      ∀ last, last ≠ [] → assemble rooted (ns ++ [last]) = front ++ last := by
  by_cases hns : ns = []
  · subst hns
    cases rooted with
    | true => exact ⟨[slash], .inr ⟨[], rfl⟩, fun last _ => rfl⟩
    | false => exact ⟨[], .inl rfl, fun last hlast => by simp [assemble, joinWith, hlast]⟩
  · cases rooted with
    | true =>
      refine ⟨slash :: joinWith slash ns ++ [slash], .inr ⟨_, rfl⟩, fun last _ => ?_⟩
      simp [assemble, joinWith_append_singleton slash hns]
    | false =>
      refine ⟨joinWith slash ns ++ [slash], .inr ⟨_, rfl⟩, fun last _ => ?_⟩
      simp [assemble, joinWith_append_singleton slash hns]

end FilePath

open FilePath

namespace FileTree

/-- A root that leads to the directory at `base`. -/
def LeadsTo (tree : FileTree) (root : Bytes) (base : Location) : Prop :=
  tree.walk (tree.origin root) ((settle root).reverse ++ [here]) = .ok base

theorem LeadsTo.of_sameDirectories {tree next : FileTree} {root : Bytes} {base : Location}
    (h : tree.LeadsTo root base) (hsame : tree.SameDirectories next) : next.LeadsTo root base := by
  have horigin : next.origin root = tree.origin root := by
    rw [origin, origin, hsame.workingDirectory]
  rw [LeadsTo, horigin]
  exact walk_of_sameDirectories hsame h

/-- The names behind the root are followed from where the root leads. -/
theorem LeadsTo.walk_append {tree : FileTree} {root : Bytes} {base : Location}
    (h : tree.LeadsTo root base) {ns : List Bytes} {found : Location} :
    tree.walk (tree.origin root) ((settle root).reverse ++ ns ++ [here]) = .ok found ↔
      tree.walk base (ns ++ [here]) = .ok found := by
  obtain ⟨middle, hfront, hlast⟩ := walk_append_eq_ok_iff.1 h
  obtain ⟨-, rfl⟩ := walk_here_eq_ok_iff.1 hlast
  -- Both walks share the names of the root, and those lead to one place only.
  rw [List.append_assoc, walk_append_eq_ok_iff]
  constructor
  · rintro ⟨other, hother, hrest⟩
    rw [hfront] at hother
    rw [Except.ok.inj hother]
    exact hrest
  · intro hrest
    exact ⟨base, hfront, hrest⟩

theorem origin_join {tree : FileTree} {path file : Bytes} {folders : List Bytes}
    (h : IsOrdinary path folders file) (root : Bytes) :
    tree.origin (join root path) = tree.origin root := by
  rw [origin, h.isRooted_join, origin]

theorem opens_of_writable_join {tree : FileTree} {root path file : Bytes} {folders : List Bytes}
    {location : Location} (h : IsOrdinary path folders file)
    (hw : tree.writable (join root path) = .ok location) :
    ∃ parent, tree.Opens (join root path) ((settle root).reverse ++ folders) file parent ∧
      location = file :: parent := by
  obtain ⟨parents, name, parent, hopens, rfl⟩ := writable_eq_ok_iff.1 hw
  have hnames := hopens.names_eq
  rw [h.names_join] at hnames
  obtain ⟨hparents, hname⟩ := List.append_inj' hnames rfl
  obtain rfl : file = name := by simpa using hname
  subst hparents
  exact ⟨parent, hopens, rfl⟩

/-- A file directly below the root tells where the root leads. -/
theorem leadsTo_of_writable_join {tree : FileTree} {root path file : Bytes} {location : Location}
    (h : IsOrdinary path [] file) (hw : tree.writable (join root path) = .ok location) :
    ∃ base, tree.LeadsTo root base ∧ location = file :: base := by
  obtain ⟨base, hopens, rfl⟩ := opens_of_writable_join h hw
  have hwalk := hopens.walk_eq
  rw [origin_join h, List.append_nil] at hwalk
  exact ⟨base, hwalk, rfl⟩

/-- A file in a folder can only be written if the root leads somewhere. -/
theorem exists_leadsTo_of_writable_join {tree : FileTree} {root path folder file : Bytes}
    {location : Location} (h : IsOrdinary path [folder] file)
    (hw : tree.writable (join root path) = .ok location) : ∃ base, tree.LeadsTo root base := by
  obtain ⟨parent, hopens, -⟩ := opens_of_writable_join h hw
  have hwalk := hopens.walk_eq
  rw [origin_join h, List.append_assoc, walk_append_eq_ok_iff] at hwalk
  obtain ⟨base, hfront, hrest⟩ := hwalk
  refine ⟨base, ?_⟩
  rw [LeadsTo, walk_append_eq_ok_iff]
  refine ⟨base, hfront, ?_⟩
  rw [walk_here_eq_ok_iff]
  exact ⟨(walk_cons_eq_ok_iff.1 hrest).1, rfl⟩

/-- A file in a folder lies in the folder of that name where the root leads. -/
theorem LeadsTo.of_writable_join {tree : FileTree} {root path folder file : Bytes}
    {base location : Location} (hbase : tree.LeadsTo root base)
    (h : IsOrdinary path [folder] file) (hw : tree.writable (join root path) = .ok location) :
    location = file :: folder :: base ∧ tree.walk base [folder, here] = .ok (folder :: base) := by
  obtain ⟨parent, hopens, rfl⟩ := opens_of_writable_join h hw
  have hwalk := hopens.walk_eq
  rw [origin_join h, hbase.walk_append] at hwalk
  have hfolder := h.ordinary folder (by simp)
  obtain ⟨middle, hstep, hlast⟩ := walk_append_eq_ok_iff.1 hwalk
  obtain ⟨-, rfl⟩ := walk_here_eq_ok_iff.1 hlast
  obtain ⟨-, -, rfl⟩ := (walk_name_eq_ok_iff hfolder.1 hfolder.2).1 hstep
  exact ⟨rfl, hwalk⟩

theorem refuse_eq_ok_iff {path : Bytes} :
    refuse path = .ok () ↔ 0 ∉ path ∧ path ≠ [] ∧ path.length ≤ maxPath := by
  unfold refuse
  by_cases hzero : 0 ∈ path
  · simp [hzero]
  · by_cases hnil : path = []
    · simp [hnil]
    · by_cases hlong : maxPath < path.length
      · simp [hzero, hnil, hlong]
      · simp [hzero, hnil, hlong, Nat.le_of_not_lt hlong]

/-- Of two files in one place, the one with the shorter name is refused only if
the other one is. -/
theorem refuse_join {root path path' file file' : Bytes} {folders : List Bytes}
    (h : IsOrdinary path folders file) (h' : IsOrdinary path' folders file')
    (hlength : file'.length ≤ file.length) (hzero : 0 ∉ file')
    (haccepted : refuse (join root path) = .ok ()) : refuse (join root path') = .ok () := by
  obtain ⟨front, -, hfront⟩ :=
    exists_assemble_append (isRooted root) ((settle root).reverse ++ folders)
  rw [h.join_eq, hfront file h.file_isName.ne_nil, refuse_eq_ok_iff] at haccepted
  rw [h'.join_eq, hfront file' h'.file_isName.ne_nil, refuse_eq_ok_iff]
  obtain ⟨hfree, -, hshort⟩ := haccepted
  rw [List.length_append] at hshort ⊢
  refine ⟨?_, by simp [h'.file_isName.ne_nil], by omega⟩
  intro hmem
  rcases List.mem_append.1 hmem with hmem | hmem
  · exact hfree (List.mem_append_left file hmem)
  · exact hzero hmem

theorem endsInSlash_join {path file : Bytes} {folders : List Bytes}
    (h : IsOrdinary path folders file) (root : Bytes) : endsInSlash (join root path) = false := by
  obtain ⟨front, -, hfront⟩ :=
    exists_assemble_append (isRooted root) ((settle root).reverse ++ folders)
  rw [h.join_eq, hfront file h.file_isName.ne_nil, endsInSlash, beq_eq_false_iff_ne]
  intro hlast
  rw [List.getLast?_append, List.getLast?_eq_some_getLast h.file_isName.ne_nil,
    Option.some_or] at hlast
  exact h.file_isName.no_slash (Option.some.inj hlast ▸ List.getLast_mem _)

/-- Where a file directly below the root is looked for, whether it is there or not. -/
theorem LeadsTo.locate_join {tree : FileTree} {root path file : Bytes} {base : Location}
    (hbase : tree.LeadsTo root base) (h : IsOrdinary path [] file)
    (haccepted : refuse (join root path) = .ok ()) (hshort : file.length ≤ maxName) :
    tree.locate (join root path) = .ok (file :: base) := by
  have hordinary := h.ordinary file (by simp)
  obtain ⟨middle, hfront, hlast⟩ := walk_append_eq_ok_iff.1 hbase
  obtain ⟨hdir, rfl⟩ := walk_here_eq_ok_iff.1 hlast
  have hwalk : tree.walk (tree.origin root) ((settle root).reverse ++ [file]) =
      .ok (file :: base) := by
    rw [walk_append_eq_ok_iff]
    refine ⟨base, hfront, ?_⟩
    rw [walk_name_eq_ok_iff hordinary.1 hordinary.2]
    exact ⟨hdir, hshort, rfl⟩
  simpa [locate, haccepted, h.names_join, endsInSlash_join h, origin_join h, bind, Except.bind]
    using hwalk

/-- A file that is there is found, if nothing is wrong with its path. -/
theorem LeadsTo.find_join {tree : FileTree} {root path folder file content : Bytes}
    {base : Location} (hbase : tree.LeadsTo root base) (h : IsOrdinary path [folder] file)
    (hfolder : tree.walk base [folder, here] = .ok (folder :: base))
    (haccepted : refuse (join root path) = .ok ()) (hshort : file.length ≤ maxName)
    (hfile : tree.entry? (file :: folder :: base) = some (.file content)) :
    tree.find (join root path) = .ok (.file content) := by
  have hordinary := h.ordinary file (by simp)
  have hopens : tree.Opens (join root path) ((settle root).reverse ++ [folder]) file
      (folder :: base) :=
    { accepted := haccepted
      names_eq := h.names_join root
      walk_eq := by
        rw [origin_join h, hbase.walk_append]
        exact hfolder
      ne_here := hordinary.1
      ne_above := hordinary.2
      no_slash := endsInSlash_join h root
      short := hshort
      not_directory := by simp [hfile] }
  exact find_eq_ok_iff.2 ⟨_, hopens.locate_eq, hfile⟩

end FileTree

end PlaceholderIcons
