import PlaceholderIcons.Proofs.AuditFaults
import PlaceholderIcons.Proofs.PathNames
import PlaceholderIcons.Proofs.RunOutcomes

/-!
What a run leaves behind. Icons are stored in order until one cannot be; which
one that is depends on the directories of the first tree alone. A run that
comes to its end records each target as it was drawn last, and if different
targets lie in different files then the files hold just these drawings.
-/

namespace PlaceholderIcons

/-- For relative paths the default root makes no difference. -/
theorem RunSettings.join_withDefaults (s : RunSettings) {path : Bytes} (hne : path ≠ [])
    (hrelative : FilePath.isRooted path = false) :
    FilePath.join s.withDefaults.root path = FilePath.join s.root path := by
  by_cases hroot : s.root = []
  · have hdefault : s.withDefaults.root = FilePath.here := by
      simp [RunSettings.withDefaults, hroot]
    rw [hdefault, hroot, FilePath.join_nil_eq_join_here hne hrelative]
  · have hdefault : s.withDefaults.root = s.root := by
      simp [RunSettings.withDefaults, hroot]
    rw [hdefault]

theorem Drawing.sameDirectories_store (root : Bytes) (tree : FileTree) (drawing : Drawing) :
    tree.SameDirectories (drawing.store root tree) :=
  tree.sameDirectories_write _ _

theorem sameDirectories_foldl_store (root : Bytes) (tree : FileTree) (drawings : List Drawing) :
    tree.SameDirectories (drawings.foldl (Drawing.store root) tree) := by
  induction drawings generalizing tree with
  | nil => exact .refl tree
  | cons drawing rest ih => exact (drawing.sameDirectories_store root tree).trans (ih _)

/-- Whether a drawing is stored at a location of the tree. -/
def Drawing.goesTo (root : Bytes) (tree : FileTree) (location : Location) (drawing : Drawing) :
    Bool :=
  match tree.writable (drawing.location root) with
  | .ok there => there == location
  | .error _ => false

theorem Drawing.goesTo_iff {root : Bytes} {tree : FileTree} {location : Location}
    {drawing : Drawing} :
    drawing.goesTo root tree location = true ↔
      tree.writable (drawing.location root) = .ok location := by
  unfold goesTo
  cases tree.writable (drawing.location root) with
  | ok there => simp
  | error cause => simp

/-- What is at a location in the end: the last drawing that goes there, and what
was there before if none does. -/
theorem entry?_foldl_store_eq (root : Bytes) (tree : FileTree) (drawings : List Drawing)
    (location : Location) :
    FileTree.entry? (drawings.foldl (Drawing.store root) tree) location =
      match drawings.reverse.find? (Drawing.goesTo root tree location) with
      | some drawing => some (.file drawing.document)
      | none => tree.entry? location := by
  -- From the end, because the last drawing decides.
  induction drawings using List.reverseRecOn with
  | nil => rfl
  | append_singleton rest drawing ih =>
      have hsame := sameDirectories_foldl_store root tree rest
      rw [List.foldl_append, List.foldl_cons, List.foldl_nil, List.reverse_concat,
        List.find?_cons, Drawing.store]
      rcases FileTree.write_cases (rest.foldl (Drawing.store root) tree) (drawing.location root)
        drawing.document with ⟨there, hpath, hwrite⟩ | ⟨cause, hpath, hwrite⟩
      · have hthere := FileTree.writable_of_sameDirectories hsame.symm hpath
        rw [hwrite]
        by_cases heq : location = there
        · subst heq
          rw [Drawing.goesTo_iff.2 hthere, FileTree.entry?_put_of_writable hpath]
        · have hgoes : drawing.goesTo root tree location = false := by
            rw [Bool.eq_false_iff, Ne, Drawing.goesTo_iff, hthere]
            intro hok
            exact heq (Except.ok.inj hok).symm
          rw [hgoes, FileTree.entry?_put_of_ne heq, ih]
      · have hgoes : drawing.goesTo root tree location = false := by
          rw [Bool.eq_false_iff, Ne, Drawing.goesTo_iff]
          intro hok
          rw [FileTree.writable_of_sameDirectories hsame hok] at hpath
          cases hpath
        rw [hwrite, hgoes, ih]

/-- A file stays as it is while drawings are stored, unless one of them goes to
its location and differs from it. -/
theorem entry?_foldl_store {root : Bytes} {tree : FileTree} {drawings : List Drawing}
    {location : Location} {content : Bytes} (hentry : tree.entry? location = some (.file content))
    (hagree : ∀ drawing ∈ drawings, tree.writable (drawing.location root) = .ok location →
      drawing.document = content) :
    FileTree.entry? (drawings.foldl (Drawing.store root) tree) location =
      some (.file content) := by
  rw [entry?_foldl_store_eq]
  cases hlast : drawings.reverse.find? (Drawing.goesTo root tree location) with
  | none => exact hentry
  | some drawing =>
      have hmem := List.mem_reverse.1 (List.mem_of_find?_eq_some hlast)
      have hpath := Drawing.goesTo_iff.1 (List.find?_some hlast)
      simp only [hagree drawing hmem hpath]

/-- A drawing is what its file holds in the end, unless a later one that differs
goes to the same location. -/
theorem entry?_foldl_store_last {root : Bytes} {tree : FileTree} {front back : List Drawing}
    {drawing : Drawing} {location : Location}
    (hpath : tree.writable (drawing.location root) = .ok location)
    (hback : ∀ d ∈ back, tree.writable (d.location root) = .ok location →
      d.document = drawing.document) :
    FileTree.entry? ((front ++ drawing :: back).foldl (Drawing.store root) tree) location =
      some (.file drawing.document) := by
  have hfront := sameDirectories_foldl_store root tree front
  have hthere := FileTree.writable_of_sameDirectories hfront hpath
  rw [List.foldl_append, List.foldl_cons]
  apply entry?_foldl_store
  · rw [Drawing.store, FileTree.write, hthere]
    exact FileTree.entry?_put_of_writable hthere
  · intro d hd hd'
    have hsame := hfront.trans (drawing.sameDirectories_store root _)
    exact hback d hd (FileTree.writable_of_sameDirectories hsame.symm hd')

theorem foldl_insertIcon (drawings : List Drawing) (m : Manifest) (table : Table Bytes IconRecord)
    (h : m.icons = some table) :
    drawings.foldl (fun m d => m.insertIcon d.target d.record) m =
      { m with icons := some (drawings.foldl (fun t d => t.insert d.target d.record) table) } := by
  induction drawings generalizing m table with
  | nil => simp [← h]
  | cons drawing rest ih =>
      have hicons : (m.insertIcon drawing.target drawing.record).icons =
          some (table.insert drawing.target drawing.record) := by
        simp [Manifest.insertIcon, h]
      rw [List.foldl_cons, ih _ _ hicons]
      rfl

/-- The icons of a run, each as it was drawn last. -/
def recordedIcons (drawings : List Drawing) : Table Bytes IconRecord :=
  drawings.foldl (fun t d => t.insert d.target d.record) Table.empty

theorem Outcome.manifest_eq (outcome : Outcome) (now : Bytes) (s : RunSettings) :
    outcome.manifest now s =
      { Manifest.new now s.set.name s.root with
        icons := some (recordedIcons outcome.written) }.refresh := by
  rw [Outcome.manifest, foldl_insertIcon _ _ Table.empty rfl]
  rfl

theorem mem_recordedIcons {drawings : List Drawing} {x : Bytes × IconRecord} :
    x ∈ (recordedIcons drawings).entries ↔
      ∃ front d back, drawings = front ++ d :: back ∧ x = (d.target, d.record) ∧
        ∀ d' ∈ back, d'.target ≠ d.target := by
  rw [recordedIcons, Table.mem_foldl_insert]
  simp [Table.empty]

/-- A run that comes to its end wrote every icon and recorded all of them. -/
theorem generate_ok {now : Bytes} {s : RunSettings} {tree next : FileTree} {run : Run}
    {m : Manifest} (hrun : (generate now s : FileTreeM Run).run tree = (run, next))
    (hok : run.result = .ok m) :
    m = (Outcome.mk (s.set.specs.map IconSpec.draw) none).manifest now s.withDefaults ∧
      next = (s.set.specs.map IconSpec.draw).foldl (Drawing.store s.withDefaults.root) tree ∧
      ∀ spec ∈ s.set.specs, ∃ location,
        tree.writable (spec.draw.location s.withDefaults.root) = .ok location := by
  obtain ⟨⟨written, failed⟩, after, heq, hran⟩ := generate_run now s tree
  rw [heq] at hrun
  obtain ⟨rfl, rfl⟩ := Prod.mk.inj hrun
  obtain ⟨htree, hwritable, hending⟩ := hran
  rcases hending with ⟨rfl, rfl⟩ | ⟨drawing, fault, rest, rfl, -, -⟩
  · refine ⟨(Except.ok.inj hok).symm, htree, ?_⟩
    intro spec hspec
    exact hwritable spec.draw (List.mem_map_of_mem hspec)
  · cases hok

end PlaceholderIcons
