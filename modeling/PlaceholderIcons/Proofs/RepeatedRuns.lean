import PlaceholderIcons.Proofs.FreshManifest
import PlaceholderIcons.Proofs.InterruptedRuns

/-!
Runs compared with one another. Where icons are stored is settled by the
directories, which no run changes, so storing icons is inserting them into the
table of entries at places that are known beforehand. Hence a run that is
repeated shows and leaves the same, also if it fails or draws one file several
times, and icons that lie in different files can be drawn in any order.
-/

namespace PlaceholderIcons

/-- Where the directories of a tree place a drawing. The location of a drawing
that cannot be stored is of no account. -/
def Drawing.place (root : Bytes) (tree : FileTree) (drawing : Drawing) : Location :=
  match tree.writable (drawing.location root) with
  | .ok location => location
  | .error _ => []

theorem Drawing.writable_eq_place {root : Bytes} {tree : FileTree} {drawing : Drawing}
    (h : ∃ location, tree.writable (drawing.location root) = .ok location) :
    tree.writable (drawing.location root) = .ok (drawing.place root tree) := by
  obtain ⟨location, hlocation⟩ := h
  rw [place, hlocation]

/-- Storing drawings is inserting their documents at places that are known
beforehand. -/
theorem foldl_store_eq {root : Bytes} {place : Drawing → Location} {drawings : List Drawing}
    {tree : FileTree}
    (h : ∀ drawing ∈ drawings, tree.writable (drawing.location root) = .ok (place drawing)) :
    drawings.foldl (Drawing.store root) tree =
      { tree with
        entries := drawings.foldl (fun t d => t.insert (place d) (.file d.document))
          tree.entries } := by
  induction drawings generalizing tree with
  | nil => rfl
  | cons drawing rest ih =>
    have hplace := h drawing List.mem_cons_self
    have hstore : drawing.store root tree = tree.put (place drawing) drawing.document := by
      rw [Drawing.store, FileTree.write, hplace]
    have hsame := drawing.sameDirectories_store root tree
    rw [List.foldl_cons, ih, hstore]
    · rfl
    · intro d hd
      exact FileTree.writable_of_sameDirectories hsame (h d (List.mem_cons_of_mem drawing hd))

/-- Drawings that have all been stored can be stored again without effect. -/
theorem foldl_store_again {root : Bytes} {drawings : List Drawing} {tree : FileTree}
    (h : ∀ drawing ∈ drawings, ∃ location,
      tree.writable (drawing.location root) = .ok location) :
    drawings.foldl (Drawing.store root) (drawings.foldl (Drawing.store root) tree) =
      drawings.foldl (Drawing.store root) tree := by
  have hplaces : ∀ drawing ∈ drawings,
      tree.writable (drawing.location root) = .ok (drawing.place root tree) :=
    fun drawing hdrawing => Drawing.writable_eq_place (h drawing hdrawing)
  have hsame := sameDirectories_foldl_store root tree drawings
  -- The first pass moves no place, so both passes insert at the same ones.
  rw [foldl_store_eq fun drawing hdrawing =>
    FileTree.writable_of_sameDirectories hsame (hplaces drawing hdrawing), foldl_store_eq hplaces]
  simp only [Table.foldl_insert_again]

theorem IconSpec.opens_of_sameDirectories {root : Bytes} {tree next : FileTree}
    (h : tree.SameDirectories next) (spec : IconSpec) :
    spec.opens root next = spec.opens root tree := by
  rw [Bool.eq_iff_iff, IconSpec.opens_iff, IconSpec.opens_iff]
  constructor
  · rintro ⟨location, hlocation⟩
    exact ⟨location, FileTree.writable_of_sameDirectories h.symm hlocation⟩
  · rintro ⟨location, hlocation⟩
    exact ⟨location, FileTree.writable_of_sameDirectories h hlocation⟩

theorem firstBlocked_of_sameDirectories {root : Bytes} {tree next : FileTree}
    (h : tree.SameDirectories next) (specs : List IconSpec) :
    firstBlocked root next specs = firstBlocked root tree specs := by
  simp only [firstBlocked, IconSpec.opens_of_sameDirectories h]

/-- A run on the tree that an equal run has left shows all the same, manifest or
failure, report and log, and leaves that tree as it is. -/
theorem generate_again (now : Bytes) (s : RunSettings) (tree : FileTree) :
    (generate now s : FileTreeM Run).run ((generate now s : FileTreeM Run).run tree).2 =
      (generate now s : FileTreeM Run).run tree := by
  obtain ⟨⟨written, failed⟩, hrun, hwritten, hending⟩ := generate_front now s tree
  obtain ⟨⟨written', failed'⟩, hrun', hwritten', hending'⟩ :=
    generate_front now s (written.foldl (Drawing.store s.withDefaults.root) tree)
  dsimp only at hrun hwritten hending hrun' hwritten' hending'
  have hsame := sameDirectories_foldl_store s.withDefaults.root tree written
  rw [firstBlocked_of_sameDirectories hsame] at hwritten' hending'
  obtain rfl : written' = written := hwritten'.trans hwritten.symm
  have hstored : written'.foldl (Drawing.store s.withDefaults.root)
      (written'.foldl (Drawing.store s.withDefaults.root) tree) =
        written'.foldl (Drawing.store s.withDefaults.root) tree := by
    apply foldl_store_again
    intro drawing hdrawing
    rw [hwritten] at hdrawing
    obtain ⟨spec, hspec, rfl⟩ := List.mem_map.1 hdrawing
    exact IconSpec.opens_iff.1 (opens_of_mem_take hspec)
  -- Both runs meet the blocked icon in the same tree, hence with the same cause.
  have hfailed : failed' = failed := by
    rw [hstored] at hending'
    cases hspec : s.set.specs[firstBlocked s.withDefaults.root tree s.set.specs]? with
    | none =>
      simp only [hspec] at hending hending'
      exact hending'.trans hending.symm
    | some spec =>
      simp only [hspec] at hending hending'
      obtain ⟨cause, hcause, rfl⟩ := hending
      obtain ⟨cause', hcause', rfl⟩ := hending'
      rw [Except.error.inj (hcause'.symm.trans hcause)]
  rw [hrun, hrun', hstored, hfailed]

/-- The same settings for other icons. -/
def RunSettings.withSpecs (s : RunSettings) (specs : List IconSpec) : RunSettings :=
  { s with set := { s.set with specs := specs } }

/-- No two specs that can be stored are stored in the same file. -/
def FilesApart (tree : FileTree) (root : Bytes) (specs : List IconSpec) : Prop :=
  specs.Pairwise fun a b => a.opens root tree = true →
    tree.writable (FilePath.join root (Document.path a.target)) ≠
      tree.writable (FilePath.join root (Document.path b.target))

/-- A run succeeds exactly if every icon can be stored in the tree it starts from. -/
theorem generate_ok_iff (now : Bytes) (s : RunSettings) (tree : FileTree) :
    (∃ m, ((generate now s : FileTreeM Run).run tree).1.result = .ok m) ↔
      ∀ spec ∈ s.set.specs, spec.opens s.withDefaults.root tree = true := by
  constructor
  · rintro ⟨m, hm⟩ spec hspec
    obtain ⟨-, -, hwritable⟩ := generate_ok rfl hm
    exact IconSpec.opens_iff.2 (hwritable spec hspec)
  · intro hopens
    obtain ⟨⟨written, failed⟩, hrun, -, hending⟩ := generate_front now s tree
    rw [firstBlocked_eq_length hopens, List.getElem?_length] at hending
    obtain rfl : failed = none := hending
    rw [hrun]
    exact ⟨_, rfl⟩

/-- Icons at different places leave the same tree in any order. -/
theorem foldl_store_perm {root : Bytes} {tree : FileTree} {specs specs' : List IconSpec}
    (hperm : specs.Perm specs') (hopens : ∀ spec ∈ specs, spec.opens root tree = true)
    (hfiles : FilesApart tree root specs) :
    (specs.map IconSpec.draw).foldl (Drawing.store root) tree =
      (specs'.map IconSpec.draw).foldl (Drawing.store root) tree := by
  have hplaces : ∀ drawing ∈ specs.map IconSpec.draw,
      tree.writable (drawing.location root) = .ok (drawing.place root tree) := by
    intro drawing hdrawing
    obtain ⟨spec, hspec, rfl⟩ := List.mem_map.1 hdrawing
    exact Drawing.writable_eq_place (IconSpec.opens_iff.1 (hopens spec hspec))
  have hdrawings := hperm.map IconSpec.draw
  have hkeys : ((specs.map IconSpec.draw).map (Drawing.place root tree)).Nodup := by
    rw [List.map_map, List.Nodup, List.pairwise_map]
    apply hfiles.imp_of_mem
    intro a b ha hb hapart heq
    apply hapart (hopens a ha)
    have hplace := hplaces a.draw (List.mem_map_of_mem ha)
    rw [show a.draw.place root tree = b.draw.place root tree from heq] at hplace
    exact hplace.trans (hplaces b.draw (List.mem_map_of_mem hb)).symm
  rw [foldl_store_eq hplaces, foldl_store_eq fun drawing hdrawing =>
    hplaces drawing (hdrawings.mem_iff.2 hdrawing)]
  rw [Table.foldl_insert_perm (fun d => Entry.file d.document) hdrawings hkeys]

/-- Icons with different targets are recorded alike in any order. -/
theorem recordedIcons_perm {specs specs' : List IconSpec} (hperm : specs.Perm specs')
    (htargets : (specs.map IconSpec.target).Nodup) :
    recordedIcons (specs.map IconSpec.draw) = recordedIcons (specs'.map IconSpec.draw) := by
  apply Table.foldl_insert_perm Drawing.record (hperm.map IconSpec.draw)
  rw [List.map_map]
  exact htargets

/-- Icons with different targets in different files can be drawn in any order: a
run succeeds for all orders or for none, and if it does then the tree that is
left and the manifest, totals included, are the same. -/
theorem generate_perm (now : Bytes) (s : RunSettings) (tree : FileTree) {specs : List IconSpec}
    (hperm : s.set.specs.Perm specs) (htargets : (s.set.specs.map IconSpec.target).Nodup)
    (hfiles : FilesApart tree s.withDefaults.root s.set.specs) :
    let first := (generate now s : FileTreeM Run).run tree
    let second := (generate now (s.withSpecs specs) : FileTreeM Run).run tree
    ((∃ m, first.1.result = .ok m) ↔ ∃ m, second.1.result = .ok m) ∧
    ((∃ m, first.1.result = .ok m) →
      second.2 = first.2 ∧ second.1.result = first.1.result) := by
  intro first second
  have hsucceed : (∃ m, first.1.result = .ok m) ↔ ∃ m, second.1.result = .ok m := by
    rw [generate_ok_iff, generate_ok_iff]
    constructor
    · intro hopens spec hspec
      exact hopens spec (hperm.mem_iff.2 hspec)
    · intro hopens spec hspec
      exact hopens spec (hperm.mem_iff.1 hspec)
  refine ⟨hsucceed, ?_⟩
  intro hok
  have hopens := (generate_ok_iff now s tree).1 hok
  obtain ⟨m, hm⟩ := hok
  obtain ⟨m', hm'⟩ := hsucceed.1 ⟨m, hm⟩
  have hrun : (generate now s : FileTreeM Run).run tree = (first.1, first.2) := rfl
  have hrun' : (generate now (s.withSpecs specs) : FileTreeM Run).run tree =
      (second.1, second.2) := rfl
  obtain ⟨rfl, hfirst, -⟩ := generate_ok hrun hm
  obtain ⟨rfl, hsecond, -⟩ := generate_ok hrun' hm'
  constructor
  · rw [hfirst, hsecond]
    exact (foldl_store_perm hperm hopens hfiles).symm
  · rw [hm, hm', Outcome.manifest_eq, Outcome.manifest_eq]
    simp only [recordedIcons_perm hperm htargets]
    rfl

/-- Three icons that have nothing to do with one another. -/
def independent : RunSettings :=
  { root := FilePath.here
    set :=
      { name := utf8 "independent"
        specs :=
          [⟨utf8 "a.png", 16, utf8 "S"⟩, ⟨utf8 "b.png", 48, utf8 "T"⟩,
            ⟨utf8 "./c.png", 32, utf8 "S"⟩] }
    previewLimit := 0
    verbose := true }

theorem generate_perm_reversed :
    let specs := independent.set.specs.reverse
    let first := (generate [] independent : FileTreeM Run).run (FileTree.fresh [utf8 "w"])
    let second :=
      (generate [] (independent.withSpecs specs) : FileTreeM Run).run (FileTree.fresh [utf8 "w"])
    (independent.set.specs.map IconSpec.target).Nodup ∧
    FilesApart (FileTree.fresh [utf8 "w"]) independent.withDefaults.root independent.set.specs ∧
    (∃ m, first.1.result = .ok m) ∧ second.2 = first.2 ∧
      second.1.result = first.1.result := by
  have hperm : independent.set.specs.Perm independent.set.specs.reverse :=
    (List.reverse_perm _).symm
  have htargets : (independent.set.specs.map IconSpec.target).Nodup := by decide
  have hfiles : FilesApart (FileTree.fresh [utf8 "w"]) independent.withDefaults.root
      independent.set.specs := by
    unfold FilesApart
    decide +kernel
  have hok : ∃ m, ((generate [] independent : FileTreeM Run).run
      (FileTree.fresh [utf8 "w"])).1.result = .ok m := by
    rw [generate_ok_iff]
    decide +kernel
  have hsame := (generate_perm [] independent (FileTree.fresh [utf8 "w"]) hperm htargets hfiles).2 hok
  exact ⟨htargets, hfiles, hok, hsame⟩

end PlaceholderIcons
