import PlaceholderIcons.FileTree.Layout
import PlaceholderIcons.Proofs.ChecksumText
import PlaceholderIcons.Proofs.GeneratedIcons

/-!
The manifest of a run against the files of the same run. Of several specs with
one target the last is both recorded and stored, so a fresh manifest passes
its audit as long as sizes are positive and different targets lie in different
files; two targets with one path never pass.
-/

namespace PlaceholderIcons

theorem contentHash_ne_nil (data : Bytes) : contentHash data ≠ [] := by
  have hlength : (contentHash data).length = 16 := Checksum.length_text _
  intro hnil
  rw [hnil] at hlength
  cases hlength

namespace Document

theorem path_ne_nil (target : Bytes) : path target ≠ [] := by
  intro hnil
  have hsuffix := (List.append_eq_nil_iff.1 hnil).2
  revert hsuffix
  decide

theorem isRooted_path {target : Bytes} (h : FilePath.isRooted target = false) :
    FilePath.isRooted (path target) = false := by
  have hsuffix : FilePath.isRooted (utf8 ".svg") = false := by decide
  unfold path
  generalize target.length - (extension target).length = count
  cases target with
  | nil => simpa using hsuffix
  | cons b rest =>
      cases count with
      | zero => simpa using hsuffix
      | succ count => exact h

end Document

/-- The last spec of its target. -/
def IconSpec.IsLastOf (spec : IconSpec) (specs : List IconSpec) : Prop :=
  ∃ front back, specs = front ++ spec :: back ∧ ∀ later ∈ back, later.target ≠ spec.target

theorem IconSpec.IsLastOf.mem {spec : IconSpec} {specs : List IconSpec} (h : spec.IsLastOf specs) :
    spec ∈ specs := by
  obtain ⟨front, back, rfl, -⟩ := h
  simp

theorem IconSpec.exists_isLastOf {specs : List IconSpec} {target : Bytes}
    (h : ∃ spec ∈ specs, spec.target = target) :
    ∃ last : IconSpec, last.IsLastOf specs ∧ last.target = target := by
  induction specs with
  | nil => simp at h
  | cons first rest ih =>
      by_cases hlater : ∃ later ∈ rest, later.target = target
      · obtain ⟨last, ⟨front, back, rfl, hback⟩, htarget⟩ := ih hlater
        exact ⟨last, ⟨first :: front, back, rfl, hback⟩, htarget⟩
      · obtain ⟨spec, hspec, rfl⟩ := h
        rcases List.mem_cons.1 hspec with rfl | hspec
        · refine ⟨spec, ⟨[], rest, rfl, ?_⟩, rfl⟩
          intro later hmem htarget
          exact hlater ⟨later, hmem, htarget⟩
        · exact absurd ⟨spec, hspec, rfl⟩ hlater

/-- A finished run recorded exactly the last spec of each target. -/
theorem mem_listing_manifest {specs : List IconSpec} {now : Bytes} {s : RunSettings}
    {x : Bytes × IconRecord} :
    x ∈ ((Outcome.mk (specs.map IconSpec.draw) none).manifest now s).listing ↔
      ∃ spec : IconSpec, spec.IsLastOf specs ∧ x = (spec.target, spec.draw.record) := by
  rw [Outcome.manifest_eq]
  change x ∈ (recordedIcons (specs.map IconSpec.draw)).entries ↔ _
  rw [mem_recordedIcons]
  constructor
  · rintro ⟨front, d, back, hsplit, rfl, hlast⟩
    obtain ⟨before, rest, rfl, -, hrest⟩ := List.map_eq_append_iff.1 hsplit
    obtain ⟨spec, after, rfl, rfl, rfl⟩ := List.map_eq_cons_iff.1 hrest
    refine ⟨spec, ⟨before, after, rfl, ?_⟩, rfl⟩
    intro later hlater
    exact hlast later.draw (List.mem_map_of_mem hlater)
  · rintro ⟨spec, ⟨before, after, rfl, hlast⟩, rfl⟩
    refine ⟨before.map IconSpec.draw, spec.draw, after.map IconSpec.draw, by simp, rfl, ?_⟩
    intro d hd
    obtain ⟨later, hlater, rfl⟩ := List.mem_map.1 hd
    exact hlast later hlater

/-- Different targets lie in different files of the tree. -/
def TargetsApart (tree : FileTree) (root : Bytes) (specs : List IconSpec) : Prop :=
  ∀ a ∈ specs, ∀ b ∈ specs, a.target ≠ b.target →
    tree.locate (FilePath.join root (Document.path a.target)) ≠
      tree.locate (FilePath.join root (Document.path b.target))

/-- The last spec of a target is what its file holds after the run. -/
theorem find_last {tree : FileTree} {root : Bytes} {specs : List IconSpec} {spec : IconSpec}
    (hwritable : ∀ spec ∈ specs, ∃ location, tree.writable (spec.draw.location root) = .ok location)
    (hapart : TargetsApart tree root specs) (hlast : spec.IsLastOf specs) :
    FileTree.find ((specs.map IconSpec.draw).foldl (Drawing.store root) tree)
      (FilePath.join root (Document.path spec.target)) =
      .ok (.file (Document.render spec.size spec.label)) := by
  have hmem := hlast.mem
  obtain ⟨location, hpath⟩ := hwritable spec hmem
  obtain ⟨front, back, hsplit, hback⟩ := hlast
  have hlocate := FileTree.locate_of_writable hpath
  rw [FileTree.find_eq_ok_iff]
  refine ⟨location, ?_, ?_⟩
  · exact FileTree.locate_of_sameDirectories (sameDirectories_foldl_store root tree _) hlocate
  · rw [hsplit, List.map_append, List.map_cons]
    apply entry?_foldl_store_last hpath
    intro d hd hsame
    obtain ⟨later, hlater, rfl⟩ := List.mem_map.1 hd
    have hlater' : later ∈ specs := by simp [hsplit, hlater]
    have hother := FileTree.locate_of_writable hsame
    exact absurd (hother.trans hlocate.symm) (hapart later hlater' spec hmem (hback later hlater))

/-- Where a manifest is audited from: the root that the run used, or the root as
it was given as long as no target is absolute. -/
def AuditBase (s : RunSettings) (base : Bytes) : Prop :=
  base = s.withDefaults.root ∨
    base = s.root ∧ ∀ spec ∈ s.set.specs, FilePath.isRooted spec.target = false

theorem AuditBase.join_eq {s : RunSettings} {base : Bytes} (h : AuditBase s base) {spec : IconSpec}
    (hspec : spec ∈ s.set.specs) :
    FilePath.join base (Document.path spec.target) =
      FilePath.join s.withDefaults.root (Document.path spec.target) := by
  rcases h with rfl | ⟨rfl, hrelative⟩
  · rfl
  · exact (s.join_withDefaults (Document.path_ne_nil _)
      (Document.isRooted_path (hrelative spec hspec))).symm

/-- A drawn icon is sound if its size is positive and its document is stored
where the path leads. -/
theorem iconSound_draw {tree : FileTree} {base : Bytes} {spec : IconSpec} (hsize : 0 < spec.size)
    (hfile : tree.find (FilePath.join base (Document.path spec.target)) =
      .ok (.file (Document.render spec.size spec.label))) :
    Manifest.IconSound tree base spec.draw.record :=
  ⟨hsize, contentHash_ne_nil _, Document.path_ne_nil _, _, hfile, rfl, rfl⟩

/-- A finished manifest is valid once the last spec of each target has a positive
size, a path of its own, and its document in place. -/
theorem valid_manifest {tree : FileTree} {base now : Bytes} {s : RunSettings}
    {specs : List IconSpec} (hsizes : ∀ spec : IconSpec, spec.IsLastOf specs → 0 < spec.size)
    (hpaths : ∀ a b : IconSpec, a.IsLastOf specs → b.IsLastOf specs → a.target ≠ b.target →
      Document.path a.target ≠ Document.path b.target)
    (hfind : ∀ spec : IconSpec, spec.IsLastOf specs →
      tree.find (FilePath.join base (Document.path spec.target)) =
        .ok (.file (Document.render spec.size spec.label))) :
    ((Outcome.mk (specs.map IconSpec.draw) none).manifest now s).Valid tree base := by
  refine ⟨?_, ?_, ?_, ?_, ?_⟩
  · rw [Outcome.manifest_eq]
    rfl
  · intro e he
    obtain ⟨spec, hlast, rfl⟩ := mem_listing_manifest.1 he
    exact iconSound_draw (hsizes spec hlast) (hfind spec hlast)
  · intro e he e' he'
    obtain ⟨a, ha, rfl⟩ := mem_listing_manifest.1 he
    obtain ⟨b, hb, rfl⟩ := mem_listing_manifest.1 he'
    exact hpaths a b ha hb
  · rw [Outcome.manifest_eq]
    rfl
  · rw [Outcome.manifest_eq]
    exact Manifest.totals_bytes_eq _

/-- A finished manifest is not valid if it records a size that is not positive, or
if two of its targets have one path. -/
theorem not_valid_manifest {tree : FileTree} {base now : Bytes} {s : RunSettings}
    {specs : List IconSpec}
    (hbad : (∃ spec : IconSpec, spec.IsLastOf specs ∧ spec.size ≤ 0) ∨
      ∃ a ∈ specs, ∃ b ∈ specs, a.target ≠ b.target ∧
        Document.path a.target = Document.path b.target) :
    ¬ ((Outcome.mk (specs.map IconSpec.draw) none).manifest now s).Valid tree base := by
  intro hvalid
  rcases hbad with ⟨spec, hlast, hsize⟩ | ⟨a, ha, b, hb, hne, hpath⟩
  · have hsound := hvalid.icons_sound _ (mem_listing_manifest.2 ⟨spec, hlast, rfl⟩)
    exact Int64.not_lt.2 hsize hsound.size_pos
  · obtain ⟨a', ha', htarget⟩ := IconSpec.exists_isLastOf ⟨a, ha, rfl⟩
    obtain ⟨b', hb', htarget'⟩ := IconSpec.exists_isLastOf ⟨b, hb, rfl⟩
    apply hvalid.paths_distinct _ (mem_listing_manifest.2 ⟨a', ha', rfl⟩) _
      (mem_listing_manifest.2 ⟨b', hb', rfl⟩)
    · change a'.target ≠ b'.target
      rw [htarget, htarget']
      exact hne
    · change Document.path a'.target = Document.path b'.target
      rw [htarget, htarget', hpath]

/-- The audit of a fresh manifest. With positive recorded sizes and different
targets in different files, an audit from the root of the run finds no fault,
and the last spec of each target is both recorded and stored. A recorded size
that is not positive, or one path for two targets, is found from everywhere and
whatever has happened to the files since. -/
theorem audit_of_generate (tree next : FileTree) (now : Bytes) (s : RunSettings) (run : Run)
    (m : Manifest) (hrun : (generate now s : FileTreeM Run).run tree = (run, next))
    (hok : run.result = .ok m) :
    (∀ base, AuditBase s base → (∀ e ∈ m.listing, 0 < e.2.size) →
      TargetsApart tree s.withDefaults.root s.set.specs →
      ((m.audit base : FileTreeM _).run next).1 = [] ∧
      ∀ spec : IconSpec, spec.IsLastOf s.set.specs →
        (spec.target, spec.draw.record) ∈ m.listing ∧
        next.find (FilePath.join base (Document.path spec.target)) =
          .ok (.file (Document.render spec.size spec.label))) ∧
    ((∃ e ∈ m.listing, e.2.size ≤ 0) ∨
      (∃ a ∈ s.set.specs, ∃ b ∈ s.set.specs, a.target ≠ b.target ∧
        Document.path a.target = Document.path b.target) →
      ∀ (base : Bytes) (later : FileTree), ((m.audit base : FileTreeM _).run later).1 ≠ []) := by
  obtain ⟨hm, hnext, hwritable⟩ := generate_ok hrun hok
  have hlisting : ∀ x, x ∈ m.listing ↔
      ∃ spec : IconSpec, spec.IsLastOf s.set.specs ∧ x = (spec.target, spec.draw.record) := by
    intro x
    rw [hm]
    exact mem_listing_manifest
  constructor
  · intro base hbase hsizes hapart
    have hfind : ∀ spec : IconSpec, spec.IsLastOf s.set.specs →
        next.find (FilePath.join base (Document.path spec.target)) =
          .ok (.file (Document.render spec.size spec.label)) := by
      intro spec hlast
      rw [hbase.join_eq hlast.mem, hnext]
      exact find_last hwritable hapart hlast
    refine ⟨?_, fun spec hlast => ⟨(hlisting _).2 ⟨spec, hlast, rfl⟩, hfind spec hlast⟩⟩
    rw [Manifest.audit_run, Manifest.faults_eq_nil_iff, hm]
    apply valid_manifest _ _ hfind
    · intro spec hlast
      exact hsizes _ ((hlisting _).2 ⟨spec, hlast, rfl⟩)
    · intro a b ha hb hne hpath
      apply hapart a ha.mem b hb.mem hne
      rw [hpath]
  · intro hbad base later
    rw [Manifest.audit_run, Ne, Manifest.faults_eq_nil_iff, hm]
    apply not_valid_manifest
    apply hbad.imp_left
    rintro ⟨e, he, hsize⟩
    obtain ⟨spec, hlast, rfl⟩ := (hlisting e).1 he
    exact ⟨spec, hlast, hsize⟩

/-- A set that draws one target twice, with another size and label. -/
def redrawn : RunSettings :=
  { root := FilePath.here
    set :=
      { name := utf8 "redrawn"
        specs :=
          [⟨utf8 "a.png", 16, utf8 "S"⟩, ⟨utf8 "b.png", 48, utf8 "T"⟩,
            ⟨utf8 "a.png", 32, utf8 "U"⟩] }
    previewLimit := 0
    verbose := false }

/-- Two targets with one path, both absolute under the empty root. -/
def collided : RunSettings :=
  { root := []
    set :=
      { name := utf8 "collided"
        specs := [⟨utf8 "/a.png", 16, utf8 "S"⟩, ⟨utf8 "/a.jpg", 32, utf8 "T"⟩] }
    previewLimit := 0
    verbose := false }

theorem audit_of_generate_redrawn :
    (∃ run next m,
      (generate [] redrawn : FileTreeM Run).run (FileTree.fresh [utf8 "w"]) = (run, next) ∧
      run.result = .ok m ∧ (∀ e ∈ m.listing, 0 < e.2.size) ∧
      TargetsApart (FileTree.fresh [utf8 "w"]) redrawn.withDefaults.root redrawn.set.specs ∧
      ((m.audit FilePath.here : FileTreeM _).run next).1 = []) ∧
    ∃ run next m,
      (generate [] collided : FileTreeM Run).run (FileTree.fresh [utf8 "w"]) = (run, next) ∧
      run.result = .ok m ∧ ((m.audit collided.root : FileTreeM _).run next).1 ≠ [] := by
  constructor
  · refine ⟨_, _, _, rfl, rfl, ?_⟩
    have hsizes : ∀ e ∈ ((Outcome.mk (redrawn.set.specs.map IconSpec.draw) none).manifest []
        redrawn.withDefaults).listing, 0 < e.2.size := by
      decide +kernel
    have hapart : TargetsApart (FileTree.fresh [utf8 "w"]) redrawn.withDefaults.root
        redrawn.set.specs := by
      unfold TargetsApart
      decide +kernel
    refine ⟨hsizes, hapart, ?_⟩
    exact ((audit_of_generate (FileTree.fresh [utf8 "w"]) _ [] redrawn _ _ rfl rfl).1
      FilePath.here (.inl rfl) hsizes hapart).1
  · refine ⟨_, _, _, rfl, rfl, ?_⟩
    have hshared : ∃ a ∈ collided.set.specs, ∃ b ∈ collided.set.specs, a.target ≠ b.target ∧
        Document.path a.target = Document.path b.target := by
      decide +kernel
    exact (audit_of_generate (FileTree.fresh [utf8 "w"]) _ [] collided _ _ rfl rfl).2
      (.inr hshared) collided.root _

/-- An absolute target under the empty root. -/
def absoluteTarget : RunSettings :=
  { root := []
    set := { name := utf8 "absolute", specs := [⟨utf8 "/a.png", 16, utf8 "S"⟩] }
    previewLimit := 0
    verbose := false }

/-- The empty root is replaced before icons are written, and the icon of an
absolute target is then stored in the working directory. An audit from the
empty path looks for it at the root of the tree. -/
theorem audit_of_generate_empty_root :
    ∃ run next m,
      (generate [] absoluteTarget : FileTreeM Run).run (FileTree.fresh [utf8 "w"]) = (run, next) ∧
      run.result = .ok m ∧ (∀ e ∈ m.listing, 0 < e.2.size) ∧
      TargetsApart (FileTree.fresh [utf8 "w"]) absoluteTarget.root absoluteTarget.set.specs ∧
      TargetsApart (FileTree.fresh [utf8 "w"]) absoluteTarget.withDefaults.root
        absoluteTarget.set.specs ∧
      ((m.audit absoluteTarget.root : FileTreeM _).run next).1 ≠ [] := by
  refine ⟨_, _, _, rfl, rfl, by decide +kernel, ?_, ?_, ?_⟩
  · unfold TargetsApart
    decide +kernel
  · unfold TargetsApart
    decide +kernel
  · rw [Manifest.audit_run, Ne, Manifest.faults_eq_nil_iff]
    intro hvalid
    have hlisted : (utf8 "/a.png", (IconSpec.mk (utf8 "/a.png") 16 (utf8 "S")).draw.record) ∈
        ((Outcome.mk (absoluteTarget.set.specs.map IconSpec.draw) none).manifest []
          absoluteTarget.withDefaults).listing :=
      mem_listing_manifest.2 ⟨_, ⟨[], [], rfl, by simp⟩, rfl⟩
    obtain ⟨content, hfind, -⟩ := (hvalid.icons_sound _ hlisted).file
    cases hfind

end PlaceholderIcons
