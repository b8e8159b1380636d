import PlaceholderIcons.Proofs.CommandEffects
import PlaceholderIcons.Proofs.FreshManifest
import PlaceholderIcons.Proofs.ManifestRoundTrip

/-!
Histories of generate commands. No command spoils the icons of another one, and
a manifest is only replaced after all its own icons have been written. Every
manifest that was once reported as written therefore still validates after any
further commands, whatever their sets and roots and however they ended.
-/

namespace PlaceholderIcons

open FilePath

namespace CommandLine

/-- An icon is only ever written to a file of its own name. -/
theorem head_eq_fileName {tree : FileTree} {root : Bytes} {spec : IconSpec} {name : Bytes}
    {parent : Location} (hspec : spec ∈ IconSet.manifestV3.specs)
    (h : tree.writable (spec.draw.location root) = .ok (name :: parent)) :
    name = spec.fileName := by
  obtain ⟨other, -, heq⟩ :=
    FileTree.opens_of_writable_join (IconSet.isOrdinary_path hspec) h
  exact (List.cons.inj heq).1

/-- The directory at `base` holds a finished manifest and the icons it lists. -/
def Certified (tree : FileTree) (base : Location) : Prop :=
  ∃ now o, tree.entry? (Manifest.fileName :: base) =
      some (.file (finishedManifest now o).text) ∧
    ∀ spec ∈ (IconSet.named o.set).specs,
      tree.entry? (spec.fileName :: iconFolder :: base) = some (.file spec.draw.document)

theorem entry?_storeIcons_icon {o : Options} {specs : List IconSpec} {tree : FileTree}
    {spec : IconSpec} {parent : Location}
    (hspecs : ∀ spec ∈ specs, spec ∈ IconSet.manifestV3.specs)
    (hspec : spec ∈ IconSet.manifestV3.specs)
    (h : tree.entry? (spec.fileName :: parent) = some (.file spec.draw.document)) :
    FileTree.entry? (storeIcons o specs tree) (spec.fileName :: parent) =
      some (.file spec.draw.document) := by
  apply entry?_foldl_store h
  intro d hd hwritable
  obtain ⟨other, hother, rfl⟩ := List.mem_map.1 hd
  have hname := head_eq_fileName (hspecs other hother) hwritable
  exact IconSet.document_eq_of_fileName_eq (hspecs other hother) hspec hname.symm

/-- No icon goes where a manifest is. -/
theorem entry?_storeIcons_manifest {specs : List IconSpec}
    (hspecs : ∀ spec ∈ specs, spec ∈ IconSet.manifestV3.specs) (o : Options) (tree : FileTree)
    (base : Location) :
    FileTree.entry? (storeIcons o specs tree) (Manifest.fileName :: base) =
      tree.entry? (Manifest.fileName :: base) := by
  rw [storeIcons, entry?_foldl_store_eq]
  split
  next d hlast =>
    obtain ⟨other, hother, rfl⟩ :=
      List.mem_map.1 (List.mem_reverse.1 (List.mem_of_find?_eq_some hlast))
    have hname := head_eq_fileName (hspecs other hother)
      (Drawing.goesTo_iff.1 (List.find?_some hlast))
    exact absurd hname.symm (IconSet.fileName_ne_manifest other (hspecs other hother))
  next => rfl

theorem Certified.storeIcons {tree : FileTree} {base : Location} (h : Certified tree base)
    (o : Options) {specs : List IconSpec}
    (hspecs : ∀ spec ∈ specs, spec ∈ IconSet.manifestV3.specs) :
    Certified (storeIcons o specs tree) base := by
  obtain ⟨now, o', hmanifest, hicons⟩ := h
  refine ⟨now, o', (entry?_storeIcons_manifest hspecs o tree base).trans hmanifest, ?_⟩
  intro spec hspec
  exact entry?_storeIcons_icon hspecs (IconSet.mem_manifestV3_of_mem_named hspec)
    (hicons spec hspec)

/-- A manifest elsewhere is no matter. -/
theorem Certified.put {tree : FileTree} {base other : Location} (h : Certified tree base)
    (hne : other ≠ base) (content : Bytes) :
    Certified (tree.put (Manifest.fileName :: other) content) base := by
  obtain ⟨now, o, hmanifest, hicons⟩ := h
  refine ⟨now, o, ?_, ?_⟩
  · rw [FileTree.entry?_put_of_ne (by simp [Ne.symm hne])]
    exact hmanifest
  · intro spec hspec
    have hname := IconSet.fileName_ne_manifest spec (IconSet.mem_manifestV3_of_mem_named hspec)
    rw [FileTree.entry?_put_of_ne (by simp [hname])]
    exact hicons spec hspec

theorem isOrdinary_manifest : IsOrdinary Manifest.fileName [] Manifest.fileName :=
  ⟨by decide, by decide, by decide⟩

/-- The directories are such that the outputs of a root lie at `base` and can be
reached. -/
structure Reaches (tree : FileTree) (root : Bytes) (base : Location) : Prop where
  leadsTo : tree.LeadsTo root base
  folder : tree.walk base [iconFolder, here] = .ok (iconFolder :: base)
  manifest : tree.locate (manifestPath root) = .ok (Manifest.fileName :: base)
  accepted : FileTree.refuse (join root (Document.path IconSet.largest.target)) = .ok ()

theorem Reaches.of_sameDirectories {tree next : FileTree} {root : Bytes} {base : Location}
    (h : Reaches tree root base) (hsame : tree.SameDirectories next) : Reaches next root base where
  leadsTo := h.leadsTo.of_sameDirectories hsame
  folder := FileTree.walk_of_sameDirectories hsame h.folder
  manifest := FileTree.locate_of_sameDirectories hsame h.manifest
  accepted := h.accepted

/-- The icons of a set, once written for a root that leads to `base`, lie below
it. -/
theorem entry?_storeIcons_self {o : Options} {tree : FileTree} {base : Location}
    (hbase : tree.LeadsTo o.root base)
    (hicons : ∀ spec ∈ (IconSet.named o.set).specs, ∃ place,
      tree.writable (spec.draw.location o.settings.withDefaults.root) = .ok place)
    {spec : IconSpec} (hspec : spec ∈ (IconSet.named o.set).specs) :
    FileTree.entry? (storeIcons o (IconSet.named o.set).specs tree)
        (spec.fileName :: iconFolder :: base) = some (.file spec.draw.document) := by
  have hlisted := IconSet.mem_manifestV3_of_mem_named hspec
  have hordinary := IconSet.isOrdinary_path hlisted
  obtain ⟨place, hplace⟩ := hicons spec hspec
  have hjoin : tree.writable (join o.root (Document.path spec.target)) = .ok place :=
    o.settings.join_withDefaults hordinary.path_ne_nil hordinary.relative ▸ hplace
  obtain ⟨rfl, -⟩ := hbase.of_writable_join hordinary hjoin
  obtain ⟨front, back, hsplit⟩ := List.append_of_mem hspec
  rw [hsplit, storeIcons, List.map_append, List.map_cons]
  apply entry?_foldl_store_last hplace
  intro d hd hwritable
  obtain ⟨other, hother, rfl⟩ := List.mem_map.1 hd
  have hother : other ∈ IconSet.manifestV3.specs :=
    IconSet.mem_manifestV3_of_mem_named (hsplit ▸ List.mem_append_right front
      (List.mem_cons_of_mem spec hother))
  have hname := head_eq_fileName hother hwritable
  exact IconSet.document_eq_of_fileName_eq hother hlisted hname.symm

/-- A command that writes its manifest leaves a certified directory, and its root
reaches it. -/
theorem reaches_of_manifest {now : Bytes} {o : Options} {tree : FileTree} {location : Location}
    (hicons : ∀ spec ∈ (IconSet.named o.set).specs, ∃ place,
      tree.writable (spec.draw.location o.settings.withDefaults.root) = .ok place)
    (hpath : tree.writable (manifestPath o.root) = .ok location) :
    ∃ base, location = Manifest.fileName :: base ∧ Reaches tree o.root base ∧
      Certified ((storeIcons o (IconSet.named o.set).specs tree).put location
        (finishedManifest now o).text) base := by
  obtain ⟨base, hbase, rfl⟩ := FileTree.leadsTo_of_writable_join isOrdinary_manifest hpath
  have hlargest := IconSet.largest_mem_named o.set
  have hordinary := IconSet.isOrdinary_path (IconSet.mem_manifestV3_of_mem_named hlargest)
  obtain ⟨place, hplace⟩ := hicons IconSet.largest hlargest
  have hjoin : tree.writable (join o.root (Document.path IconSet.largest.target)) = .ok place :=
    o.settings.join_withDefaults hordinary.path_ne_nil hordinary.relative ▸ hplace
  obtain ⟨parent, hopens, -⟩ := FileTree.opens_of_writable_join hordinary hjoin
  refine ⟨base, rfl, ?_, now, o, FileTree.entry?_put_self _ _ _ _, ?_⟩
  · exact
      { leadsTo := hbase
        folder := (hbase.of_writable_join hordinary hjoin).2
        manifest := FileTree.locate_of_writable hpath
        accepted := hopens.accepted }
  · intro spec hspec
    have hname := IconSet.fileName_ne_manifest spec (IconSet.mem_manifestV3_of_mem_named hspec)
    rw [FileTree.entry?_put_of_ne (by simp [hname])]
    exact entry?_storeIcons_self hbase hicons hspec

namespace Effect

variable {now : Bytes} {o : Options} {tree next : FileTree} {response : Response}

theorem sameDirectories (h : Effect now o tree response next) : tree.SameDirectories next := by
  cases h with
  | icons => exact sameDirectories_storeIcons o _ tree
  | manifest hicons hpath =>
    have hsame := sameDirectories_storeIcons o (IconSet.named o.set).specs tree
    exact hsame.trans (FileTree.sameDirectories_of_writable
      (FileTree.writable_of_sameDirectories hsame hpath))

/-- No command spoils a certified directory. If it writes a manifest there, then
another finished one with its own icons. -/
theorem certified (h : Effect now o tree response next) {base : Location}
    (hcertified : Certified tree base) : Certified next base := by
  have hlisted : ∀ spec ∈ (IconSet.named o.set).specs, spec ∈ IconSet.manifestV3.specs :=
    fun _ => IconSet.mem_manifestV3_of_mem_named
  cases h with
  | icons hspecs => exact hcertified.storeIcons o fun spec hspec => hlisted spec (hspecs spec hspec)
  | manifest hicons hpath =>
    obtain ⟨other, rfl, -, hother⟩ := reaches_of_manifest hicons hpath
    -- A new manifest in this directory brings its own icons; one elsewhere is not seen here.
    by_cases hbase : other = base
    · exact hbase ▸ hother
    · exact (hcertified.storeIcons o hlisted).put hbase _

theorem reaches (h : Effect now o tree response next) (hmanifest : o.manifest = true)
    (hsuccess : response.failure = none) :
    ∃ base, Reaches tree o.root base ∧ Certified next base := by
  cases h with
  | icons _ hfailure => exact absurd hsuccess (hfailure hmanifest)
  | manifest hicons hpath =>
    obtain ⟨base, rfl, hreaches, hcertified⟩ := reaches_of_manifest hicons hpath
    exact ⟨base, hreaches, hcertified⟩

end Effect

/-- A generate command: when it runs, and its options. -/
structure GenerateCommand where
  now : Bytes
  options : Options

/-- Commands run one after the other, each with what the ones before it left. -/
def runCommands (commands : List GenerateCommand) : FileTreeM (List Response) :=
  commands.mapM fun command => runGenerate command.now command.options

/-- The tree that commands leave. -/
def afterCommands (commands : List GenerateCommand) (tree : FileTree) : FileTree :=
  ((runCommands commands).run tree).2

theorem afterCommands_cons (first : GenerateCommand) (rest : List GenerateCommand)
    (tree : FileTree) : afterCommands (first :: rest) tree =
      afterCommands rest ((runGenerate first.now first.options : FileTreeM _).run tree).2 := by
  rw [afterCommands, runCommands, List.mapM_cons, FileTreeM.run_bind, FileTreeM.run_bind,
    FileTreeM.run_pure]
  rfl

theorem afterCommands_append (before later : List GenerateCommand) (tree : FileTree) :
    afterCommands (before ++ later) tree = afterCommands later (afterCommands before tree) := by
  induction before generalizing tree with
  | nil => rfl
  | cons first rest ih => rw [List.cons_append, afterCommands_cons, afterCommands_cons, ih]

/-- Whatever commands do, directories stay and certified ones stay certified. -/
theorem afterCommands_certified (commands : List GenerateCommand) (tree : FileTree) :
    tree.SameDirectories (afterCommands commands tree) ∧
      ∀ base, Certified tree base → Certified (afterCommands commands tree) base := by
  induction commands generalizing tree with
  | nil => exact ⟨.refl tree, fun _ h => h⟩
  | cons first rest ih =>
    obtain ⟨response, next, hfirst, heffect⟩ := runGenerate_effect first.now first.options tree
    obtain ⟨hsame, hkeep⟩ := ih next
    rw [afterCommands_cons, hfirst]
    refine ⟨heffect.sameDirectories.trans hsame, ?_⟩
    intro base hbase
    exact hkeep base (heffect.certified hbase)

theorem find_icon {tree : FileTree} {root : Bytes} {base : Location}
    (hreaches : Reaches tree root base) {spec : IconSpec} (hspec : spec ∈ IconSet.manifestV3.specs)
    (hentry : tree.entry? (spec.fileName :: iconFolder :: base) =
      some (.file spec.draw.document)) :
    tree.find (join (clean root) (Document.path spec.target)) =
      .ok (.file spec.draw.document) := by
  have hordinary := IconSet.isOrdinary_path hspec
  have hlargest := IconSet.mem_manifestV3_of_mem_named (IconSet.largest_mem_named [])
  obtain ⟨hlength, hzero, hshort⟩ := IconSet.fileName_short spec hspec
  have hjoin : join (clean root) (Document.path spec.target) =
      join root (Document.path spec.target) := by
    rw [hordinary.join_eq, hordinary.join_eq, isRooted_clean, settle_clean]
  rw [hjoin]
  apply hreaches.leadsTo.find_join hordinary hreaches.folder _ hshort hentry
  exact FileTree.refuse_join (IconSet.isOrdinary_path hlargest) hordinary hlength hzero
    hreaches.accepted

theorem mem_listing_finishedManifest {now : Bytes} {o : Options} {e : Bytes × IconRecord}
    (h : e ∈ (finishedManifest now o).listing) :
    ∃ spec ∈ (IconSet.named o.set).specs, e = (spec.target, spec.draw.record) := by
  obtain ⟨spec, hlast, rfl⟩ := mem_listing_manifest.1 h
  exact ⟨spec, hlast.mem, rfl⟩

theorem valid_finishedManifest {now : Bytes} {o : Options} {tree : FileTree} {base : Bytes}
    (hfind : ∀ spec ∈ (IconSet.named o.set).specs,
      tree.find (join base (Document.path spec.target)) = .ok (.file spec.draw.document)) :
    (finishedManifest now o).Valid tree base := by
  have hsizes : ∀ a ∈ IconSet.manifestV3.specs, 0 < a.size := by decide
  have hpaths : ∀ a ∈ IconSet.manifestV3.specs, ∀ b ∈ IconSet.manifestV3.specs,
      a.target ≠ b.target → Document.path a.target ≠ Document.path b.target := by decide
  apply valid_manifest
  · intro spec hlast
    exact hsizes spec (IconSet.mem_manifestV3_of_mem_named hlast.mem)
  · intro a b ha hb
    exact hpaths a (IconSet.mem_manifestV3_of_mem_named ha.mem) b
      (IconSet.mem_manifestV3_of_mem_named hb.mem)
  · intro spec hlast
    exact hfind spec hlast.mem

theorem wellFormed_contentHash (data : Bytes) : Utf8.wellFormed (contentHash data) = true :=
  Utf8.wellFormed_of_ascii fun _ hb => (Checksum.bounds_of_mem_text hb).2

/-- The icons of a finished manifest come back from its file as they are, even
where its root or set name does not. -/
theorem icons_cleaned_finishedManifest (now : Bytes) (o : Options) :
    (finishedManifest now o).cleaned.icons = (finishedManifest now o).icons := by
  have hall : ∀ spec ∈ IconSet.manifestV3.specs, Utf8.wellFormed spec.target = true ∧
      Utf8.wellFormed (Document.path spec.target) = true ∧
      Utf8.wellFormed spec.label = true := by decide
  apply Manifest.cleaned_icons
  intro e he
  obtain ⟨spec, hspec, rfl⟩ := mem_listing_finishedManifest he
  obtain ⟨htarget, hpath, hlabel⟩ := hall spec (IconSet.mem_manifestV3_of_mem_named hspec)
  exact ⟨htarget, hpath, hlabel, wellFormed_contentHash _⟩

theorem runValidate_of_valid {tree : FileTree} {path : Bytes} {m : Manifest}
    (hload : (Manifest.load path : FileTreeM _).run tree = (.ok m, tree))
    (hvalid : m.Valid tree (directory path)) (o : Options) :
    ((runValidate o path : FileTreeM _).run tree).1.failure = none := by
  have hfaults := Manifest.faults_eq_nil_iff.2 hvalid
  simp only [runValidate, FileTreeM.run_bind, hload, Manifest.audit_run, hfaults]
  rfl

theorem validate_of_certified {tree : FileTree} {root : Bytes} {base : Location}
    (hreaches : Reaches tree root base) (hcertified : Certified tree base) (o : Options) :
    ((runValidate o (manifestPath root) : FileTreeM _).run tree).1.failure = none := by
  obtain ⟨now, o', hmanifest, hicons⟩ := hcertified
  have hfind := FileTree.find_eq_ok_iff.2 ⟨_, hreaches.manifest, hmanifest⟩
  have hload : (Manifest.load (manifestPath root) : FileTreeM _).run tree =
      (.ok (finishedManifest now o').cleaned, tree) := by
    rw [Manifest.load_of_find hfind, Manifest.parse_text]
    rfl
  have hdirectory : directory (manifestPath root) = clean root :=
    directory_join isOrdinary_manifest.file_isName (by decide) (by decide)
  have hvalid : (finishedManifest now o').Valid tree (clean root) := by
    apply valid_finishedManifest
    intro spec hspec
    exact find_icon hreaches (IconSet.mem_manifestV3_of_mem_named hspec) (hicons spec hspec)
  -- Time, set name and root may come back changed, but no check depends on them.
  have hlisting : (finishedManifest now o').cleaned.listing = (finishedManifest now o').listing := by
    rw [Manifest.listing, icons_cleaned_finishedManifest, Manifest.listing]
  apply runValidate_of_valid hload
  rw [hdirectory]
  exact
    { version_eq := hvalid.version_eq
      icons_sound := hlisting ▸ hvalid.icons_sound
      paths_distinct := hlisting ▸ hvalid.paths_distinct
      icon_total := hlisting ▸ hvalid.icon_total
      byte_total := hlisting ▸ hvalid.byte_total }

/-- After any history of generate commands, the manifest of each command in it
that was to write one and succeeded passes `validate`. -/
theorem validate_after_commands (before later : List GenerateCommand) (command : GenerateCommand)
    (tree : FileTree) (hmanifest : command.options.manifest = true)
    (hsuccess : ((runGenerate command.now command.options : FileTreeM _).run
      (afterCommands before tree)).1.failure = none) (o : Options) :
    ((runValidate o (manifestPath command.options.root) : FileTreeM _).run
      (afterCommands (before ++ command :: later) tree)).1.failure = none := by
  obtain ⟨response, next, hrun, heffect⟩ :=
    runGenerate_effect command.now command.options (afterCommands before tree)
  rw [hrun] at hsuccess
  obtain ⟨base, hreaches, hcertified⟩ := heffect.reaches hmanifest hsuccess
  obtain ⟨hsame, hkeep⟩ := afterCommands_certified later next
  rw [afterCommands_append, afterCommands_cons, hrun]
  have hdirectories := heffect.sameDirectories.trans hsame
  exact validate_of_certified (hreaches.of_sameDirectories hdirectories) (hkeep base hcertified) o

/-- A command for a root and a set. -/
def commandFor (root set : Bytes) (manifest : Bool) : GenerateCommand :=
  ⟨utf8 "2024-01-01T00:00:00Z", { root := root, set := set, manifest := manifest }⟩

def writingCommand : GenerateCommand :=
  commandFor above (utf8 "chrome-extension") true

/-- A command that fails. -/
def earlierCommands : List GenerateCommand :=
  [commandFor [] (utf8 "mv3-full") true]

/-- The directory of the writing command by another name and with another set,
and a command that writes no manifest. -/
def laterCommands : List GenerateCommand :=
  [commandFor (utf8 "/w/.") (utf8 "mv3-full") true, commandFor above [0xFF] false]

theorem validate_after_laterCommands :
    ((runGenerate writingCommand.now writingCommand.options : FileTreeM _).run
      (afterCommands earlierCommands (FileTree.fresh [iconFolder, utf8 "w"]))).1.failure = none ∧
    ((runValidate writingCommand.options (manifestPath writingCommand.options.root) :
        FileTreeM _).run
      (afterCommands (earlierCommands ++ writingCommand :: laterCommands)
        (FileTree.fresh [iconFolder, utf8 "w"]))).1.failure = none := by
  have hsuccess : ((runGenerate writingCommand.now writingCommand.options : FileTreeM _).run
      (afterCommands earlierCommands (FileTree.fresh [iconFolder, utf8 "w"]))).1.failure =
        none := by
    decide +kernel
  have hvalid := validate_after_commands earlierCommands laterCommands writingCommand
    (FileTree.fresh [iconFolder, utf8 "w"]) rfl hsuccess writingCommand.options
  exact ⟨hsuccess, hvalid⟩

end CommandLine

end PlaceholderIcons
