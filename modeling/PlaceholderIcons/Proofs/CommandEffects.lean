import PlaceholderIcons.CommandLine.Program
import PlaceholderIcons.Proofs.GeneratedIcons
import PlaceholderIcons.Proofs.OutputPlaces

/-!
What a generate command does to a tree. It stores icons of a built-in set up to
the first that cannot be stored, and a manifest only behind all of them. The
built-in sets agree on what an icon file of a given name holds.
-/

namespace PlaceholderIcons

open FilePath

/-- The folder of the built-in icons. -/
def iconFolder : Bytes := utf8 "extension"

/-- The name of the file that an icon is stored in. -/
def IconSpec.fileName (spec : IconSpec) : Bytes :=
  (names (Document.path spec.target)).getLastD []

namespace IconSet

/-- The largest icon, which is in every set and has the longest file name. -/
def largest : IconSpec :=
  ⟨utf8 "extension/icon128.png", 128, utf8 "SAS"⟩

theorem named_cases (name : Bytes) :
    (named name).specs = chromeExtension.specs ∨ (named name).specs = manifestV3.specs := by
  unfold named
  cases hfind : find? name with
  | none => exact .inl rfl
  | some set =>
    have hmem : set ∈ builtIn := List.mem_of_find?_eq_some hfind
    rcases List.mem_cons.1 hmem with rfl | hmem
    · exact .inl rfl
    · rw [List.mem_singleton.1 hmem]
      exact .inr rfl

theorem mem_manifestV3_of_mem_named {name : Bytes} {spec : IconSpec}
    (h : spec ∈ (named name).specs) : spec ∈ manifestV3.specs := by
  rcases named_cases name with hset | hset <;> rw [hset] at h
  · simp only [chromeExtension, manifestV3, List.mem_cons, List.not_mem_nil, or_false] at h ⊢
    rcases h with h | h | h <;> simp [h]
  · exact h

theorem largest_mem_named (name : Bytes) : largest ∈ (named name).specs := by
  rcases named_cases name with hset | hset <;> rw [hset] <;> exact List.mem_cons_self

theorem isOrdinary_path {spec : IconSpec} (h : spec ∈ manifestV3.specs) :
    IsOrdinary (Document.path spec.target) [iconFolder] spec.fileName := by
  have hall : ∀ spec ∈ manifestV3.specs, isRooted (Document.path spec.target) = false ∧
      names (Document.path spec.target) = [iconFolder] ++ [spec.fileName] ∧
      ∀ n ∈ [iconFolder] ++ [spec.fileName], n ≠ here ∧ n ≠ above := by decide
  obtain ⟨hrelative, hnames, hordinary⟩ := hall spec h
  exact ⟨hrelative, hnames, hordinary⟩

theorem fileName_short : ∀ spec ∈ manifestV3.specs,
    spec.fileName.length ≤ largest.fileName.length ∧ 0 ∉ spec.fileName ∧
      spec.fileName.length ≤ FileTree.maxName := by decide

theorem fileName_ne_manifest : ∀ spec ∈ manifestV3.specs,
    spec.fileName ≠ Manifest.fileName := by decide

/-- The sets agree on what a file holds. -/
theorem document_eq_of_fileName_eq {a b : IconSpec} (ha : a ∈ manifestV3.specs)
    (hb : b ∈ manifestV3.specs) (h : a.fileName = b.fileName) :
    a.draw.document = b.draw.document := by
  have hall : ∀ a ∈ manifestV3.specs, ∀ b ∈ manifestV3.specs, a.fileName = b.fileName →
      a.size = b.size ∧ a.label = b.label := by decide
  obtain ⟨hsize, hlabel⟩ := hall a ha b hb h
  change Document.render a.size a.label = Document.render b.size b.label
  rw [hsize, hlabel]

end IconSet

namespace CommandLine

/-- The settings that options select. -/
def Options.settings (o : Options) : RunSettings :=
  { root := o.root
    set := IconSet.named o.set
    previewLimit := if o.previewLimit ≤ 0 then -1 else o.previewLimit
    verbose := o.verbose }

/-- The failure of a command whose manifest could not be saved. -/
def saveFailure? : Except FileFault Unit → Option Failure
  | .ok () => none
  | .error fault => some (.writeManifest fault)

section

variable {now : Bytes} {o : Options} {tree middle next : FileTree} {run : Run}

/-- How a command goes on after its icons. -/
theorem runGenerate_of_error {path : Bytes} {fault : FileFault}
    (hrun : (generate now o.settings : FileTreeM Run).run tree = (run, middle))
    (hresult : run.result = .error (path, fault)) :
    ∃ response, (runGenerate now o : FileTreeM _).run tree = (response, middle) ∧
      response.failure = some (.writeIcon path fault) := by
  simp only [Options.settings] at hrun
  simp only [runGenerate, FileTreeM.run_bind, hrun, hresult]
  exact ⟨_, rfl, rfl⟩

theorem runGenerate_of_ok {m : Manifest}
    (hrun : (generate now o.settings : FileTreeM Run).run tree = (run, middle))
    (hresult : run.result = .ok m) (hmanifest : o.manifest = false) :
    ∃ response, (runGenerate now o : FileTreeM _).run tree = (response, middle) ∧
      response.failure = none := by
  simp only [Options.settings] at hrun
  simp only [runGenerate, FileTreeM.run_bind, hrun, hresult, hmanifest]
  exact ⟨_, rfl, rfl⟩

theorem runGenerate_of_save {m : Manifest} {result : Except FileFault Unit}
    (hrun : (generate now o.settings : FileTreeM Run).run tree = (run, middle))
    (hresult : run.result = .ok m) (hmanifest : o.manifest = true)
    (hsave : (m.save (manifestPath o.root) : FileTreeM _).run middle = (result, next)) :
    ∃ response, (runGenerate now o : FileTreeM _).run tree = (response, next) ∧
      response.failure = saveFailure? result := by
  simp only [Options.settings] at hrun
  simp only [runGenerate, FileTreeM.run_bind, hrun, hresult, hmanifest, if_true, hsave]
  cases result with
  | ok _ => exact ⟨_, rfl, rfl⟩
  | error fault => exact ⟨_, rfl, rfl⟩

end

/-- The manifest of a command that wrote all its icons. -/
def finishedManifest (now : Bytes) (o : Options) : Manifest :=
  (Outcome.mk ((IconSet.named o.set).specs.map IconSpec.draw) none).manifest now
    o.settings.withDefaults

/-- The tree after icons were stored for a command. -/
def storeIcons (o : Options) (specs : List IconSpec) (tree : FileTree) : FileTree :=
  (specs.map IconSpec.draw).foldl (Drawing.store o.settings.withDefaults.root) tree

/-- What a command can do to a tree: it stores some icons of its set, and if it
was to write a manifest and succeeds, it has stored all of them and then the
manifest. -/
inductive Effect (now : Bytes) (o : Options) (tree : FileTree) : Response → FileTree → Prop where
  | icons {response : Response} {specs : List IconSpec}
      (hspecs : ∀ spec ∈ specs, spec ∈ (IconSet.named o.set).specs)
      (hfailure : o.manifest = true → response.failure ≠ none) :
      Effect now o tree response (storeIcons o specs tree)
  | manifest {response : Response} {location : Location}
      (hicons : ∀ spec ∈ (IconSet.named o.set).specs, ∃ place,
        tree.writable (spec.draw.location o.settings.withDefaults.root) = .ok place)
      (hpath : tree.writable (manifestPath o.root) = .ok location) :
      Effect now o tree response
        ((storeIcons o (IconSet.named o.set).specs tree).put location (finishedManifest now o).text)

theorem sameDirectories_storeIcons (o : Options) (specs : List IconSpec) (tree : FileTree) :
    tree.SameDirectories (storeIcons o specs tree) :=
  sameDirectories_foldl_store _ tree _

/-- The manifest step of a command whose icons have all been written. -/
theorem effect_of_save {now : Bytes} {o : Options} {tree next : FileTree} {response : Response}
    {result : Except FileFault Unit}
    (hicons : ∀ spec ∈ (IconSet.named o.set).specs, ∃ place,
      tree.writable (spec.draw.location o.settings.withDefaults.root) = .ok place)
    (hsave : ((finishedManifest now o).save (manifestPath o.root) : FileTreeM _).run
      (storeIcons o (IconSet.named o.set).specs tree) = (result, next))
    (hresponse : response.failure = saveFailure? result) : Effect now o tree response next := by
  have hsame := sameDirectories_storeIcons o (IconSet.named o.set).specs tree
  rcases FileTree.write_cases (storeIcons o (IconSet.named o.set).specs tree) (manifestPath o.root)
    (finishedManifest now o).refresh.text with ⟨location, hpath, hwrite⟩ | ⟨cause, -, hwrite⟩
  · obtain ⟨-, rfl⟩ := Prod.mk.inj (hwrite.symm.trans hsave)
    exact .manifest hicons (FileTree.writable_of_sameDirectories hsame.symm hpath)
  · obtain ⟨rfl, rfl⟩ := Prod.mk.inj (hwrite.symm.trans hsave)
    refine .icons (fun _ hspec => hspec) ?_
    intro _ hnone
    rw [hnone] at hresponse
    cases hresponse

theorem runGenerate_effect (now : Bytes) (o : Options) (tree : FileTree) :
    ∃ response next, (runGenerate now o : FileTreeM _).run tree = (response, next) ∧
      Effect now o tree response next := by
  obtain ⟨⟨written, failed⟩, middle, hrun, rfl, hwritable, hending⟩ :=
    generate_run now o.settings tree
  rcases hending with ⟨rfl, hall⟩ | ⟨drawing, fault, rest, rfl, hsplit, -⟩
  · obtain rfl : written = (IconSet.named o.set).specs.map IconSpec.draw := hall.symm
    by_cases hmanifest : o.manifest = true
    · obtain ⟨response, hresponse, hfailure⟩ := runGenerate_of_save hrun rfl hmanifest rfl
      refine ⟨response, _, hresponse, effect_of_save ?_ rfl hfailure⟩
      intro spec hspec
      exact hwritable spec.draw (List.mem_map_of_mem hspec)
    · obtain ⟨response, hresponse, -⟩ :=
        runGenerate_of_ok hrun rfl (Bool.eq_false_iff.2 hmanifest)
      refine ⟨response, _, hresponse, .icons (fun _ hspec => hspec) ?_⟩
      intro hset
      exact absurd hset hmanifest
  · obtain ⟨response, hresponse, hfailure⟩ := runGenerate_of_error hrun rfl
    obtain ⟨specs, others, hspecs, rfl, -⟩ := List.map_eq_append_iff.1 hsplit
    refine ⟨response, _, hresponse, .icons ?_ ?_⟩
    · intro spec hspec
      change spec ∈ o.settings.set.specs
      rw [hspecs]
      exact List.mem_append_left others hspec
    · intro _
      rw [hfailure]
      exact Option.some_ne_none _

end CommandLine

end PlaceholderIcons
