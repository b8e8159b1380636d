import PlaceholderIcons.Proofs.CommandHistory

/-!
Runs that stop part-way. Which icon is the first that cannot be stored is seen
in the tree that a run starts from, because no write makes or removes a
directory. The icons in front of it are stored and reported, nothing else in
the tree changes, and a command that stops there leaves its manifest alone. The
report is given line by line.
-/

namespace PlaceholderIcons

/-- The length of previews that a setting asks for: zero asks for the usual one,
and less than zero for all, which a preview knows as zero. -/
def Preview.shownLimit (limit : Int64) : Int64 :=
  if limit = 0 then 100 else if limit < 0 then 0 else limit

theorem RunSettings.shownLimit_eq (s : RunSettings) :
    (if s.withDefaults.previewLimit < 0 then 0 else s.withDefaults.previewLimit) =
      Preview.shownLimit s.previewLimit := by
  by_cases hzero : s.previewLimit = 0
  · have hlimit : s.withDefaults.previewLimit = 100 := if_pos hzero
    rw [hlimit, Preview.shownLimit, if_pos hzero]
    rfl
  · have hlimit : s.withDefaults.previewLimit = s.previewLimit := if_neg hzero
    rw [hlimit, Preview.shownLimit, if_neg hzero]

namespace Report

/-- The text of some lines, each with its end. -/
def ofLines (lines : List Bytes) : Bytes :=
  lines.flatMap fun line => line ++ utf8 "\n"

/-- The lines in front of all icons. -/
def headerLines (specs : List IconSpec) : List Bytes :=
  [utf8 "SVG icon templates created. To convert to PNG:",
    utf8 "1. Use an online SVG to PNG converter",
    utf8 "2. Or install ImageMagick/Inkscape and run:",
    utf8 "   for i in " ++ Bytes.joinWith 0x20 (specs.map fun spec => Decimal.ofInt64 spec.size) ++
      utf8 "; do",
    utf8 "     convert icon$\x7bi\x7d.svg extension/icon$\x7bi\x7d.png",
    utf8 "   done",
    [],
    utf8 "Or use this data URL in Chrome (saves as icon*.svg):"]

/-- The lines behind all icons. -/
def closingLines : List Bytes :=
  [[], utf8 "Note: Chrome extensions can use SVG icons directly in manifest v3!",
    utf8 "You can update manifest.json to use .svg files instead of .png"]

theorem ofLines_append (first second : List Bytes) :
    ofLines (first ++ second) = ofLines first ++ ofLines second :=
  List.flatMap_append

theorem ofLines_flatMap {α : Type} (xs : List α) (lines : α → List Bytes) :
    ofLines (xs.flatMap lines) = xs.flatMap fun x => ofLines (lines x) :=
  List.flatMap_assoc

theorem instructions_eq (set : IconSet) : instructions set = ofLines (headerLines set.specs) := by
  simp only [instructions, headerLines, ofLines, line, IconSet.sizeList, IconSet.sizes,
    List.map_map, Function.comp_def, List.flatMap_cons, List.flatMap_nil, List.append_assoc,
    List.append_nil]

theorem closing_eq : closing = ofLines closingLines := by
  simp only [closing, closingLines, ofLines, line, List.flatMap_cons, List.flatMap_nil,
    List.append_assoc, List.append_nil]

/-- An icon about to be written takes three lines: one is blank, one has the path
of its document and one a preview. -/
theorem preview_draw (s : RunSettings) (spec : IconSpec) :
    preview s.withDefaults.previewLimit spec.draw =
      ofLines [[], Document.path spec.target ++ utf8 ":",
        Preview.dataUrl (Document.render spec.size spec.label)
          (Preview.shownLimit s.previewLimit)] := by
  simp only [preview, s.shownLimit_eq, ofLines, line, List.flatMap_cons, List.flatMap_nil,
    List.append_assoc, List.append_nil]
  rfl

theorem saved_draw (spec : IconSpec) :
    saved spec.draw = ofLines [utf8 "Saved: " ++ Document.path spec.target] := by
  simp only [ofLines, List.flatMap_singleton]
  rfl

end Report

/-- Whether the document of a spec can be opened for writing. -/
def IconSpec.opens (root : Bytes) (tree : FileTree) (spec : IconSpec) : Bool :=
  (tree.writable (FilePath.join root (Document.path spec.target))).isOk

theorem IconSpec.opens_iff {root : Bytes} {tree : FileTree} {spec : IconSpec} :
    spec.opens root tree = true ↔
      ∃ location, tree.writable (spec.draw.location root) = .ok location := by
  change (tree.writable (spec.draw.location root)).isOk = true ↔ _
  cases tree.writable (spec.draw.location root) with
  | ok location => simp [Except.isOk, Except.toBool]
  | error cause => simp [Except.isOk, Except.toBool]

/-- The least index of a spec that cannot be stored, or the number of specs if
all of them can. -/
def firstBlocked (root : Bytes) (tree : FileTree) (specs : List IconSpec) : Nat :=
  specs.findIdx fun spec => !spec.opens root tree

/-- The last of the specs whose documents are stored at a location. -/
def lastStored? (root : Bytes) (tree : FileTree) (location : Location) (specs : List IconSpec) :
    Option IconSpec :=
  specs.reverse.find? fun spec => spec.draw.goesTo root tree location

theorem firstBlocked_eq_length {root : Bytes} {tree : FileTree} {specs : List IconSpec}
    (h : ∀ spec ∈ specs, spec.opens root tree = true) :
    firstBlocked root tree specs = specs.length := by
  rw [firstBlocked, List.findIdx_eq_length]
  intro spec hspec
  rw [h spec hspec]
  rfl

theorem firstBlocked_append {root : Bytes} {tree : FileTree} {front back : List IconSpec}
    {spec : IconSpec} (hfront : ∀ spec ∈ front, spec.opens root tree = true)
    (hspec : spec.opens root tree = false) :
    firstBlocked root tree (front ++ spec :: back) = front.length := by
  have hlength : (front.findIdx fun spec => !spec.opens root tree) = front.length :=
    firstBlocked_eq_length hfront
  rw [firstBlocked, List.findIdx_append, hlength, if_neg (Nat.lt_irrefl _), List.findIdx_cons, hspec]
  exact Nat.zero_add _

theorem opens_of_mem_take {root : Bytes} {tree : FileTree} {specs : List IconSpec} {spec : IconSpec}
    (h : spec ∈ specs.take (firstBlocked root tree specs)) : spec.opens root tree = true := by
  rw [firstBlocked, ← List.takeWhile_eq_take_findIdx_not] at h
  exact List.mem_takeWhile_imp h

/-- Stored documents against the tree they are stored in. -/
theorem entry?_foldl_store_specs (root : Bytes) (tree : FileTree) (specs : List IconSpec)
    (location : Location) :
    FileTree.entry? ((specs.map IconSpec.draw).foldl (Drawing.store root) tree) location =
      match lastStored? root tree location specs with
      | some spec => some (.file (Document.render spec.size spec.label))
      | none => tree.entry? location := by
  have hlast : (specs.map IconSpec.draw).reverse.find? (Drawing.goesTo root tree location) =
      (lastStored? root tree location specs).map IconSpec.draw := by
    rw [← List.map_reverse, List.find?_map]
    rfl
  rw [entry?_foldl_store_eq, hlast]
  cases lastStored? root tree location specs with
  | none => rfl
  | some spec => rfl

/-- An outcome in terms of the tree that its run starts from: the icons in front
of the first blocked one are written, and it fails there if there is one. -/
theorem Ran.front {root : Bytes} {specs : List IconSpec} {tree next : FileTree} {outcome : Outcome}
    (h : Ran root (specs.map IconSpec.draw) tree outcome next) :
    outcome.written = (specs.take (firstBlocked root tree specs)).map IconSpec.draw ∧
    match specs[firstBlocked root tree specs]? with
    | none => outcome.failed = none
    | some spec => ∃ cause,
        FileTree.writable (outcome.written.foldl (Drawing.store root) tree)
          (spec.draw.location root) = .error cause ∧
        outcome.failed = some (spec.draw, ⟨.openFile, spec.draw.location root, cause⟩) := by
  obtain ⟨written, failed⟩ := outcome
  obtain ⟨rfl, hwritable, hending⟩ := h
  rcases hending with ⟨rfl, hall⟩ | ⟨drawing, fault, rest, rfl, hsplit, hblocked, cause, hcause, rfl⟩
  · obtain rfl : specs.map IconSpec.draw = written := hall
    have hcount : firstBlocked root tree specs = specs.length := by
      apply firstBlocked_eq_length
      intro spec hspec
      exact IconSpec.opens_iff.2 (hwritable spec.draw (List.mem_map_of_mem hspec))
    rw [hcount, List.take_length, List.getElem?_length]
    exact ⟨rfl, rfl⟩
  · obtain ⟨front, others, rfl, rfl, hothers⟩ := List.map_eq_append_iff.1 hsplit
    obtain ⟨spec, back, rfl, rfl, -⟩ := List.map_eq_cons_iff.1 hothers
    have hcount : firstBlocked root tree (front ++ spec :: back) = front.length := by
      apply firstBlocked_append
      · intro x hx
        exact IconSpec.opens_iff.2 (hwritable x.draw (List.mem_map_of_mem hx))
      · rw [Bool.eq_false_iff, Ne, IconSpec.opens_iff]
        rintro ⟨location, hlocation⟩
        exact hblocked location hlocation
    rw [hcount, List.take_left, List.getElem?_append_right (Nat.le_refl _), Nat.sub_self]
    exact ⟨rfl, cause, hcause, rfl⟩

/-- A run in terms of the tree it starts from: it writes the icons in front of
the first blocked one, and fails there if there is one. -/
theorem generate_front (now : Bytes) (s : RunSettings) (tree : FileTree) :
    ∃ outcome,
      (generate now s : FileTreeM Run).run tree =
        (Run.ofOutcome now s.withDefaults outcome,
          outcome.written.foldl (Drawing.store s.withDefaults.root) tree) ∧
      outcome.written =
        (s.set.specs.take (firstBlocked s.withDefaults.root tree s.set.specs)).map IconSpec.draw ∧
      match s.set.specs[firstBlocked s.withDefaults.root tree s.set.specs]? with
      | none => outcome.failed = none
      | some spec => ∃ cause,
          FileTree.writable (outcome.written.foldl (Drawing.store s.withDefaults.root) tree)
            (spec.draw.location s.withDefaults.root) = .error cause ∧
          outcome.failed =
            some (spec.draw, ⟨.openFile, spec.draw.location s.withDefaults.root, cause⟩) := by
  obtain ⟨outcome, next, hrun, hran⟩ := generate_run now s tree
  exact ⟨outcome, hran.tree_eq ▸ hrun, hran.front⟩

namespace CommandLine

/-- While icons of a command are stored, its manifest stays what it was, be it a
file, a directory or nothing. -/
theorem read_manifest_storeIcons {o : Options} {specs : List IconSpec} {tree : FileTree}
    (hspecs : ∀ spec ∈ specs, spec ∈ IconSet.manifestV3.specs)
    (hwritable : ∀ spec ∈ specs, ∃ place,
      tree.writable (spec.draw.location o.settings.withDefaults.root) = .ok place) :
    (storeIcons o specs tree).read (manifestPath o.root) = tree.read (manifestPath o.root) := by
  cases hlist : specs with
  | nil => rfl
  | cons spec rest =>
    have hspec : spec ∈ specs := hlist ▸ List.mem_cons_self
    have hordinary := IconSet.isOrdinary_path (hspecs spec hspec)
    obtain ⟨place, hplace⟩ := hwritable spec hspec
    have hjoin : tree.writable (FilePath.join o.root (Document.path spec.target)) = .ok place :=
      o.settings.join_withDefaults hordinary.path_ne_nil hordinary.relative ▸ hplace
    obtain ⟨base, hbase⟩ := FileTree.exists_leadsTo_of_writable_join hordinary hjoin
    rw [← hlist]
    have hshort : Manifest.fileName.length ≤ FileTree.maxName := by decide
    cases haccepted : FileTree.refuse (manifestPath o.root) with
    | error cause =>
      have hrefused (t : FileTree) : t.locate (manifestPath o.root) = .error cause := by
        simp only [FileTree.locate, haccepted, bind, Except.bind]
      apply FileTree.read_congr
      · rw [hrefused, hrefused]
      · intro location hlocation
        rw [hrefused] at hlocation
        cases hlocation
    | ok _ =>
      have hlocate := hbase.locate_join isOrdinary_manifest haccepted hshort
      have hsame := sameDirectories_storeIcons o specs tree
      apply FileTree.read_congr
      · exact (FileTree.locate_of_sameDirectories hsame hlocate).trans hlocate.symm
      · intro location hlocation
        obtain rfl := Except.ok.inj (hlocate.symm.trans hlocation)
        exact entry?_storeIcons_manifest hspecs o tree base

/-- A command in terms of the tree it starts from: it fails at an icon exactly
if one is blocked, and then it has stored the icons in front of that one and
nothing else. -/
theorem runGenerate_front (now : Bytes) (o : Options) (tree : FileTree) :
    ∃ response next, (runGenerate now o : FileTreeM _).run tree = (response, next) ∧
      ((∃ path fault, response.failure = some (.writeIcon path fault)) ↔
        firstBlocked o.settings.withDefaults.root tree o.settings.set.specs <
          o.settings.set.specs.length) ∧
      ((∃ path fault, response.failure = some (.writeIcon path fault)) →
        next = storeIcons o (o.settings.set.specs.take
          (firstBlocked o.settings.withDefaults.root tree o.settings.set.specs)) tree) := by
  obtain ⟨⟨written, failed⟩, hrun, rfl, hending⟩ := generate_front now o.settings tree
  cases hspec : o.settings.set.specs[firstBlocked o.settings.withDefaults.root tree
      o.settings.set.specs]? with
  | none =>
    obtain rfl : failed = none := by simpa only [hspec] using hending
    have hcount := Nat.not_lt.2 (List.getElem?_eq_none_iff.1 hspec)
    -- Behind all icons only the manifest can fail, which is another failure.
    obtain ⟨response, next, hresponse, hother⟩ : ∃ response next,
        (runGenerate now o : FileTreeM _).run tree = (response, next) ∧
          ¬ ∃ path fault, response.failure = some (.writeIcon path fault) := by
      by_cases hmanifest : o.manifest = true
      · obtain ⟨response, hresponse, hfailure⟩ := runGenerate_of_save hrun rfl hmanifest rfl
        refine ⟨response, _, hresponse, ?_⟩
        rintro ⟨path, fault, hicon⟩
        rw [hicon] at hfailure
        unfold saveFailure? at hfailure
        split at hfailure <;> cases hfailure
      · obtain ⟨response, hresponse, hfailure⟩ :=
          runGenerate_of_ok hrun rfl (Bool.eq_false_iff.2 hmanifest)
        refine ⟨response, _, hresponse, ?_⟩
        rintro ⟨path, fault, hicon⟩
        rw [hicon] at hfailure
        cases hfailure
    exact ⟨response, next, hresponse, iff_of_false hother hcount, fun h => absurd h hother⟩
  | some spec =>
    obtain ⟨cause, -, rfl⟩ := by simpa only [hspec] using hending
    have hcount := (List.getElem?_eq_some_iff.1 hspec).1
    obtain ⟨response, hresponse, hfailure⟩ := runGenerate_of_error hrun rfl
    exact ⟨response, _, hresponse, iff_of_true ⟨_, _, hfailure⟩ hcount, fun _ => rfl⟩

/-- A run that stops part-way, for every tree, every settings and every list of
specs. The first spec that cannot be stored in the tree the run starts from
decides: without one the run succeeds; with one it fails there and names its
path. The documents of the specs in front of it are stored in order, later ones
over earlier ones, and all else in the tree stays. The report has a header, the
path, the preview and a line of success for each of these specs, and then the
path and the preview of the spec that fails, or the closing note if none does.
A command that fails so leaves its manifest as it was. -/
theorem generate_until_blocked (now : Bytes) (tree : FileTree) :
    (∀ s : RunSettings,
      let root := s.withDefaults.root
      let limit := Preview.shownLimit s.previewLimit
      let index := firstBlocked root tree s.set.specs
      let front := s.set.specs.take index
      let announced (spec : IconSpec) := [[], Document.path spec.target ++ utf8 ":",
        Preview.dataUrl (Document.render spec.size spec.label) limit]
      let shown := Report.headerLines s.set.specs ++ front.flatMap fun spec =>
        announced spec ++ [utf8 "Saved: " ++ Document.path spec.target]
      ∃ run next, (generate now s : FileTreeM Run).run tree = (run, next) ∧
        tree.SameDirectories next ∧
        (∀ location, next.entry? location =
          match lastStored? root tree location front with
          | some spec => some (.file (Document.render spec.size spec.label))
          | none => tree.entry? location) ∧
        match s.set.specs[index]? with
        | none =>
          (∃ m, run.result = .ok m) ∧ run.report = Report.ofLines (shown ++ Report.closingLines)
        | some spec =>
          let path := Document.path spec.target
          ∃ cause, next.writable (FilePath.join root path) = .error cause ∧
            run.result = .error (path, ⟨.openFile, FilePath.join root path, cause⟩) ∧
            utf8 "write " ++ path ++ utf8 ": " <+:
              (Failure.writeIcon path ⟨.openFile, FilePath.join root path, cause⟩).message ∧
            run.report = Report.ofLines (shown ++ announced spec)) ∧
    ∀ o : Options, ∃ response next,
      (runGenerate now o : FileTreeM _).run tree = (response, next) ∧
      ((∃ path fault, response.failure = some (.writeIcon path fault)) ↔
        firstBlocked o.settings.withDefaults.root tree o.settings.set.specs <
          o.settings.set.specs.length) ∧
      ((∃ path fault, response.failure = some (.writeIcon path fault)) →
        next.read (manifestPath o.root) = tree.read (manifestPath o.root) ∧
        ∀ parent, next.entry? (Manifest.fileName :: parent) =
          tree.entry? (Manifest.fileName :: parent)) := by
  constructor
  · intro s root limit index front announced shown
    obtain ⟨⟨written, failed⟩, hrun, rfl, hending⟩ := generate_front now s tree
    have hannounced (spec : IconSpec) :
        Report.preview s.withDefaults.previewLimit spec.draw = Report.ofLines (announced spec) :=
      Report.preview_draw s spec
    have hshown : Report.instructions s.set ++ (front.map IconSpec.draw).flatMap
        (fun d => Report.preview s.withDefaults.previewLimit d ++ Report.saved d) =
          Report.ofLines shown := by
      rw [Report.ofLines_append, Report.ofLines_flatMap, List.flatMap_map, Report.instructions_eq]
      simp only [Report.ofLines_append, hannounced, Report.saved_draw]
    refine ⟨_, _, hrun, sameDirectories_foldl_store root tree _,
      entry?_foldl_store_specs root tree front, ?_⟩
    cases hspec : s.set.specs[index]? with
    | none =>
      obtain rfl : failed = none := by simpa only [index, root, hspec] using hending
      refine ⟨⟨_, rfl⟩, ?_⟩
      rw [Report.ofLines_append, ← hshown, ← Report.closing_eq]
      rfl
    | some spec =>
      obtain ⟨cause, hcause, rfl⟩ := by simpa only [index, root, hspec] using hending
      refine ⟨cause, hcause, rfl, List.prefix_append _ _, ?_⟩
      rw [Report.ofLines_append, ← hshown, ← hannounced]
      rfl
  · intro o
    obtain ⟨response, next, hrun, hblocked, hnext⟩ := runGenerate_front now o tree
    refine ⟨response, next, hrun, hblocked, ?_⟩
    intro hfailure
    rw [hnext hfailure]
    have hspecs : ∀ spec ∈ o.settings.set.specs.take
        (firstBlocked o.settings.withDefaults.root tree o.settings.set.specs),
        spec ∈ IconSet.manifestV3.specs :=
      fun spec hspec => IconSet.mem_manifestV3_of_mem_named (List.mem_of_mem_take hspec)
    refine ⟨?_, entry?_storeIcons_manifest hspecs o tree⟩
    apply read_manifest_storeIcons hspecs
    intro spec hspec
    exact IconSpec.opens_iff.1 (opens_of_mem_take hspec)

/-- Two targets with one document, then one in a directory that is not there. -/
def interrupted : RunSettings :=
  { root := FilePath.here
    set :=
      { name := utf8 "interrupted"
        specs :=
          [⟨utf8 "a.png", 16, utf8 "S"⟩, ⟨utf8 "a.jpg", 32, utf8 "T"⟩,
            ⟨utf8 "missing/b.png", 48, utf8 "U"⟩, ⟨utf8 "c.png", 64, utf8 "V"⟩] }
    previewLimit := 0
    verbose := true }

/-- A working directory with nothing but an old manifest. -/
def oldManifest : FileTree :=
  (FileTree.fresh [utf8 "w"]).put [Manifest.fileName, utf8 "w"] (utf8 "old")

theorem generate_until_blocked_missing :
    firstBlocked interrupted.withDefaults.root oldManifest interrupted.set.specs = 2 ∧
    utf8 "   for i in 16 32 48 64; do" ∈ Report.headerLines interrupted.set.specs ∧
    (∃ run next cause, (generate [] interrupted : FileTreeM Run).run oldManifest = (run, next) ∧
      next.entry? [utf8 "a.svg", utf8 "w"] = some (.file (Document.render 32 (utf8 "T"))) ∧
      next.entry? [utf8 "c.svg", utf8 "w"] = none ∧
      run.result = .error (utf8 "missing/b.svg", ⟨.openFile, utf8 "missing/b.svg", cause⟩) ∧
      run.report = Report.ofLines (Report.headerLines interrupted.set.specs ++
        [[], utf8 "a.svg:", Preview.dataUrl (Document.render 16 (utf8 "S")) 100,
          utf8 "Saved: a.svg",
          [], utf8 "a.svg:", Preview.dataUrl (Document.render 32 (utf8 "T")) 100,
          utf8 "Saved: a.svg",
          [], utf8 "missing/b.svg:", Preview.dataUrl (Document.render 48 (utf8 "U")) 100])) ∧
    ∃ response next, (runGenerate [] { manifest := true } : FileTreeM _).run oldManifest =
        (response, next) ∧
      (∃ path fault, response.failure = some (.writeIcon path fault)) ∧
      next.read Manifest.fileName = .ok (utf8 "old") := by
  obtain ⟨hruns, hcommands⟩ := generate_until_blocked [] oldManifest
  have hindex : firstBlocked interrupted.withDefaults.root oldManifest interrupted.set.specs = 2 := by
    decide +kernel
  refine ⟨hindex, by decide +kernel, ?_, ?_⟩
  · obtain ⟨run, next, hrun, -, hentry, hresult⟩ := hruns interrupted
    rw [hindex] at hresult
    obtain ⟨cause, -, herror, -, hreport⟩ := hresult
    exact ⟨run, next, cause, hrun, hentry _, hentry _, herror, hreport⟩
  · obtain ⟨response, next, hrun, hblocked, hmanifest⟩ := hcommands { manifest := true }
    have hfailure := hblocked.2 (by decide +kernel)
    exact ⟨response, next, hrun, hfailure, (hmanifest hfailure).1⟩

end CommandLine

end PlaceholderIcons
