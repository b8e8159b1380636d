import PlaceholderIcons.Generation
import PlaceholderIcons.Proofs.FileWrites

/-!
A run told by its outcome. The loop over the specs lets report, log and manifest
grow icon by icon. Where it ends, and what is stored by then, depends on the
root, the specs and the tree alone, and what it has shown by then follows from
the icons that were written and the one that could not be.
-/

namespace PlaceholderIcons

open FileTreeM

/-- How far a run came: the icons written, and the one that could not be. -/
structure Outcome where
  written : List Drawing
  failed : Option (Drawing × FileFault)

/-- The manifest of a run that came to its end. -/
def Outcome.manifest (outcome : Outcome) (now : Bytes) (s : RunSettings) : Manifest :=
  (outcome.written.foldl (fun m d => m.insertIcon d.target d.record)
    (Manifest.new now s.set.name s.root)).refresh

/-- The report of a run: each icon with its preview, a line for each one saved,
and the closing note if none failed. -/
def Report.render (s : RunSettings) (outcome : Outcome) : Bytes :=
  instructions s.set ++
    outcome.written.flatMap (fun d => preview s.previewLimit d ++ saved d) ++
    match outcome.failed with
    | some (drawing, _) => preview s.previewLimit drawing
    | none => closing

/-- The log of a run. -/
def Log.render (s : RunSettings) (outcome : Outcome) : Bytes :=
  s.logged (started s ++ outcome.written.flatMap (fun d => overflow d ++ wrote d) ++
    match outcome.failed with
    | some (drawing, _) => overflow drawing
    | none => [])

/-- What a run under these settings shows for its outcome. -/
def Run.ofOutcome (now : Bytes) (s : RunSettings) (outcome : Outcome) : Run :=
  { report := Report.render s outcome
    log := Log.render s outcome
    result :=
      match outcome.failed with
      | some (drawing, fault) => .error (drawing.record.path, fault)
      | none => .ok (outcome.manifest now s) }

theorem RunSettings.logged_append (s : RunSettings) (first second : Bytes) :
    s.logged (first ++ second) = s.logged first ++ s.logged second := by
  unfold logged
  split <;> rfl

namespace RunProgress

/-- One icon further. -/
def advance (s : RunSettings) (progress : RunProgress) (drawing : Drawing) : RunProgress :=
  (progress.announce s drawing).record s drawing

/-- How a run under way ends, if this is the outcome of what lies ahead. -/
def ending (s : RunSettings) (progress : RunProgress) (outcome : Outcome) : Run :=
  let reached := outcome.written.foldl (advance s) progress
  match outcome.failed with
  | some (drawing, fault) => (reached.announce s drawing).stop drawing fault
  | none => reached.finish

/-- What icons that are written add to report, log and manifest. -/
theorem foldl_advance (s : RunSettings) (progress : RunProgress) (written : List Drawing) :
    written.foldl (advance s) progress =
      { report := progress.report ++
          written.flatMap fun d => Report.preview s.previewLimit d ++ Report.saved d
        log := progress.log ++ s.logged (written.flatMap fun d => Log.overflow d ++ Log.wrote d)
        manifest :=
          written.foldl (fun m d => m.insertIcon d.target d.record) progress.manifest } := by
  induction written generalizing progress with
  | nil => simp [RunSettings.logged]
  | cons drawing rest ih =>
    rw [List.foldl_cons, ih]
    simp [advance, announce, record, s.logged_append]

/-- From its start on, a run shows what its outcome says. -/
theorem ending_start (now : Bytes) (s : RunSettings) (outcome : Outcome) :
    (start now s).ending s outcome = Run.ofOutcome now s outcome := by
  obtain ⟨written, failed⟩ := outcome
  cases failed with
  | none =>
    simp [ending, foldl_advance, finish, start, Run.ofOutcome, Report.render, Log.render,
      Outcome.manifest, s.logged_append]
  | some failure =>
    simp [ending, foldl_advance, announce, stop, start, Run.ofOutcome, Report.render, Log.render,
      s.logged_append]

end RunProgress

/-- The tree after an attempt to store a drawing. -/
def Drawing.store (root : Bytes) (tree : FileTree) (drawing : Drawing) : FileTree :=
  (tree.write (drawing.location root) drawing.document).2

/-- How writing drawings in order can end, told by the tree it started from: the
written ones could be written there, and the one that failed could not. Only
why it failed is told by the tree that is left. -/
structure Ran (root : Bytes) (drawings : List Drawing) (tree : FileTree) (outcome : Outcome)
    (next : FileTree) : Prop where
  tree_eq : next = outcome.written.foldl (Drawing.store root) tree
  writable : ∀ drawing ∈ outcome.written, ∃ location,
    tree.writable (drawing.location root) = .ok location
  ending : outcome.failed = none ∧ drawings = outcome.written ∨
    ∃ drawing fault rest, outcome.failed = some (drawing, fault) ∧
      drawings = outcome.written ++ drawing :: rest ∧
      (∀ location, tree.writable (drawing.location root) ≠ .ok location) ∧
      ∃ cause, next.writable (drawing.location root) = .error cause ∧
        fault = ⟨.openFile, drawing.location root, cause⟩

namespace Ran

variable {root : Bytes} {tree next : FileTree} {outcome : Outcome} {drawing : Drawing}
  {rest : List Drawing}

theorem nil (root : Bytes) (tree : FileTree) : Ran root [] tree ⟨[], none⟩ tree :=
  ⟨rfl, by simp, .inl ⟨rfl, rfl⟩⟩

/-- A drawing that cannot be written is the last one tried. -/
theorem blocked {cause : Cause} (hpath : tree.writable (drawing.location root) = .error cause)
    (rest : List Drawing) :
    Ran root (drawing :: rest) tree
      ⟨[], some (drawing, ⟨.openFile, drawing.location root, cause⟩)⟩ tree := by
  refine ⟨rfl, by simp, .inr ⟨drawing, _, rest, rfl, rfl, ?_, cause, hpath, rfl⟩⟩
  intro there hthere
  rw [hpath] at hthere
  cases hthere

/-- A drawing that can be written changes no directory, so what is tried behind
it could have been tried before it. -/
theorem cons {location : Location} (hpath : tree.writable (drawing.location root) = .ok location)
    (h : Ran root rest (tree.put location drawing.document) outcome next) :
    Ran root (drawing :: rest) tree ⟨drawing :: outcome.written, outcome.failed⟩ next := by
  have hsame : tree.SameDirectories (tree.put location drawing.document) :=
    FileTree.sameDirectories_of_writable hpath
  have hstore : drawing.store root tree = tree.put location drawing.document := by
    rw [Drawing.store, FileTree.write, hpath]
  obtain ⟨htree, hwritable, hending⟩ := h
  refine ⟨?_, ?_, ?_⟩
  · rw [List.foldl_cons, hstore]
    exact htree
  · rintro d (_ | ⟨_, hd⟩)
    · exact ⟨location, hpath⟩
    · obtain ⟨there, hthere⟩ := hwritable d hd
      exact ⟨there, FileTree.writable_of_sameDirectories hsame.symm hthere⟩
  · rcases hending with ⟨hnone, heq⟩ | ⟨d, fault, more, hfailed, heq, hnot, hfault⟩
    · exact .inl ⟨hnone, by rw [← heq]⟩
    · refine .inr ⟨d, fault, more, hfailed, by rw [List.cons_append, ← heq], ?_, hfault⟩
      intro there hthere
      exact hnot there (FileTree.writable_of_sameDirectories hsame hthere)

end Ran

/-- One way through the specs for all settings of a root: whatever has been shown
before, the loop stores the same icons and ends at the same one. -/
theorem generateFrom_run (root : Bytes) (specs : List IconSpec) (tree : FileTree) :
    ∃ outcome next, Ran root (specs.map IconSpec.draw) tree outcome next ∧
      ∀ (s : RunSettings) (progress : RunProgress), s.root = root →
        (generateFrom s specs progress : FileTreeM Run).run tree =
          (progress.ending s outcome, next) := by
  -- The outcome is chosen before the settings and the progress, so it serves all of them.
  induction specs generalizing tree with
  | nil => exact ⟨⟨[], none⟩, tree, .nil root tree, fun s progress _ => rfl⟩
  | cons spec rest ih =>
    rcases tree.write_cases (spec.draw.location root) spec.draw.document with
      ⟨location, hpath, hwrite⟩ | ⟨cause, hpath, hwrite⟩
    · obtain ⟨outcome, next, hran, hrest⟩ := ih (tree.put location spec.draw.document)
      refine ⟨_, next, hran.cons hpath, ?_⟩
      rintro s progress rfl
      simp only [generateFrom, run_bind, run_write, hwrite]
      exact hrest s (progress.advance s spec.draw) rfl
    · refine ⟨_, tree, .blocked hpath _, ?_⟩
      rintro s progress rfl
      simp only [generateFrom, run_bind, run_write, hwrite]
      rfl

/-- What happens to the files is settled by the root and the set. The other
settings only decide how the outcome is shown. -/
theorem generate_outcome (now : Bytes) (s : RunSettings) (tree : FileTree) :
    ∃ outcome next, Ran s.withDefaults.root (s.set.specs.map IconSpec.draw) tree outcome next ∧
      ∀ s' : RunSettings, s'.root = s.root → s'.set = s.set →
        (generate now s' : FileTreeM Run).run tree =
          (Run.ofOutcome now s'.withDefaults outcome, next) := by
  obtain ⟨outcome, next, hran, hrun⟩ := generateFrom_run s.withDefaults.root s.set.specs tree
  refine ⟨outcome, next, hran, ?_⟩
  intro s' hroot hset
  have hdefault : s'.withDefaults.root = s.withDefaults.root := by
    simp only [RunSettings.withDefaults, hroot]
  have hspecs : s'.withDefaults.set.specs = s.set.specs := congrArg IconSet.specs hset
  rw [generate, hspecs, hrun _ _ hdefault, RunProgress.ending_start]

theorem generate_run (now : Bytes) (s : RunSettings) (tree : FileTree) :
    ∃ outcome next,
      (generate now s : FileTreeM Run).run tree =
        (Run.ofOutcome now s.withDefaults outcome, next) ∧
      Ran s.withDefaults.root (s.set.specs.map IconSpec.draw) tree outcome next := by
  obtain ⟨outcome, next, hran, hruns⟩ := generate_outcome now s tree
  exact ⟨outcome, next, hruns s rfl rfl, hran⟩

end PlaceholderIcons
