import PlaceholderIcons.Proofs.AuditFaults

/-!
What an audit goes by. A manifest describes its run and its icons, and says
which files there are to be; an audit reads only the second. Files are found
through the base directory, and no fault of a file that is missing or can be
read tells where it was looked for. A manifest that is moved along with its
files, or described in other words, is therefore judged as before.
-/

namespace PlaceholderIcons

/-- The record without its description, which is the label and whether it fits. -/
def IconRecord.undescribed (icon : IconRecord) : IconRecord :=
  { icon with
    label := []
    fits := false }

/-- The icons without their descriptions. -/
def IconListing.undescribed (listing : IconListing) : IconListing :=
  listing.map fun (target, icon) => (target, icon.undescribed)

/-- Two paths in two trees lead nowhere, or lead to regular files of one content. -/
def FileTree.SameFile (tree : FileTree) (path : Bytes) (tree' : FileTree) (path' : Bytes) : Prop :=
  (∃ cause cause', tree.find path = .error cause ∧ tree'.find path' = .error cause') ∨
    ∃ content, tree.find path = .ok (.file content) ∧ tree'.find path' = .ok (.file content)

namespace IconListing

theorem ranked_undescribed (listing : IconListing) :
    listing.undescribed.ranked = listing.ranked.undescribed := by
  symm
  apply List.map_mergeSort
  intro a _ b _
  rfl

theorem totals_undescribed (listing : IconListing) :
    listing.undescribed.totals = listing.totals := by
  simp only [totals, undescribed, List.length_map, List.foldl_map, IconRecord.undescribed]

end IconListing

namespace Manifest

open IconListing

theorem listing_increasing (m : Manifest) :
    m.listing.Pairwise fun a b => compare a.1 b.1 = .lt := by
  unfold listing
  cases m.icons with
  | none => exact .nil
  | some table => exact table.increasing

/-- Manifests that say the same of the files there are to be. -/
structure SameSubstance (m n : Manifest) : Prop where
  version_eq : m.version = n.version
  totals_eq : m.totals = n.totals
  target_iff : ∀ target, target ∈ m.listing.map Prod.fst ↔ target ∈ n.listing.map Prod.fst
  icon_eq : ∀ a ∈ m.listing, ∀ b ∈ n.listing, a.1 = b.1 →
    a.2.path = b.2.path ∧ a.2.size = b.2.size ∧ a.2.bytes = b.2.bytes ∧ a.2.hash = b.2.hash

namespace SameSubstance

theorem symm {m n : Manifest} (h : m.SameSubstance n) : n.SameSubstance m := by
  refine ⟨h.version_eq.symm, h.totals_eq.symm, fun target => (h.target_iff target).symm, ?_⟩
  intro a ha b hb htarget
  obtain ⟨hpath, hsize, hbytes, hhash⟩ := h.icon_eq b hb a ha htarget.symm
  exact ⟨hpath.symm, hsize.symm, hbytes.symm, hhash.symm⟩

theorem mem_undescribed {m n : Manifest} (h : m.SameSubstance n) {x : Bytes × IconRecord}
    (hx : x ∈ m.listing.undescribed) : x ∈ n.listing.undescribed := by
  obtain ⟨a, ha, rfl⟩ := List.mem_map.1 hx
  obtain ⟨b, hb, htarget⟩ := List.mem_map.1 ((h.target_iff a.1).1 (List.mem_map_of_mem ha))
  obtain ⟨hpath, hsize, hbytes, hhash⟩ := h.icon_eq a ha b hb htarget.symm
  refine List.mem_map.2 ⟨b, hb, ?_⟩
  simp only [IconRecord.undescribed, htarget, hpath, hsize, hbytes, hhash]

/-- Such manifests list the same icons once their descriptions are gone. -/
theorem undescribed_eq {m n : Manifest} (h : m.SameSubstance n) :
    m.listing.undescribed = n.listing.undescribed := by
  have hincreasing (m : Manifest) :
      m.listing.undescribed.Pairwise fun a b => compare a.1 b.1 = .lt :=
    List.pairwise_map.2 m.listing_increasing
  exact Table.eq_of_increasing (hincreasing m) (hincreasing n)
    fun x => ⟨h.mem_undescribed, h.symm.mem_undescribed⟩

end SameSubstance

theorem listingFaults_undescribed (tree : FileTree) (base : Bytes) (seen : List Bytes)
    (listing : IconListing) :
    listingFaults tree base seen listing.undescribed = listingFaults tree base seen listing := by
  induction listing generalizing seen with
  | nil => rfl
  | cons e rest ih =>
      obtain ⟨target, icon⟩ := e
      have hicon : iconFaults tree base seen icon.undescribed = iconFaults tree base seen icon := rfl
      change (iconFaults tree base seen icon.undescribed).map (AuditFault.icon target) ++
          listingFaults tree base (icon.path :: seen) (IconListing.undescribed rest) = _
      rw [hicon, ih]
      rfl

/-- Descriptions have no influence on an audit. -/
theorem faults_of_sameSubstance {m n : Manifest} (h : m.SameSubstance n) (tree : FileTree)
    (base : Bytes) : m.faults tree base = n.faults tree base := by
  have hranked : listingFaults tree base [] m.listing.ranked =
      listingFaults tree base [] n.listing.ranked := by
    rw [← listingFaults_undescribed, ← ranked_undescribed, h.undescribed_eq, ranked_undescribed,
      listingFaults_undescribed]
  have htotals : m.listing.totals = n.listing.totals := by
    rw [← totals_undescribed, h.undescribed_eq, totals_undescribed]
  rw [faults, faults, hranked, htotals, h.version_eq, h.totals_eq]

/-- What is found wrong with a file does not tell where it was looked for. -/
theorem fileFaults_of_sameFile {tree tree' : FileTree} {path path' : Bytes}
    (h : tree.SameFile path tree' path') (icon : IconRecord) :
    fileFaults tree path icon = fileFaults tree' path' icon := by
  rcases h with ⟨cause, cause', hfind, hfind'⟩ | ⟨content, hfind, hfind'⟩
  · simp only [fileFaults, hfind, hfind']
  · simp only [fileFaults, hfind, hfind']

theorem iconFaults_of_sameFile {tree tree' : FileTree} {base base' : Bytes} {icon : IconRecord}
    (h : icon.path ≠ [] → tree.SameFile (FilePath.join base icon.path) tree'
      (FilePath.join base' icon.path)) (seen : List Bytes) :
    iconFaults tree base seen icon = iconFaults tree' base' seen icon := by
  by_cases hpath : icon.path = []
  · simp [iconFaults, hpath]
  · rw [iconFaults, iconFaults, fileFaults_of_sameFile (h hpath)]

theorem listingFaults_of_sameFiles {tree tree' : FileTree} {base base' : Bytes}
    {listing : IconListing}
    (h : ∀ e ∈ listing, e.2.path ≠ [] → tree.SameFile (FilePath.join base e.2.path) tree'
      (FilePath.join base' e.2.path)) (seen : List Bytes) :
    listingFaults tree base seen listing = listingFaults tree' base' seen listing := by
  induction listing generalizing seen with
  | nil => rfl
  | cons e rest ih =>
      obtain ⟨target, icon⟩ := e
      have hicon := iconFaults_of_sameFile (h (target, icon) List.mem_cons_self) seen
      have hrest := ih (fun e he => h e (List.mem_cons_of_mem _ he)) (icon.path :: seen)
      rw [listingFaults, listingFaults, hicon, hrest]

/-- A manifest moved along with its files is judged as before. -/
theorem faults_of_sameFiles {m : Manifest} {tree tree' : FileTree} {base base' : Bytes}
    (h : ∀ e ∈ m.listing, e.2.path ≠ [] → tree.SameFile (FilePath.join base e.2.path) tree'
      (FilePath.join base' e.2.path)) :
    m.faults tree base = m.faults tree' base' := by
  have hranked : listingFaults tree base [] m.listing.ranked =
      listingFaults tree' base' [] m.listing.ranked :=
    listingFaults_of_sameFiles (fun e he => h e ((ranked_perm m.listing).mem_iff.1 he)) []
  rw [faults, faults, hranked]

/-- Two audits, of two manifests below two directories in two trees, find the
same faults in the same order, provided the manifests differ in root, set, time,
labels and fits only and each path of an icon leads nowhere in either tree or
to files of one content in both. -/
theorem audit_relocated {m n : Manifest} {tree tree' : FileTree} {base base' : Bytes}
    (hsame : m.SameSubstance n)
    (hfiles : ∀ e ∈ m.listing, e.2.path ≠ [] → tree.SameFile (FilePath.join base e.2.path) tree'
      (FilePath.join base' e.2.path)) :
    ((m.audit base : FileTreeM _).run tree).1 = ((n.audit base' : FileTreeM _).run tree').1 := by
  rw [audit_run, audit_run]
  exact (faults_of_sameFiles hfiles).trans (faults_of_sameSubstance hsame tree' base')

/-- One file that is not what it should be and is listed twice, one that is not
there and one without a path, under any description. -/
def faulty (set root label : Bytes) (fits : Bool) : Manifest :=
  { version := 3
    generatedAt := set
    set := set
    root := root
    icons := some (Table.ofList
      [(utf8 "a.png", ⟨utf8 "a.svg", 16, label, 9, utf8 "h", fits⟩),
        (utf8 "b.png", ⟨utf8 "a.svg", 16, label, 3, [], fits⟩),
        (utf8 "c.png", ⟨utf8 "d/c.svg", 48, label, 0, utf8 "h", fits⟩),
        (utf8 "d.png", ⟨[], -1, label, 0, utf8 "h", fits⟩)])
    totals := ⟨4, 0⟩ }

/-- A tree that holds one file, in its working directory. -/
def oneFile (workingDirectory : Location) : FileTree :=
  (FileTree.fresh workingDirectory).put (utf8 "a.svg" :: workingDirectory) (utf8 "<>")

theorem audit_relocated_faulty :
    (faulty [] [] [] true).SameSubstance (faulty (utf8 "t") (utf8 "r") (utf8 "W") false) ∧
    (((faulty [] [] [] true).audit FilePath.here : FileTreeM _).run (oneFile [utf8 "w"])).1 =
      (((faulty (utf8 "t") (utf8 "r") (utf8 "W") false).audit (utf8 "/y/x") : FileTreeM _).run
        (oneFile [utf8 "x", utf8 "y"])).1 := by
  have htargets : (faulty [] [] [] true).listing.map Prod.fst =
      (faulty (utf8 "t") (utf8 "r") (utf8 "W") false).listing.map Prod.fst := by decide +kernel
  have hicons : ∀ a ∈ (faulty [] [] [] true).listing,
      ∀ b ∈ (faulty (utf8 "t") (utf8 "r") (utf8 "W") false).listing, a.1 = b.1 →
        a.2.path = b.2.path ∧ a.2.size = b.2.size ∧ a.2.bytes = b.2.bytes ∧
          a.2.hash = b.2.hash := by decide +kernel
  have hsame : (faulty [] [] [] true).SameSubstance
      (faulty (utf8 "t") (utf8 "r") (utf8 "W") false) :=
    ⟨rfl, rfl, fun target => by rw [htargets], hicons⟩
  have hpaths : ∀ e ∈ (faulty [] [] [] true).listing,
      e.2.path = [] ∨ e.2.path = utf8 "a.svg" ∨ e.2.path = utf8 "d/c.svg" := by decide +kernel
  refine ⟨hsame, audit_relocated hsame ?_⟩
  intro e he hne
  rcases hpaths e he with hpath | hpath | hpath
  · exact absurd hpath hne
  · rw [hpath]
    exact .inr ⟨utf8 "<>", rfl, rfl⟩
  · rw [hpath]
    exact .inl ⟨.notFound, .notFound, rfl, rfl⟩

end Manifest

end PlaceholderIcons
