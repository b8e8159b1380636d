import Mathlib.Algebra.Ring.Int.Defs
import Mathlib.Algebra.Ring.Nat
import Mathlib.Data.List.Nodup
import PlaceholderIcons.Proofs.FileWrites
import PlaceholderIcons.Proofs.Streaming

/-!
An audit on a file tree. Auditing only looks: it leaves the tree as it is, and
the faults that it returns are a function of the tree. The functions below are
that reading of the audit, and a manifest is without faults exactly if its
head, its totals and each of its icons are in order.
-/

namespace PlaceholderIcons

/-- Totals are known by the numbers they stand for. -/
theorem Totals.eq_of_toInt {totals : Totals} {icons bytes : Int64} (hicons : totals.icons = icons)
    (hbytes : totals.bytes.toInt = bytes.toInt) : totals = ⟨icons, bytes⟩ :=
  congrArg₂ Totals.mk hicons (Int64.toInt_inj.1 hbytes)

namespace Manifest

open FileTreeM

/-- The faults of the file at `location` as an icon's document. -/
def fileFaults (tree : FileTree) (location : Bytes) (icon : IconRecord) : List IconFault :=
  match tree.find location with
  | .error _ => [.fileNotFound icon.path]
  | .ok entry =>
      faultIf (entry.status.size != icon.bytes) (.sizeMismatch icon.bytes entry.status.size) ++
        match entry with
        | .directory => [.unreadable ⟨.readFile, location, .isDirectory⟩]
        | .file content =>
            faultIf (!icon.hash.isEmpty && contentHash content != icon.hash)
              (.hashMismatch icon.hash (contentHash content))

theorem auditFile_run (tree : FileTree) (location : Bytes) (icon : IconRecord) :
    (auditFile location icon : FileTreeM _).run tree = (fileFaults tree location icon, tree) := by
  have hhash := hashFile_run tree location
  unfold auditFile fileFaults
  cases hfind : tree.find location with
  | error cause =>
      have hstatus : tree.status location = .error ⟨.status, location, cause⟩ := by
        simp [FileTree.status, hfind]
      simp only [run_bind, run_status, hstatus, run_pure]
  | ok entry =>
      have hstatus : tree.status location = .ok entry.status := by
        simp [FileTree.status, hfind]
      rw [FileTree.read, hfind] at hhash
      cases entry with
      | directory => simp only [run_bind, run_status, hstatus, hhash, Except.map, run_pure]
      | file content => simp only [run_bind, run_status, hstatus, hhash, Except.map, run_pure]

/-- The faults of one icon, given the paths of the icons in front of it. -/
def iconFaults (tree : FileTree) (base : Bytes) (seen : List Bytes) (icon : IconRecord) :
    List IconFault :=
  faultIf (decide (icon.size ≤ 0)) (.invalidSize icon.size) ++
    faultIf icon.hash.isEmpty .missingHash ++
    if icon.path.isEmpty then [.missingPath]
    else
      faultIf (seen.contains icon.path) (.duplicatePath icon.path) ++
        fileFaults tree (FilePath.join base icon.path) icon

theorem auditIcon_run (tree : FileTree) (base : Bytes) (seen : List Bytes) (icon : IconRecord) :
    (auditIcon base seen icon : FileTreeM _).run tree = (iconFaults tree base seen icon, tree) := by
  have hfile := auditFile_run tree (FilePath.join base icon.path) icon
  unfold auditIcon iconFaults
  by_cases hpath : icon.path.isEmpty
  · simp only [hpath, if_true, run_pure]
  · simp only [hpath, Bool.false_eq_true, if_false, run_bind, hfile, run_pure, List.append_assoc]

/-- The faults of icons in the order of the listing. -/
def listingFaults (tree : FileTree) (base : Bytes) :
    (seen : List Bytes) → IconListing → List AuditFault
  | _, [] => []
  | seen, (target, icon) :: rest =>
      (iconFaults tree base seen icon).map (.icon target) ++
        listingFaults tree base (icon.path :: seen) rest

theorem auditIcons_run (tree : FileTree) (base : Bytes) (seen : List Bytes)
    (listing : IconListing) :
    (auditIcons base seen listing : FileTreeM _).run tree =
      (listingFaults tree base seen listing, tree) := by
  induction listing generalizing seen with
  | nil => rfl
  | cons e rest ih =>
      obtain ⟨target, icon⟩ := e
      have hicon := auditIcon_run tree base seen icon
      have hrest := ih (icon.path :: seen)
      simp only [auditIcons, run_bind, hicon, hrest, run_pure, listingFaults]

/-- All faults of a manifest whose icon paths start at `base`. -/
def faults (m : Manifest) (tree : FileTree) (base : Bytes) : List AuditFault :=
  faultIf (m.version != supportedVersion) (.unsupportedVersion m.version) ++
    listingFaults tree base [] m.listing.ranked ++
    faultIf (m.totals.icons != m.listing.totals.icons)
      (.iconTotal m.totals.icons m.listing.totals.icons) ++
    faultIf (m.totals.bytes != m.listing.totals.bytes)
      (.byteTotal m.totals.bytes m.listing.totals.bytes)

theorem audit_run (m : Manifest) (base : Bytes) (tree : FileTree) :
    (m.audit base : FileTreeM _).run tree = (m.faults tree base, tree) := by
  have hicons := auditIcons_run tree base [] m.listing.ranked
  simp only [audit, auditListing, run_bind, hicons, run_pure, faults]

theorem faultIf_eq_nil_iff {α : Type} {condition : Bool} {fault : α} :
    faultIf condition fault = [] ↔ condition = false := by
  cases condition <;> simp [faultIf]

theorem mem_faultIf_iff {α : Type} {condition : Bool} {fault other : α} :
    other ∈ faultIf condition fault ↔ condition = true ∧ other = fault := by
  cases condition <;> simp [faultIf]

/-- An icon that is in order by itself: the fields are set, and the path names a
regular file of the recorded length and checksum. -/
structure IconSound (tree : FileTree) (base : Bytes) (icon : IconRecord) : Prop where
  size_pos : 0 < icon.size
  hash_ne : icon.hash ≠ []
  path_ne : icon.path ≠ []
  file : ∃ content, tree.find (FilePath.join base icon.path) = .ok (.file content) ∧
    Int64.ofNat content.length = icon.bytes ∧ contentHash content = icon.hash

theorem fileFaults_eq_nil_iff {tree : FileTree} {location : Bytes} {icon : IconRecord}
    (hhash : icon.hash ≠ []) :
    fileFaults tree location icon = [] ↔
      ∃ content, tree.find location = .ok (.file content) ∧
        Int64.ofNat content.length = icon.bytes ∧ contentHash content = icon.hash := by
  have hset : icon.hash.isEmpty = false := by simpa using hhash
  unfold fileFaults
  cases tree.find location with
  | error cause => simp
  | ok entry =>
      cases entry with
      | directory => simp
      | file content => simp [faultIf_eq_nil_iff, Entry.status, hset]

/-- An icon contributes no fault exactly if it is sound and its path is new. -/
theorem iconFaults_eq_nil_iff {tree : FileTree} {base : Bytes} {seen : List Bytes}
    {icon : IconRecord} :
    iconFaults tree base seen icon = [] ↔ IconSound tree base icon ∧ icon.path ∉ seen := by
  unfold iconFaults
  constructor
  · intro h
    simp only [List.append_eq_nil_iff, faultIf_eq_nil_iff, decide_eq_false_iff_not] at h
    obtain ⟨⟨hsize, hhash⟩, hrest⟩ := h
    have hhash' : icon.hash ≠ [] := by simpa using hhash
    split at hrest
    next => cases hrest
    next hpath =>
      simp only [List.append_eq_nil_iff, faultIf_eq_nil_iff] at hrest
      obtain ⟨hseen, hfile⟩ := hrest
      refine ⟨⟨Int64.not_le.1 hsize, hhash', by simpa using hpath, ?_⟩, by simpa using hseen⟩
      exact (fileFaults_eq_nil_iff hhash').1 hfile
  · rintro ⟨hsound, hseen⟩
    have hpath : icon.path.isEmpty = false := by simpa using hsound.path_ne
    have hfile := (fileFaults_eq_nil_iff hsound.hash_ne).2 hsound.file
    simp [faultIf_eq_nil_iff, hpath, hfile, hseen, hsound.hash_ne, Int64.not_le, hsound.size_pos]

/-- The faults of a target are those of its iteration, where the paths of all
icons in front of it have been seen. -/
theorem icon_mem_listingFaults_iff {tree : FileTree} {base : Bytes} {seen : List Bytes}
    {listing : IconListing} {target : Bytes} {fault : IconFault} :
    AuditFault.icon target fault ∈ listingFaults tree base seen listing ↔
      ∃ front icon back, listing = front ++ (target, icon) :: back ∧
        fault ∈ iconFaults tree base ((front.map (·.2.path)).reverse ++ seen) icon := by
  induction listing generalizing seen with
  | nil => simp [listingFaults]
  | cons e rest ih =>
      obtain ⟨first, record⟩ := e
      simp only [listingFaults, List.mem_append, List.mem_map, ih]
      constructor
      · rintro (⟨f, hf, heq⟩ | ⟨front, icon, back, rfl, hf⟩)
        · cases heq
          exact ⟨[], record, rest, rfl, by simpa using hf⟩
        · exact ⟨(first, record) :: front, icon, back, rfl, by simpa using hf⟩
      · rintro ⟨front, icon, back, hsplit, hf⟩
        cases front with
        | nil =>
            simp only [List.nil_append, List.cons.injEq, Prod.mk.injEq] at hsplit
            obtain ⟨⟨rfl, rfl⟩, rfl⟩ := hsplit
            exact .inl ⟨fault, by simpa using hf, rfl⟩
        | cons e front =>
            simp only [List.cons_append, List.cons.injEq] at hsplit
            obtain ⟨rfl, rfl⟩ := hsplit
            exact .inr ⟨front, icon, back, rfl, by simpa using hf⟩

theorem listingFaults_eq_nil_iff {tree : FileTree} {base : Bytes} {seen : List Bytes}
    {listing : IconListing} :
    listingFaults tree base seen listing = [] ↔
      (∀ e ∈ listing, IconSound tree base e.2 ∧ e.2.path ∉ seen) ∧
        (listing.map (·.2.path)).Nodup := by
  induction listing generalizing seen with
  | nil => simp [listingFaults]
  | cons e rest ih =>
      obtain ⟨target, icon⟩ := e
      simp only [listingFaults, List.append_eq_nil_iff, List.map_eq_nil_iff, iconFaults_eq_nil_iff,
        ih, List.mem_cons, forall_eq_or_imp, List.map_cons, List.nodup_cons, List.mem_map, not_or]
      constructor
      · rintro ⟨hicon, hrest, hnodup⟩
        refine ⟨⟨hicon, fun e he => ⟨(hrest e he).1, (hrest e he).2.2⟩⟩, ?_, hnodup⟩
        rintro ⟨e, he, heq⟩
        exact (hrest e he).2.1 heq
      · rintro ⟨⟨hicon, hrest⟩, hnew, hnodup⟩
        refine ⟨hicon, fun e he => ⟨(hrest e he).1, ?_, (hrest e he).2⟩, hnodup⟩
        intro heq
        exact hnew ⟨e, he, heq⟩

theorem ranked_perm (listing : IconListing) : listing.ranked.Perm listing :=
  List.mergeSort_perm _ _

/-- Adding up in 64 bits is adding up and keeping the low 64 bits. -/
theorem totals_bytes_eq (listing : IconListing) :
    listing.totals.bytes = Int64.ofInt (listing.map fun e => e.2.bytes.toInt).sum := by
  have hfold : ∀ start : Int64, listing.foldl (fun sum e => sum + e.2.bytes) start =
      start + Int64.ofInt (listing.map fun e => e.2.bytes.toInt).sum := by
    induction listing with
    | nil => simp
    | cons e rest ih =>
        intro start
        rw [List.foldl_cons, ih, List.map_cons, List.sum_cons, Int64.ofInt_add,
          Int64.ofInt_toInt, Int64.add_assoc]
  exact (hfold 0).trans (Int64.zero_add _)

theorem toInt_totals_bytes (listing : IconListing) :
    listing.totals.bytes.toInt =
      Int.bmod (listing.map fun e => e.2.bytes.toInt).sum (2 ^ 64) := by
  have hsize : Int64.size = 2 ^ 64 := rfl
  rw [totals_bytes_eq, Int64.toInt_ofInt, hsize]

theorem targets_nodup (m : Manifest) : (m.listing.map Prod.fst).Nodup := by
  unfold listing
  cases m.icons with
  | none => exact List.nodup_nil
  | some table => exact table.keys_nodup

/-- A manifest that describes the files below `base`: a known version, sound
icons that share no path, and totals that add up. -/
structure Valid (tree : FileTree) (base : Bytes) (m : Manifest) : Prop where
  version_eq : m.version = 1
  icons_sound : ∀ e ∈ m.listing, IconSound tree base e.2
  paths_distinct : ∀ e ∈ m.listing, ∀ e' ∈ m.listing, e.1 ≠ e'.1 → e.2.path ≠ e'.2.path
  icon_total : m.totals.icons = Int64.ofNat m.listing.length
  byte_total : m.totals.bytes = Int64.ofInt (m.listing.map fun e => e.2.bytes.toInt).sum

theorem paths_nodup_iff (m : Manifest) :
    (m.listing.map (·.2.path)).Nodup ↔
      ∀ e ∈ m.listing, ∀ e' ∈ m.listing, e.1 ≠ e'.1 → e.2.path ≠ e'.2.path := by
  have htargets := m.targets_nodup
  constructor
  · intro hpaths e he e' he' hne heq
    exact hne (congrArg Prod.fst (List.inj_on_of_nodup_map hpaths he he' heq))
  · intro h
    refine List.Nodup.map_on ?_ htargets.of_map
    intro e he e' he' heq
    by_contra hne
    refine h e he e' he' ?_ heq
    intro htarget
    exact hne (List.inj_on_of_nodup_map htargets he he' htarget)

/-- The verdict of an audit: no fault is found exactly in a valid manifest. -/
theorem faults_eq_nil_iff {m : Manifest} {tree : FileTree} {base : Bytes} :
    m.faults tree base = [] ↔ m.Valid tree base := by
  have hranked := ranked_perm m.listing
  have hicons : listingFaults tree base [] m.listing.ranked = [] ↔
      (∀ e ∈ m.listing, IconSound tree base e.2) ∧ (m.listing.map (·.2.path)).Nodup := by
    rw [listingFaults_eq_nil_iff, (hranked.map _).nodup_iff]
    simp [hranked.mem_iff]
  simp only [faults, List.append_eq_nil_iff, faultIf_eq_nil_iff, hicons, bne_eq_false_iff_eq,
    paths_nodup_iff, totals_bytes_eq]
  constructor
  · rintro ⟨⟨⟨hversion, hsound, hpaths⟩, hcount⟩, hbytes⟩
    exact ⟨hversion, hsound, hpaths, hcount, hbytes⟩
  · intro h
    exact ⟨⟨⟨h.version_eq, h.icons_sound, h.paths_distinct⟩, h.icon_total⟩, h.byte_total⟩

/-- A fault that names a target comes from that target's iteration. -/
theorem icon_mem_faults_iff {m : Manifest} {tree : FileTree} {base target : Bytes}
    {fault : IconFault} :
    AuditFault.icon target fault ∈ m.faults tree base ↔
      AuditFault.icon target fault ∈ listingFaults tree base [] m.listing.ranked := by
  simp [faults, mem_faultIf_iff]

/-- One target stands before another exactly if it lies in the part of the
ranking in front of it. -/
theorem sublist_targets_iff {m : Manifest} {front back : IconListing} {target other : Bytes}
    {icon : IconRecord} (hsplit : m.listing.ranked = front ++ (target, icon) :: back) :
    [other, target].Sublist m.listing.targets ↔ other ∈ front.map Prod.fst := by
  have htargets : m.listing.targets =
      front.map Prod.fst ++ target :: back.map Prod.fst := by
    rw [IconListing.targets, hsplit, List.map_append, List.map_cons]
  have hnodup : (front.map Prod.fst ++ target :: back.map Prod.fst).Nodup := by
    rw [← htargets, IconListing.targets, ((ranked_perm m.listing).map _).nodup_iff]
    exact m.targets_nodup
  have hfront : target ∉ front.map Prod.fst := fun h =>
    (List.nodup_append.1 hnodup).2.2 target h target List.mem_cons_self rfl
  have hback : target ∉ back.map Prod.fst := (List.nodup_cons.1 (List.nodup_append.1 hnodup).2.1).1
  rw [htargets]
  constructor
  · intro h
    obtain ⟨l₁, l₂, hpair, h₁, h₂⟩ := List.sublist_append_iff.1 h
    -- The pair is cut somewhere; only the cut between its two targets is possible.
    match l₁, hpair with
    | [], hpair =>
        rw [List.nil_append] at hpair
        subst hpair
        exact absurd (List.singleton_sublist.1 h₂.tail) hback
    | [first], hpair =>
        simp only [List.cons_append, List.nil_append, List.cons.injEq] at hpair
        rw [← hpair.1] at h₁
        exact List.singleton_sublist.1 h₁
    | first :: second :: rest, hpair =>
        simp only [List.cons_append, List.cons.injEq] at hpair
        exact absurd (h₁.subset (by simp [hpair.2.1])) hfront
  · intro h
    exact (List.singleton_sublist.2 h).append (List.singleton_sublist.2 List.mem_cons_self)

/-- The iteration of a target finds a fault exactly if its icon is not in order
or its path has been seen. -/
theorem exists_icon_mem_faults_iff {m : Manifest} {tree : FileTree} {base target : Bytes} :
    (∃ fault, AuditFault.icon target fault ∈ m.faults tree base) ↔
      ∃ front icon back, m.listing.ranked = front ++ (target, icon) :: back ∧
        (¬ IconSound tree base icon ∨ icon.path ∈ front.map (·.2.path)) := by
  have hiteration : ∀ (front : IconListing) (icon : IconRecord),
      (∃ fault, fault ∈ iconFaults tree base ((front.map (·.2.path)).reverse ++ []) icon) ↔
        ¬ IconSound tree base icon ∨ icon.path ∈ front.map (·.2.path) := by
    intro front icon
    have hnil : iconFaults tree base ((front.map (·.2.path)).reverse ++ []) icon = [] ↔
        IconSound tree base icon ∧ icon.path ∉ (front.map (·.2.path)).reverse ++ [] :=
      iconFaults_eq_nil_iff
    have hsome := not_congr hnil
    rw [List.eq_nil_iff_forall_not_mem, not_forall_not, not_and_or, not_not] at hsome
    simpa using hsome
  constructor
  · rintro ⟨fault, hmem⟩
    obtain ⟨front, icon, back, hsplit, hfault⟩ :=
      icon_mem_listingFaults_iff.1 (icon_mem_faults_iff.1 hmem)
    exact ⟨front, icon, back, hsplit, (hiteration front icon).1 ⟨fault, hfault⟩⟩
  · rintro ⟨front, icon, back, hsplit, h⟩
    obtain ⟨fault, hfault⟩ := (hiteration front icon).2 h
    exact ⟨fault, icon_mem_faults_iff.2
      (icon_mem_listingFaults_iff.2 ⟨front, icon, back, hsplit, hfault⟩)⟩

/-- The audit of a manifest is sound and complete, for every tree and base
directory. It changes no file and finds no fault exactly in a valid manifest.
It finds a fault in an icon exactly if the icon by itself is not in order or
repeats a path of an icon that comes before it in the order of the targets. -/
theorem audit_sound_complete (m : Manifest) (base : Bytes) (tree : FileTree) :
    ((m.audit base : FileTreeM _).run tree).2 = tree ∧
    (((m.audit base : FileTreeM _).run tree).1 = [] ↔ m.Valid tree base) ∧
    ∀ target : Bytes,
      (∃ fault, AuditFault.icon target fault ∈ ((m.audit base : FileTreeM _).run tree).1) ↔
        ∃ icon, (target, icon) ∈ m.listing ∧
          (¬ IconSound tree base icon ∨
            icon.path ≠ [] ∧ ∃ other, [other, target].Sublist m.listing.targets ∧
              ∃ earlier, (other, earlier) ∈ m.listing ∧ earlier.path = icon.path) := by
  rw [audit_run]
  refine ⟨rfl, faults_eq_nil_iff, fun target => ?_⟩
  have hranked := ranked_perm m.listing
  rw [exists_icon_mem_faults_iff]
  constructor
  · rintro ⟨front, icon, back, hsplit, h⟩
    have hmem : (target, icon) ∈ m.listing := hranked.mem_iff.1 (by simp [hsplit])
    refine ⟨icon, hmem, ?_⟩
    by_cases hsound : IconSound tree base icon
    · obtain ⟨e, he, hpath⟩ := List.mem_map.1 (h.resolve_left (not_not.2 hsound))
      have hearlier : e ∈ m.listing := hranked.mem_iff.1 (by simp [hsplit, he])
      refine .inr ⟨hsound.path_ne, e.1, ?_, e.2, hearlier, hpath⟩
      exact (sublist_targets_iff hsplit).2 (List.mem_map_of_mem he)
    · exact .inl hsound
  · rintro ⟨icon, hmem, h⟩
    obtain ⟨front, back, hsplit⟩ := List.append_of_mem (hranked.mem_iff.2 hmem)
    refine ⟨front, icon, back, hsplit, h.imp id ?_⟩
    rintro ⟨-, other, hbefore, earlier, hearlier, hpath⟩
    obtain ⟨e, he, rfl⟩ := List.mem_map.1 ((sublist_targets_iff hsplit).1 hbefore)
    have hlisted : e ∈ m.listing := hranked.mem_iff.1 (by simp [hsplit, he])
    have hsame : e = (e.1, earlier) :=
      List.inj_on_of_nodup_map m.targets_nodup hlisted hearlier rfl
    rw [List.mem_map]
    exact ⟨e, he, by rw [hsame, hpath]⟩

end Manifest

end PlaceholderIcons
