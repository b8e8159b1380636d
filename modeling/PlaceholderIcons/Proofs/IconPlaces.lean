import PlaceholderIcons.CommandLine.Program
import PlaceholderIcons.Proofs.AuditFaults
import PlaceholderIcons.Proofs.OutputPlaces

/-!
Which file the path of an icon leads to. A run resolves paths against its root
and an audit against the directory of the manifest, and both come to the same
path, so icons are looked for where they were written. Two icons of a manifest
without faults have different paths. They lie in different files unless the two
paths are spellings of one path, which an audit does not look for: made absolute
from the working directory, they have the same names.
-/

namespace PlaceholderIcons

namespace FilePath

/-- Seen from the directory of a file in `root`, a path is what it is seen from
`root`, which stands for the directory itself if it is empty. -/
theorem join_directory_join {name : Bytes} (hname : IsName name) (hhere : name ≠ here)
    (habove : name ≠ above) (root path : Bytes) :
    join (directory (join root name)) path = join (if root = [] then here else root) path := by
  rw [directory_join hname hhere habove]
  by_cases hroot : root = []
  · rw [if_pos hroot, hroot]
    rfl
  · rw [if_neg hroot, join_clean hroot]

/-- The names that a path leaves below the directory it is joined to, innermost
first, with the steps up that lead out of it. -/
def inner (path : Bytes) : List Bytes :=
  (names path).foldl (push false) []

/-- A path that, joined to `base`, lexically lies below it: its steps up do not
lead out, and an empty base does not give way to an absolute path. -/
structure StaysBelow (base path : Bytes) : Prop where
  inside : above ∉ inner path
  relative : base = [] → isRooted path = false

/-- A relative path without steps up, written as cleaning leaves it. -/
structure IsLocal (path : Bytes) : Prop where
  cleaned : clean path = path
  relative : isRooted path = false
  no_above : above ∉ names path

/-- The location that a name leads to as a text. -/
def enter (location : List Bytes) (name : Bytes) : List Bytes :=
  if name = here then location
  else if name = above then location.tail
  else name :: location

/-- The names of a path made absolute from a working directory, innermost first.
No file is looked at. -/
def absolute (workingDirectory : List Bytes) (path : Bytes) : List Bytes :=
  (names path).foldl enter (if isRooted path then [] else workingDirectory)

/-- A step up that leads out is never taken back. -/
theorem above_mem_push {rooted : Bool} {settled : List Bytes} (h : above ∈ settled)
    (name : Bytes) : above ∈ push rooted settled name := by
  by_cases hhere : name = here
  · subst hhere
    exact h
  · by_cases habove : name = above
    · subst habove
      cases settled with
      | nil => cases h
      | cons last rest =>
        by_cases hlast : last = above
        · subst hlast
          rw [push_above_above]
          exact List.mem_cons_self
        · rw [push_above_of_ne hlast]
          exact (List.mem_cons.1 h).resolve_left (Ne.symm hlast)
    · rw [push_of_plain hhere habove]
      exact List.mem_cons_of_mem name h

theorem above_mem_foldl_push {rooted : Bool} {settled : List Bytes} (h : above ∈ settled)
    (ns : List Bytes) : above ∈ ns.foldl (push rooted) settled := by
  induction ns generalizing settled with
  | nil => exact h
  | cons n ns ih => exact ih (above_mem_push h n)

/-- As long as no step leads out, what lies below is not touched. -/
theorem push_append {settled : List Bytes} {name : Bytes} (h : above ∉ push false settled name)
    (rooted : Bool) (below : List Bytes) :
    push rooted (settled ++ below) name = push false settled name ++ below := by
  by_cases hhere : name = here
  · subst hhere
    rfl
  · by_cases habove : name = above
    · subst habove
      cases settled with
      | nil => exact absurd List.mem_cons_self h
      | cons last rest =>
        have hlast : last ≠ above := fun heq => h (above_mem_push (heq ▸ List.mem_cons_self) above)
        rw [List.cons_append, push_above_of_ne hlast, push_above_of_ne hlast]
    · rw [push_of_plain hhere habove, push_of_plain hhere habove, List.cons_append]

theorem foldl_push_append {settled ns : List Bytes} (h : above ∉ ns.foldl (push false) settled)
    (rooted : Bool) (below : List Bytes) :
    ns.foldl (push rooted) (settled ++ below) = ns.foldl (push false) settled ++ below := by
  induction ns generalizing settled with
  | nil => rfl
  | cons n ns ih =>
    have hfirst : above ∉ push false settled n := fun hmem => h (above_mem_foldl_push hmem ns)
    rw [List.foldl_cons, push_append hfirst, ih h, List.foldl_cons]

theorem Settled.plain {rooted : Bool} {settled : List Bytes} (h : Settled rooted settled)
    (habove : above ∉ settled) : ∀ n ∈ settled, n ≠ here ∧ n ≠ above := by
  obtain ⟨-, plain, count, rfl, hplain, -⟩ := h
  intro n hn
  rcases List.mem_append.1 hn with hmem | hmem
  · exact hplain n hmem
  · obtain rfl := List.eq_of_mem_replicate hmem
    exact absurd hn habove

theorem Settled.above_not_mem {settled : List Bytes} (h : Settled true settled) :
    above ∉ settled := by
  obtain ⟨-, plain, count, rfl, hplain, hcount⟩ := h
  obtain rfl := hcount rfl
  intro hmem
  rw [List.replicate_zero, List.append_nil] at hmem
  exact (hplain above hmem).2 rfl

theorem inner_settled (path : Bytes) : Settled false (inner path) :=
  foldl_push_settled (Settled.nil false) fun _ => isName_of_mem_names

theorem inner_of_relative {path : Bytes} (h : isRooted path = false) : inner path = settle path := by
  rw [settle, h]
  rfl

/-- A path that stays below its base adds its names to those of the base. -/
theorem join_of_staysBelow {base path : Bytes} (hne : path ≠ []) (h : StaysBelow base path) :
    join base path =
      assemble (isRooted base) ((settle base).reverse ++ (inner path).reverse) := by
  by_cases hbase : base = []
  · subst hbase
    rw [join_nil_eq_join_here hne (h.relative rfl), join_eq_assemble (by decide)]
    rfl
  · have hinner := foldl_push_append h.inside (isRooted base) (settle base)
    rw [join_eq_assemble hbase, ← List.reverse_append]
    exact congrArg (fun ns => assemble (isRooted base) ns.reverse) hinner

/-- Joined to a rooted base, a path has ordinary names only. -/
theorem join_of_isRooted {base : Bytes} (h : isRooted base = true) (path : Bytes) :
    ∃ settled, Settled true settled ∧ join base path = assemble true ([] ++ settled.reverse) := by
  have hbase : base ≠ [] := by
    rintro rfl
    cases h
  have hsettled := settle_settled base
  rw [h] at hsettled
  have hnames : ∀ n ∈ names path, IsName n := fun _ => isName_of_mem_names
  refine ⟨_, foldl_push_settled hsettled hnames, ?_⟩
  rw [join_eq_assemble hbase, h, List.nil_append]

theorem IsLocal.staysBelow {path : Bytes} (h : IsLocal path) (base : Bytes) :
    StaysBelow base path := by
  refine ⟨?_, fun _ => h.relative⟩
  rw [inner_of_relative h.relative]
  intro hmem
  apply h.no_above
  have hne : (settle path).reverse ≠ [] := by
    intro hnil
    rw [List.reverse_eq_nil_iff.1 hnil] at hmem
    cases hmem
  rw [← h.cleaned, clean_eq_assemble, names_assemble (fun _ => isName_of_mem_settle) hne]
  exact List.mem_reverse.2 hmem

theorem IsLocal.eq_of_inner_eq {path path' : Bytes} (h : IsLocal path) (h' : IsLocal path')
    (heq : inner path = inner path') : path = path' := by
  rw [inner_of_relative h.relative, inner_of_relative h'.relative] at heq
  rw [← h.cleaned, ← h'.cleaned, clean_eq_assemble, clean_eq_assemble, heq, h.relative, h'.relative]

end FilePath

open FilePath

namespace FileTree

/-- Names that can be followed lead where they lead as texts. -/
theorem eq_foldl_enter_of_walk {tree : FileTree} {location found : Location} {ns : List Bytes}
    (h : tree.walk location ns = .ok found) : found = ns.foldl enter location := by
  induction ns generalizing location with
  | nil => exact (Except.ok.inj h).symm
  | cons n ns ih =>
    have hrest := (walk_cons_eq_ok_iff.1 h).2
    rw [List.foldl_cons, enter]
    by_cases hhere : n = here
    · rw [if_pos hhere] at hrest ⊢
      exact ih hrest
    · rw [if_neg hhere] at hrest ⊢
      by_cases habove : n = above
      · rw [if_pos habove] at hrest ⊢
        exact ih hrest
      · rw [if_neg habove] at hrest ⊢
        exact ih hrest.2

/-- Ordinary names lead straight down. -/
theorem eq_append_of_walk {tree : FileTree} {location found : Location} {ns : List Bytes}
    (hplain : ∀ n ∈ ns, n ≠ here ∧ n ≠ above) (h : tree.walk location ns = .ok found) :
    found = ns.reverse ++ location := by
  rw [eq_foldl_enter_of_walk h]
  clear h
  induction ns generalizing location with
  | nil => rfl
  | cons n ns ih =>
    obtain ⟨hhere, habove⟩ := hplain n List.mem_cons_self
    rw [List.foldl_cons, enter, if_neg hhere, if_neg habove,
      ih fun n hn => hplain n (List.mem_cons_of_mem _ hn), List.reverse_cons, List.append_assoc]
    rfl

theorem walk_of_locate {tree : FileTree} {path : Bytes} {found : Location}
    (h : tree.locate path = .ok found) : tree.walk (tree.origin path) (names path) = .ok found := by
  unfold locate at h
  cases hrefuse : refuse path with
  | error cause =>
    rw [hrefuse] at h
    cases h
  | ok _ =>
    rw [hrefuse] at h
    by_cases hslash : endsInSlash path = true
    · have hwalk : tree.walk (tree.origin path) (names path ++ [here]) = .ok found := by
        simpa [hslash, bind, Except.bind] using h
      obtain ⟨middle, hfront, hlast⟩ := walk_append_eq_ok_iff.1 hwalk
      obtain ⟨-, rfl⟩ := walk_here_eq_ok_iff.1 hlast
      exact hfront
    · simpa [hslash, bind, Except.bind] using h

/-- A path that leads somewhere leads to the location it is made absolute to. -/
theorem eq_absolute_of_locate {tree : FileTree} {path : Bytes} {found : Location}
    (h : tree.locate path = .ok found) : found = absolute tree.workingDirectory path :=
  eq_foldl_enter_of_walk (walk_of_locate h)

/-- A written path is followed name by name, also if it has no name. -/
theorem walk_of_locate_assemble {tree : FileTree} {rooted : Bool} {ns : List Bytes}
    {found : Location} (hns : ∀ n ∈ ns, IsName n)
    (h : tree.locate (assemble rooted ns) = .ok found) :
    tree.walk (if rooted then [] else tree.workingDirectory) ns = .ok found := by
  have hwalk := walk_of_locate h
  rw [origin, isRooted_assemble hns] at hwalk
  by_cases hnil : ns = []
  · subst hnil
    cases rooted with
    | true => exact hwalk
    | false =>
      obtain ⟨-, rfl⟩ := walk_here_eq_ok_iff.1 hwalk
      rfl
  · rwa [names_assemble hns hnil] at hwalk

/-- Behind one front, different ordinary names lead to different places. -/
theorem names_eq_of_locate {tree : FileTree} {rooted : Bool} {front ns ns' : List Bytes}
    {found : Location} (hnames : ∀ n ∈ front ++ ns, IsName n)
    (hnames' : ∀ n ∈ front ++ ns', IsName n) (hplain : ∀ n ∈ ns, n ≠ here ∧ n ≠ above)
    (hplain' : ∀ n ∈ ns', n ≠ here ∧ n ≠ above)
    (h : tree.locate (assemble rooted (front ++ ns)) = .ok found)
    (h' : tree.locate (assemble rooted (front ++ ns')) = .ok found) : ns = ns' := by
  obtain ⟨middle, hfront, hrest⟩ := walk_append_eq_ok_iff.1 (walk_of_locate_assemble hnames h)
  obtain ⟨middle', hfront', hrest'⟩ := walk_append_eq_ok_iff.1 (walk_of_locate_assemble hnames' h')
  obtain rfl : middle = middle' := Except.ok.inj (hfront.symm.trans hfront')
  have heq := (eq_append_of_walk hplain hrest).symm.trans (eq_append_of_walk hplain' hrest')
  exact List.reverse_injective (List.append_cancel_right heq)

/-- Paths that stay below one base lead to one place only if they leave the same
names. -/
theorem inner_eq_of_locate {tree : FileTree} {base path path' : Bytes} {found : Location}
    (hne : path ≠ []) (hne' : path' ≠ []) (hbelow : StaysBelow base path)
    (hbelow' : StaysBelow base path') (h : tree.locate (join base path) = .ok found)
    (h' : tree.locate (join base path') = .ok found) : inner path = inner path' := by
  have hnames (p : Bytes) : ∀ n ∈ (settle base).reverse ++ (inner p).reverse, IsName n := by
    intro n hn
    rcases List.mem_append.1 hn with hmem | hmem
    · exact isName_of_mem_settle hmem
    · exact (inner_settled p).isName n (List.mem_reverse.1 hmem)
  have hplain {p : Bytes} (hp : StaysBelow base p) :
      ∀ n ∈ (inner p).reverse, n ≠ here ∧ n ≠ above := fun n hn =>
    (inner_settled p).plain hp.inside n (List.mem_reverse.1 hn)
  rw [join_of_staysBelow hne hbelow] at h
  rw [join_of_staysBelow hne' hbelow'] at h'
  exact List.reverse_injective
    (names_eq_of_locate (hnames path) (hnames path') (hplain hbelow) (hplain hbelow') h h')

/-- From a rooted base, one place has one path. -/
theorem join_eq_of_locate_of_isRooted {tree : FileTree} {base path path' : Bytes}
    {found : Location} (hbase : isRooted base = true)
    (h : tree.locate (join base path) = .ok found)
    (h' : tree.locate (join base path') = .ok found) : join base path = join base path' := by
  have hnames {settled : List Bytes} (hs : Settled true settled) :
      ∀ n ∈ [] ++ settled.reverse, IsName n := fun n hn => hs.isName n (by simpa using hn)
  have hplain {settled : List Bytes} (hs : Settled true settled) :
      ∀ n ∈ settled.reverse, n ≠ here ∧ n ≠ above := fun n hn =>
    hs.plain hs.above_not_mem n (List.mem_reverse.1 hn)
  obtain ⟨settled, hsettled, hjoin⟩ := join_of_isRooted hbase path
  obtain ⟨settled', hsettled', hjoin'⟩ := join_of_isRooted hbase path'
  rw [hjoin] at h ⊢
  rw [hjoin'] at h' ⊢
  rw [names_eq_of_locate (hnames hsettled) (hnames hsettled') (hplain hsettled)
    (hplain hsettled') h h']

end FileTree

namespace Manifest

section

variable {m : Type → Type} [Monad m] [FileAccess m]

/-- An audit knows its base only through the paths that are joined to it. -/
theorem auditIcons_congr {base base' : Bytes} (h : ∀ path, join base path = join base' path)
    (seen : List Bytes) (listing : IconListing) :
    (auditIcons base seen listing : m (List AuditFault)) = auditIcons base' seen listing := by
  induction listing generalizing seen with
  | nil => rfl
  | cons e rest ih =>
    obtain ⟨target, icon⟩ := e
    have hicon : (auditIcon base seen icon : m (List IconFault)) = auditIcon base' seen icon := by
      rw [auditIcon, auditIcon, h]
    rw [auditIcons, auditIcons, hicon, ih]

theorem audit_congr {base base' : Bytes} (h : ∀ path, join base path = join base' path)
    (manifest : Manifest) :
    (manifest.audit base : m (List AuditFault)) = manifest.audit base' := by
  rw [audit, audit, auditListing, auditListing, auditIcons_congr h]

end

/-- Icons are looked for where they are written, for every root. Any path means
the same seen from the directory of the manifest that a run writes and seen
from the run's root, where the empty root stands for the directory itself. So
the place of each drawing is the place that an audit looks at, and an audit
beside the manifest is an audit below the root of the run. -/
theorem icon_places_agree (root : Bytes) :
    let base := directory (CommandLine.manifestPath root)
    (∀ path, join base path = join (if root = [] then here else root) path) ∧
    ∀ s : RunSettings, s.root = root →
      (∀ drawing : Drawing,
        join base drawing.record.path = drawing.location s.withDefaults.root) ∧
      ∀ manifest : Manifest, (manifest.audit base : FileTreeM (List AuditFault)) =
        manifest.audit s.withDefaults.root := by
  intro base
  have hjoin : ∀ path, join base path = join (if root = [] then here else root) path :=
    join_directory_join ⟨by decide, by decide⟩ (by decide) (by decide) root
  refine ⟨hjoin, ?_⟩
  intro s hroot
  have hdefault : s.withDefaults.root = if root = [] then here else root := by
    simp [RunSettings.withDefaults, hroot]
  rw [hdefault]
  exact ⟨fun drawing => hjoin drawing.record.path, audit_congr hjoin⟩

/-- A sound icon leads to a regular file with its length and checksum. -/
theorem IconSound.exists_place {tree : FileTree} {base : Bytes} {icon : IconRecord}
    (h : IconSound tree base icon) :
    ∃ location content, tree.locate (join base icon.path) = .ok location ∧
      tree.entry? location = some (.file content) ∧
      Int64.ofNat content.length = icon.bytes ∧ contentHash content = icon.hash := by
  obtain ⟨content, hfind, hrecord⟩ := h.file
  obtain ⟨location, hlocate, hentry⟩ := FileTree.find_eq_ok_iff.1 hfind
  exact ⟨location, content, hlocate, hentry, hrecord⟩

/-- Two icons of a manifest in which an audit finds no fault. Their paths differ,
each leads to a regular file, and local paths lead to different files. They lie
in one file exactly if they have one path, joined to the base and made absolute
from the working directory; if the base is rooted or neither path leads out of
it, exactly if they become one path when joined to the base. Icons in one file
have its length and checksum in common. -/
theorem files_apart_of_audit {m : Manifest} {base : Bytes} {tree : FileTree}
    (haudit : ((m.audit base : FileTreeM _).run tree).1 = []) {e e' : Bytes × IconRecord}
    (he : e ∈ m.listing) (he' : e' ∈ m.listing) (hne : e.1 ≠ e'.1) :
    let place := tree.locate (join base e.2.path)
    let place' := tree.locate (join base e'.2.path)
    e.2.path ≠ e'.2.path ∧
    (∃ location content, place = .ok location ∧
      tree.entry? location = some (.file content)) ∧
    (IsLocal e.2.path → IsLocal e'.2.path → place ≠ place') ∧
    (isRooted base = true ∨ StaysBelow base e.2.path ∧ StaysBelow base e'.2.path →
      (place = place' ↔ join base e.2.path = join base e'.2.path)) ∧
    (place = place' ↔ absolute tree.workingDirectory (join base e.2.path) =
      absolute tree.workingDirectory (join base e'.2.path)) ∧
    (place = place' → e.2.bytes = e'.2.bytes ∧ e.2.hash = e'.2.hash) := by
  intro place place'
  rw [audit_run] at haudit
  have hvalid := faults_eq_nil_iff.1 haudit
  have hsound := hvalid.icons_sound e he
  have hsound' := hvalid.icons_sound e' he'
  have hpaths := hvalid.paths_distinct e he e' he' hne
  obtain ⟨location, content, hplace, hentry, hbytes, hhash⟩ := hsound.exists_place
  obtain ⟨location', content', hplace', hentry', hbytes', hhash'⟩ := hsound'.exists_place
  refine ⟨hpaths, ⟨location, content, hplace, hentry⟩, ?_, ?_, ?_, ?_⟩
  · intro hlocal hlocal' hsame
    apply hpaths
    apply hlocal.eq_of_inner_eq hlocal'
    exact FileTree.inner_eq_of_locate hsound.path_ne hsound'.path_ne (hlocal.staysBelow base)
      (hlocal'.staysBelow base) hplace (hsame.symm.trans hplace)
  · intro hbase
    refine ⟨fun hsame => ?_, congrArg tree.locate⟩
    have hother := hsame.symm.trans hplace
    rcases hbase with hrooted | ⟨hbelow, hbelow'⟩
    · exact FileTree.join_eq_of_locate_of_isRooted hrooted hplace hother
    · have hinner := FileTree.inner_eq_of_locate hsound.path_ne hsound'.path_ne hbelow hbelow'
        hplace hother
      rw [join_of_staysBelow hsound.path_ne hbelow, join_of_staysBelow hsound'.path_ne hbelow',
        hinner]
  · change tree.locate _ = tree.locate _ ↔ _
    rw [hplace, hplace', Except.ok.injEq, ← FileTree.eq_absolute_of_locate hplace,
      ← FileTree.eq_absolute_of_locate hplace']
  · intro hsame
    obtain rfl : location = location' := Except.ok.inj (hplace.symm.trans (hsame.trans hplace'))
    obtain rfl : content = content' := by simpa using hentry.symm.trans hentry'
    exact ⟨hbytes.symm.trans hbytes', hhash.symm.trans hhash'⟩

/-- A file with a document, and one beside it with the same document. -/
def twins : FileTree :=
  ((FileTree.fresh [utf8 "w"]).put [utf8 "a.svg", utf8 "w"] (utf8 "<>")).put
    [utf8 "b.svg", utf8 "w"] (utf8 "<>")

/-- An icon of that document. -/
def twin (path : Bytes) : IconRecord :=
  ⟨path, 16, [], 2, contentHash (utf8 "<>"), true⟩

/-- Four icons, of which all but the third lie in one file. The path of the last
leaves the directory and comes back. -/
def spelledTwice : Manifest :=
  { version := supportedVersion
    generatedAt := []
    set := []
    root := []
    icons := some (Table.ofList
      [(utf8 "a.png", twin (utf8 "a.svg")), (utf8 "b.png", twin (utf8 "./a.svg")),
        (utf8 "c.png", twin (utf8 "b.svg")), (utf8 "d.png", twin (utf8 "../w/a.svg"))])
    totals := ⟨4, 8⟩ }

theorem iconSound_twin {path : Bytes} (hne : path ≠ [])
    (hfind : twins.find (join here path) = .ok (.file (utf8 "<>"))) :
    IconSound twins here (twin path) :=
  ⟨show (0 : Int64) < 16 by decide, show contentHash (utf8 "<>") ≠ [] by decide +kernel, hne,
    utf8 "<>", hfind, rfl, rfl⟩

theorem audit_spelledTwice : ((spelledTwice.audit here : FileTreeM _).run twins).1 = [] := by
  rw [audit_run, faults_eq_nil_iff]
  refine ⟨rfl, ?_, by decide +kernel, rfl, by decide +kernel⟩
  have hrecords : ∀ e ∈ spelledTwice.listing, e.2 = twin (utf8 "a.svg") ∨
      e.2 = twin (utf8 "./a.svg") ∨ e.2 = twin (utf8 "b.svg") ∨
      e.2 = twin (utf8 "../w/a.svg") := by decide +kernel
  intro e he
  rcases hrecords e he with hrecord | hrecord | hrecord | hrecord
  · exact hrecord ▸ iconSound_twin (by decide) rfl
  · exact hrecord ▸ iconSound_twin (by decide) rfl
  · exact hrecord ▸ iconSound_twin (by decide) rfl
  · exact hrecord ▸ iconSound_twin (by decide) rfl

theorem files_apart_of_audit_twins :
    ((spelledTwice.audit here : FileTreeM _).run twins).1 = [] ∧
    twins.locate (join here (utf8 "a.svg")) ≠ twins.locate (join here (utf8 "b.svg")) ∧
    (twins.locate (join here (utf8 "./a.svg")) = twins.locate (join here (utf8 "b.svg")) ↔
      join here (utf8 "./a.svg") = join here (utf8 "b.svg")) ∧
    join here (utf8 "a.svg") ≠ join here (utf8 "../w/a.svg") ∧
    twins.locate (join here (utf8 "a.svg")) = twins.locate (join here (utf8 "../w/a.svg")) := by
  have haudit := audit_spelledTwice
  have ha : (utf8 "a.png", twin (utf8 "a.svg")) ∈ spelledTwice.listing := by decide +kernel
  have hb : (utf8 "b.png", twin (utf8 "./a.svg")) ∈ spelledTwice.listing := by decide +kernel
  have hc : (utf8 "c.png", twin (utf8 "b.svg")) ∈ spelledTwice.listing := by decide +kernel
  have hd : (utf8 "d.png", twin (utf8 "../w/a.svg")) ∈ spelledTwice.listing := by decide +kernel
  have hlocal : IsLocal (utf8 "a.svg") := ⟨by decide, by decide, by decide⟩
  have hlocal' : IsLocal (utf8 "b.svg") := ⟨by decide, by decide, by decide⟩
  have hbelow : StaysBelow here (utf8 "./a.svg") := ⟨by decide, by decide⟩
  obtain ⟨-, -, hapart, -⟩ := files_apart_of_audit haudit ha hc (by decide)
  obtain ⟨-, -, -, hsame, -⟩ := files_apart_of_audit haudit hb hc (by decide)
  obtain ⟨-, -, -, -, habsolute, -⟩ := files_apart_of_audit haudit ha hd (by decide)
  refine ⟨haudit, hapart hlocal hlocal', hsame (.inr ⟨hbelow, hlocal'.staysBelow here⟩), ?_, ?_⟩
  · decide
  · exact habsolute.2 (by decide +kernel)

/-- Two spellings of one path pass an audit, so two icons can lie in one file. -/
theorem audit_of_shared_file :
    ∃ e ∈ spelledTwice.listing, ∃ e' ∈ spelledTwice.listing, e.1 ≠ e'.1 ∧
      ((spelledTwice.audit here : FileTreeM _).run twins).1 = [] ∧
      twins.locate (join here e.2.path) = twins.locate (join here e'.2.path) ∧
      twins.locate (join here e.2.path) = .ok [utf8 "a.svg", utf8 "w"] := by
  refine ⟨(utf8 "a.png", twin (utf8 "a.svg")), by decide +kernel,
    (utf8 "b.png", twin (utf8 "./a.svg")), by decide +kernel, by decide, audit_spelledTwice, ?_, ?_⟩
  · rfl
  · rfl

end Manifest

end PlaceholderIcons
