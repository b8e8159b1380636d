import PlaceholderIcons.Proofs.JsonTexts
import PlaceholderIcons.Proofs.ManifestRoundTrip

/-!
Manifest files that are read and written again. Every text that decoding puts
into a manifest is a text of the JSON value or empty, so an accepted manifest
has well-formed texts only, and writing such a manifest loses nothing. One
rewrite therefore brings any accepted file to a form that further rewrites keep.
-/

namespace PlaceholderIcons

namespace Json

theorem wellFormed_asText {old text : Bytes} {value : Json} (hold : Utf8.wellFormed old = true)
    (hvalue : value.WellFormed) (h : value.asText old = some text) :
    Utf8.wellFormed text = true := by
  cases hvalue with
  | null =>
    cases h
    exact hold
  | string hs =>
    cases h
    exact hs
  | bool b => cases h
  | number literal => cases h
  | array hitems => cases h
  | object hnames hvalues => cases h

section

variable {α : Type} {update : α → Bytes × Json → Option α} {P : α → Prop}

/-- What taking in one well-formed member keeps, taking in all of them keeps. -/
theorem MembersWellFormed.induction {members : List (Bytes × Json)}
    (hmembers : MembersWellFormed members)
    (hstep : ∀ {a name value b}, P a → Utf8.wellFormed name = true → value.WellFormed →
      update a (name, value) = some b → P b)
    {a b : α} (ha : P a) (h : members.foldlM update a = some b) : P b := by
  have hmember : ∀ member ∈ members,
      Utf8.wellFormed member.1 = true ∧ member.2.WellFormed := by
    intro member hmem
    exact ⟨hmembers.names member hmem, hmembers.values member hmem⟩
  exact foldlM_induction (fun ha hm hb => hstep ha hm.1 hm.2 hb) hmember ha h

theorem WellFormed.asObject_induction {value : Json} (hvalue : value.WellFormed)
    (hstep : ∀ {a name value b}, P a → Utf8.wellFormed name = true → value.WellFormed →
      update a (name, value) = some b → P b)
    {a b : α} (ha : P a) (h : value.asObject update a = some b) : P b := by
  cases hvalue with
  | null =>
    cases h
    exact ha
  | object hnames hvalues => exact MembersWellFormed.induction ⟨hnames, hvalues⟩ hstep ha h
  | bool b => cases h
  | number literal => cases h
  | string hs => cases h
  | array hitems => cases h

end

end Json

/-- All texts of the record are well-formed UTF-8. -/
structure IconRecord.WellFormed (icon : IconRecord) : Prop where
  path : Utf8.wellFormed icon.path = true
  label : Utf8.wellFormed icon.label = true
  hash : Utf8.wellFormed icon.hash = true

theorem IconRecord.wellFormed_update {icon next : IconRecord} {name : Bytes} {value : Json}
    (hicon : icon.WellFormed) (hvalue : value.WellFormed)
    (h : icon.update (name, value) = some next) : next.WellFormed := by
  simp only [IconRecord.update] at h
  split at h
  · obtain ⟨path, hpath, rfl⟩ := Option.map_eq_some_iff.1 h
    exact ⟨Json.wellFormed_asText hicon.path hvalue hpath, hicon.label, hicon.hash⟩
  split at h
  · obtain ⟨size, -, rfl⟩ := Option.map_eq_some_iff.1 h
    exact ⟨hicon.path, hicon.label, hicon.hash⟩
  split at h
  · obtain ⟨label, hlabel, rfl⟩ := Option.map_eq_some_iff.1 h
    exact ⟨hicon.path, Json.wellFormed_asText hicon.label hvalue hlabel, hicon.hash⟩
  split at h
  · obtain ⟨bytes, -, rfl⟩ := Option.map_eq_some_iff.1 h
    exact ⟨hicon.path, hicon.label, hicon.hash⟩
  split at h
  · obtain ⟨hash, hhash, rfl⟩ := Option.map_eq_some_iff.1 h
    exact ⟨hicon.path, hicon.label, Json.wellFormed_asText hicon.hash hvalue hhash⟩
  split at h
  · obtain ⟨fits, -, rfl⟩ := Option.map_eq_some_iff.1 h
    exact ⟨hicon.path, hicon.label, hicon.hash⟩
  · cases h
    exact hicon

namespace Manifest

theorem iconWellFormed_addIcon {table next : Table Bytes IconRecord} {target : Bytes}
    {value : Json} (htable : ∀ e ∈ table.entries, IconWellFormed e.1 e.2)
    (htarget : Utf8.wellFormed target = true) (hvalue : value.WellFormed)
    (h : addIcon table (target, value) = some next) :
    ∀ e ∈ next.entries, IconWellFormed e.1 e.2 := by
  obtain ⟨icon, hread, rfl⟩ := Option.map_eq_some_iff.1 h
  have hzero : IconRecord.zero.WellFormed := ⟨rfl, rfl, rfl⟩
  have hicon : icon.WellFormed :=
    hvalue.asObject_induction (fun hr _ hv hnext => IconRecord.wellFormed_update hr hv hnext)
      hzero hread
  intro e he
  rcases Table.mem_insert.1 he with rfl | ⟨he, -⟩
  · exact ⟨htarget, hicon.path, hicon.label, hicon.hash⟩
  · exact htable e he

theorem iconWellFormed_readIcons {m : Manifest} {value : Json}
    {icons : Option (Table Bytes IconRecord)} (hm : ∀ e ∈ m.listing, IconWellFormed e.1 e.2)
    (hvalue : value.WellFormed) (h : readIcons m.icons value = some icons) :
    ∀ e ∈ listing { m with icons := icons }, IconWellFormed e.1 e.2 := by
  cases hvalue with
  | null =>
    cases h
    exact fun e he => absurd he List.not_mem_nil
  | object hnames hvalues =>
    obtain ⟨table, htable, rfl⟩ := Option.map_eq_some_iff.1 h
    have hold : ∀ e ∈ (m.icons.getD Table.empty).entries, IconWellFormed e.1 e.2 := by
      unfold listing at hm
      cases hicons : m.icons with
      | none => exact fun e he => absurd he List.not_mem_nil
      | some old =>
        rw [hicons] at hm
        exact hm
    exact Json.MembersWellFormed.induction ⟨hnames, hvalues⟩ iconWellFormed_addIcon hold htable
  | bool b => cases h
  | number literal => cases h
  | string hs => cases h
  | array hitems => cases h

theorem wellFormed_update {m next : Manifest} {name : Bytes} {value : Json} (hm : m.WellFormed)
    (hvalue : value.WellFormed) (h : m.update (name, value) = some next) : next.WellFormed := by
  simp only [update] at h
  split at h
  · obtain ⟨version, -, rfl⟩ := Option.map_eq_some_iff.1 h
    exact ⟨hm.generatedAt, hm.set, hm.root, hm.icons⟩
  split at h
  · obtain ⟨time, htime, rfl⟩ := Option.map_eq_some_iff.1 h
    exact ⟨Json.wellFormed_asText hm.generatedAt hvalue htime, hm.set, hm.root, hm.icons⟩
  split at h
  · obtain ⟨set, hset, rfl⟩ := Option.map_eq_some_iff.1 h
    exact ⟨hm.generatedAt, Json.wellFormed_asText hm.set hvalue hset, hm.root, hm.icons⟩
  split at h
  · obtain ⟨root, hroot, rfl⟩ := Option.map_eq_some_iff.1 h
    exact ⟨hm.generatedAt, hm.set, Json.wellFormed_asText hm.root hvalue hroot, hm.icons⟩
  split at h
  · obtain ⟨icons, hicons, rfl⟩ := Option.map_eq_some_iff.1 h
    exact ⟨hm.generatedAt, hm.set, hm.root, iconWellFormed_readIcons hm.icons hvalue hicons⟩
  split at h
  · obtain ⟨totals, -, rfl⟩ := Option.map_eq_some_iff.1 h
    exact ⟨hm.generatedAt, hm.set, hm.root, hm.icons⟩
  · cases h
    exact hm

/-- Whatever text is accepted, its manifest has well-formed texts only. -/
theorem wellFormed_parse {content : Bytes} {m : Manifest} (h : parse content = .ok m) :
    m.WellFormed := by
  unfold parse at h
  split at h
  · cases h
  next value hvalue =>
    split at h
    · cases h
    next hm =>
      cases h
      have hzero : zero.WellFormed := ⟨rfl, rfl, rfl, fun e he => absurd he List.not_mem_nil⟩
      exact (Json.wellFormed_parse? hvalue).asObject_induction
        (fun hr _ hv hnext => wellFormed_update hr hv hnext) hzero hm

theorem parse_of_load {path : Bytes} {tree : FileTree} {m : Manifest}
    (h : ((load path : FileTreeM _).run tree).1 = .ok m) :
    ∃ content, tree.read path = .ok content ∧ parse content = .ok m := by
  rw [load, FileTreeM.run_bind, FileTreeM.run_read] at h
  cases hread : tree.read path with
  | error fault =>
    rw [hread] at h
    cases h
  | ok content =>
    simp only [hread] at h
    refine ⟨content, rfl, ?_⟩
    cases hparse : parse content with
    | error defect =>
      rw [hparse] at h
      cases h
    | ok m' =>
      rw [hparse] at h
      cases h
      rfl

/-- Any accepted file has well-formed texts only, and one rewrite of it, to any
path, reaches a fixed point: the manifest is loaded again with nothing changed
but its totals, which are the number of its icons and the sum of their lengths
modulo 2^64; saving what was loaded leaves the tree as it is, and saving it
anywhere else writes the same bytes. -/
theorem save_fixed_of_load {source : Bytes} {origin : FileTree} {m : Manifest}
    (hload : ((load source : FileTreeM _).run origin).1 = .ok m) :
    m.WellFormed ∧
    ∀ (path : Bytes) (tree next : FileTree),
      (m.save path : FileTreeM _).run tree = (.ok (), next) →
      ∃ loaded : Manifest, (load path : FileTreeM _).run next = (.ok loaded, next) ∧
        loaded = { m with totals := loaded.totals } ∧
        loaded.totals.icons = Int64.ofNat m.listing.length ∧
        loaded.totals.bytes.toInt =
          Int.bmod (m.listing.map fun e => e.2.bytes.toInt).sum (2 ^ 64) ∧
        (loaded.save path : FileTreeM _).run next = (.ok (), next) ∧
        ∃ text, next.read path = .ok text ∧
          ∀ (path' : Bytes) (tree' next' : FileTree),
            (loaded.save path' : FileTreeM _).run tree' = (.ok (), next') →
            next'.read path' = .ok text := by
  obtain ⟨content, -, hparse⟩ := parse_of_load hload
  have hm : m.WellFormed := wellFormed_parse hparse
  refine ⟨hm, ?_⟩
  intro path tree next hsave
  have hread {p : Bytes} {t : FileTree} (hfind : t.find p = .ok (.file m.refresh.text)) :
      t.read p = .ok m.refresh.text := by
    rw [FileTree.read, hfind]
  have hloaded : (load path : FileTreeM _).run next = (.ok m.refresh, next) := by
    rw [load_run_of_save hsave, cleaned_of_wellFormed hm.refresh]
  refine ⟨m.refresh, hloaded, rfl, rfl, toInt_totals_bytes m.listing,
    FileTree.write_of_write_ok hsave, m.refresh.text, ?_, ?_⟩
  · exact hread (FileTree.find_of_write_ok hsave)
  · -- Refreshing twice is refreshing once, so the second save writes the same text.
    intro path' tree' next' hsave'
    exact hread (FileTree.find_of_write_ok hsave')

/-- A manifest in a form that is never written: members re-cased, repeated and
unknown, a surrogate without its partner, stray bytes and an icon that is null. -/
def irregular : Bytes :=
  utf8 " \x7b\"VERSION\":7,\"other\":[1,\x7b\x7d],\"set\":\"a\",\"ſet\":\"\\ud800\\u003c" ++ [0xFF] ++
    utf8 "\",\"Icons\":\x7b\"old\":null\x7d,\"icons\":\x7b\"k" ++ [0xC3] ++
    utf8 "\":\x7b\"Label\":\"S\",\"bytes\":5,\"hash\":null\x7d\x7d," ++
    utf8 "\"stats\":\x7b\"total_icons\":99\x7d\x7d"

def irregularTree : FileTree :=
  ((FileTree.fresh [utf8 "w"]).write (utf8 "in") irregular).2

/-- The manifest of the irregular file: stray bytes and the lone surrogate have
become replacement characters, and both tables of icons have been read. -/
def irregularManifest : Manifest :=
  { version := 7
    generatedAt := []
    set := utf8 "�<�"
    root := []
    icons := some (Table.ofList
      [(utf8 "old", IconRecord.zero),
        (utf8 "k�", { IconRecord.zero with label := utf8 "S", bytes := 5 })])
    totals := ⟨99, 0⟩ }

theorem save_fixed_of_load_irregular :
    let counted := { irregularManifest with totals := ⟨2, 5⟩ }
    ((load (utf8 "in") : FileTreeM _).run irregularTree).1 = .ok irregularManifest ∧
    ∃ next, (irregularManifest.save (utf8 "out") : FileTreeM _).run irregularTree = (.ok (), next) ∧
      (load (utf8 "out") : FileTreeM _).run next = (.ok counted, next) ∧
      (counted.save (utf8 "out") : FileTreeM _).run next = (.ok (), next) := by
  have hload : ((load (utf8 "in") : FileTreeM _).run irregularTree).1 = .ok irregularManifest := by
    decide +kernel
  have hsave : (irregularManifest.save (utf8 "out") : FileTreeM _).run irregularTree =
      (.ok (), ((irregularManifest.save (utf8 "out") : FileTreeM _).run irregularTree).2) := rfl
  obtain ⟨loaded, hagain, hloaded, hicons, hbytes, hfixed, -⟩ :=
    (save_fixed_of_load hload).2 _ _ _ hsave
  have htotals : loaded.totals = ⟨2, 5⟩ :=
    Totals.eq_of_toInt (hicons.trans (by decide +kernel)) (hbytes.trans (by decide +kernel))
  rw [htotals] at hloaded
  subst hloaded
  exact ⟨hload, _, hsave, hagain, hfixed⟩

end Manifest

end PlaceholderIcons
