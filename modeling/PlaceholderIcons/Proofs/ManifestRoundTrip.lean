import Mathlib.Data.List.Nodup
import PlaceholderIcons.FileTree.Layout
import PlaceholderIcons.Manifest.Storage
import PlaceholderIcons.Proofs.AuditFaults
import PlaceholderIcons.Proofs.FileWrites
import PlaceholderIcons.Proofs.IntegerText
import PlaceholderIcons.Proofs.JsonReading

/-!
A manifest saved and loaded again. Field by field the JSON form is read back,
so the manifest that comes back differs from the saved one only in what saving
is meant to change: totals are fresh and texts are clean.
-/

namespace PlaceholderIcons

namespace Utf8

@[simp] theorem clean_utf8 (s : String) : clean (utf8 s) = utf8 s :=
  clean_encode s.toList

end Utf8

/-- The record with every stray byte in its texts replaced. -/
def IconRecord.cleaned (icon : IconRecord) : IconRecord :=
  { icon with
    path := Utf8.clean icon.path
    label := Utf8.clean icon.label
    hash := Utf8.clean icon.hash }

/-- The icons with clean texts; of targets that become equal the last stays. -/
def IconListing.cleaned (listing : IconListing) : IconListing :=
  listing.map fun (target, icon) => (Utf8.clean target, icon.cleaned)

/-- The manifest with every stray byte in its texts replaced. -/
def Manifest.cleaned (m : Manifest) : Manifest :=
  { m with
    generatedAt := Utf8.clean m.generatedAt
    set := Utf8.clean m.set
    root := Utf8.clean m.root
    icons := m.icons.map fun table => Table.ofList (IconListing.cleaned table.entries) }

namespace Json

theorem fits_ofInt64 {depth : Nat} (n : Int64) : Fits depth (.ofInt64 n) :=
  .number (isNumber_ofInt64 n)

@[simp] theorem cleaned_ofInt64 (n : Int64) : (Json.ofInt64 n).cleaned = .ofInt64 n := rfl

@[simp] theorem asInt64_ofInt64 (old n : Int64) : asInt64 old (.ofInt64 n) = some n :=
  Decimal.toInt64?_ofInt64 n

end Json

theorem IconRecord.fits_toJson {depth : Nat} (icon : IconRecord) :
    Json.Fits (depth + 1) icon.toJson := by
  apply Json.Fits.object
  simp only [List.mem_cons, List.not_mem_nil, or_false, forall_eq_or_imp, forall_eq]
  exact ⟨.string _, Json.fits_ofInt64 _, .string _, Json.fits_ofInt64 _, .string _, .bool _⟩

theorem Totals.fits_toJson {depth : Nat} (totals : Totals) :
    Json.Fits (depth + 1) totals.toJson := by
  apply Json.Fits.object
  simp only [List.mem_cons, List.not_mem_nil, or_false, forall_eq_or_imp, forall_eq]
  exact ⟨Json.fits_ofInt64 _, Json.fits_ofInt64 _⟩

open Json in
theorem IconRecord.read_toJson (icon : IconRecord) :
    icon.toJson.cleaned.asObject IconRecord.update IconRecord.zero = some icon.cleaned := by
  have hsize (r : IconRecord) : r.update (utf8 "size", .ofInt64 icon.size) =
      some { r with size := icon.size } := congrArg (Option.map _) (asInt64_ofInt64 r.size icon.size)
  have hbytes (r : IconRecord) : r.update (utf8 "bytes", .ofInt64 icon.bytes) =
      some { r with bytes := icon.bytes } :=
    congrArg (Option.map _) (asInt64_ofInt64 r.bytes icon.bytes)
  simp only [IconRecord.toJson, Json.cleaned, Json.cleanedMembers, Json.asObject, Utf8.clean_utf8,
    cleaned_ofInt64]
  rw [foldlM_cons_some rfl, foldlM_cons_some (hsize _), foldlM_cons_some rfl,
    foldlM_cons_some (hbytes _), foldlM_cons_some rfl, foldlM_cons_some rfl]
  rfl

open Json in
theorem Totals.read_toJson (totals old : Totals) :
    totals.toJson.cleaned.asObject Totals.update old = some totals := by
  have hicons (r : Totals) : r.update (utf8 "total_icons", .ofInt64 totals.icons) =
      some { r with icons := totals.icons } :=
    congrArg (Option.map _) (asInt64_ofInt64 r.icons totals.icons)
  have hbytes (r : Totals) : r.update (utf8 "total_bytes", .ofInt64 totals.bytes) =
      some { r with bytes := totals.bytes } :=
    congrArg (Option.map _) (asInt64_ofInt64 r.bytes totals.bytes)
  simp only [Totals.toJson, Json.cleaned, Json.cleanedMembers, Json.asObject, Utf8.clean_utf8,
    cleaned_ofInt64]
  rw [foldlM_cons_some (hicons _), foldlM_cons_some (hbytes _)]
  rfl

namespace Manifest

open Json

theorem foldlM_addIcon (entries : IconListing) (table : Table Bytes IconRecord) :
    (Json.cleanedMembers (entries.map fun (target, icon) => (target, icon.toJson))).foldlM
        addIcon table =
      some ((IconListing.cleaned entries).foldl (fun t e => t.insert e.1 e.2) table) := by
  induction entries generalizing table with
  | nil => rfl
  | cons e entries ih =>
    obtain ⟨target, icon⟩ := e
    have hicon : addIcon table (Utf8.clean target, icon.toJson.cleaned) =
        some (table.insert (Utf8.clean target) icon.cleaned) :=
      congrArg (Option.map _) icon.read_toJson
    rw [List.map_cons, Json.cleanedMembers, Json.foldlM_cons_some hicon, ih]
    rfl

theorem readIcons_iconsToJson (icons : Option (Table Bytes IconRecord)) :
    readIcons none (iconsToJson icons).cleaned =
      some (icons.map fun table => Table.ofList (IconListing.cleaned table.entries)) := by
  cases icons with
  | none => rfl
  | some table => exact congrArg (Option.map some) (foldlM_addIcon table.entries Table.empty)

theorem ofJson?_toJson (m : Manifest) : ofJson? m.toJson.cleaned = some m.cleaned := by
  have hversion (r : Manifest) : r.update (utf8 "version", .ofInt64 m.version) =
      some { r with version := m.version } :=
    congrArg (Option.map _) (asInt64_ofInt64 r.version m.version)
  have hicons (r : Manifest) (hr : r.icons = none) :
      r.update (utf8 "icons", (iconsToJson m.icons).cleaned) =
        some { r with icons := m.cleaned.icons } := by
    have hread := readIcons_iconsToJson m.icons
    rw [← hr] at hread
    exact congrArg (Option.map _) hread
  have hstats (r : Manifest) : r.update (utf8 "stats", m.totals.toJson.cleaned) =
      some { r with totals := m.totals } :=
    congrArg (Option.map _) (m.totals.read_toJson r.totals)
  simp only [ofJson?, toJson, Json.cleaned, Json.cleanedMembers, Json.asObject, Utf8.clean_utf8,
    cleaned_ofInt64]
  rw [foldlM_cons_some (hversion _), foldlM_cons_some rfl, foldlM_cons_some rfl,
    foldlM_cons_some rfl, foldlM_cons_some (hicons _ rfl), foldlM_cons_some (hstats _)]
  rfl

theorem fits_toJson {depth : Nat} (m : Manifest) : Fits (depth + 3) m.toJson := by
  have hicons : Fits (depth + 2) (iconsToJson m.icons) := by
    cases m.icons with
    | none => exact .null
    | some table =>
      apply Fits.object
      intro member hmember
      obtain ⟨e, -, rfl⟩ := List.mem_map.1 hmember
      exact e.2.fits_toJson
  apply Fits.object
  simp only [List.mem_cons, List.not_mem_nil, or_false, forall_eq_or_imp, forall_eq]
  exact ⟨fits_ofInt64 _, .string _, .string _, .string _, hicons, m.totals.fits_toJson⟩

/-- The text of a manifest holds the manifest, with its texts cleaned. -/
theorem parse_text (m : Manifest) : parse m.text = .ok m.cleaned := by
  have hjson : Json.parse? m.text = some m.toJson.cleaned := parse?_render_line m.fits_toJson
  rw [parse, hjson]
  simp only [ofJson?_toJson]

theorem load_of_find {tree : FileTree} {path content : Bytes}
    (h : tree.find path = .ok (.file content)) :
    (load path : FileTreeM _).run tree = ((parse content).mapError .defective, tree) := by
  have hread : tree.read path = .ok content := by rw [FileTree.read, h]
  rw [load, FileTreeM.run_bind, FileTreeM.run_read, hread]
  rfl

/-- All texts of an icon are well-formed UTF-8. -/
structure IconWellFormed (target : Bytes) (icon : IconRecord) : Prop where
  target : Utf8.wellFormed target = true
  path : Utf8.wellFormed icon.path = true
  label : Utf8.wellFormed icon.label = true
  hash : Utf8.wellFormed icon.hash = true

/-- All texts of a manifest are well-formed UTF-8. -/
structure WellFormed (m : Manifest) : Prop where
  generatedAt : Utf8.wellFormed m.generatedAt = true
  set : Utf8.wellFormed m.set = true
  root : Utf8.wellFormed m.root = true
  icons : ∀ e ∈ m.listing, IconWellFormed e.1 e.2

theorem cleaned_icons {m : Manifest} (h : ∀ e ∈ m.listing, IconWellFormed e.1 e.2) :
    m.cleaned.icons = m.icons := by
  have hentry : ∀ e ∈ m.listing, (Utf8.clean e.1, e.2.cleaned) = e := by
    intro e he
    obtain ⟨htarget, hpath, hlabel, hhash⟩ := h e he
    rw [IconRecord.cleaned, Utf8.clean_of_wellFormed htarget, Utf8.clean_of_wellFormed hpath,
      Utf8.clean_of_wellFormed hlabel, Utf8.clean_of_wellFormed hhash]
  have hlisting : IconListing.cleaned m.listing = m.listing :=
    (List.map_congr_left hentry).trans (List.map_id _)
  obtain ⟨version, generatedAt, set, root, icons, totals⟩ := m
  cases icons with
  | none => rfl
  | some table =>
    change IconListing.cleaned table.entries = table.entries at hlisting
    change some (Table.ofList (IconListing.cleaned table.entries)) = some table
    rw [hlisting, Table.ofList_entries]

theorem cleaned_of_wellFormed {m : Manifest} (h : m.WellFormed) : m.cleaned = m := by
  have hicons : (m.icons.map fun table => Table.ofList (IconListing.cleaned table.entries)) =
      m.icons := cleaned_icons h.icons
  rw [cleaned, hicons, Utf8.clean_of_wellFormed h.generatedAt, Utf8.clean_of_wellFormed h.set,
    Utf8.clean_of_wellFormed h.root]

/-- While cleaning keeps the targets apart, every icon keeps its place in the
listing. -/
theorem listing_cleaned_perm {m : Manifest}
    (hkeys : ∀ a ∈ m.listing, ∀ b ∈ m.listing, Utf8.clean a.1 = Utf8.clean b.1 → a.1 = b.1) :
    m.cleaned.listing.Perm (IconListing.cleaned m.listing) := by
  obtain ⟨version, generatedAt, set, root, icons, totals⟩ := m
  cases icons with
  | none => exact List.Perm.refl []
  | some table =>
    apply Table.ofList_perm
    rw [IconListing.cleaned, List.map_map]
    apply List.Nodup.map_on _ table.nodup_entries
    intro a ha b hb hclean
    exact Table.eq_of_mem_of_key_eq ha hb (hkeys a ha b hb hclean)

/-- What a manifest that could be saved is loaded as. -/
theorem load_run_of_save {m : Manifest} {path : Bytes} {tree next : FileTree}
    (hsave : (m.save path : FileTreeM _).run tree = (.ok (), next)) :
    (load path : FileTreeM _).run next = (.ok m.refresh.cleaned, next) := by
  have hfind : next.find path = .ok (.file m.refresh.text) := FileTree.find_of_write_ok hsave
  rw [load_of_find hfind, parse_text]
  rfl

theorem WellFormed.refresh {m : Manifest} (h : m.WellFormed) : m.refresh.WellFormed :=
  ⟨h.generatedAt, h.set, h.root, h.icons⟩

/-- A manifest that could be saved is loaded with clean texts and fresh totals,
the number of its icons and the sum of their lengths modulo 2^64, provided
cleaning keeps its targets apart: each icon comes back under its own target and
nothing else does, an absent table stays absent, and well-formed texts come
back as they were. -/
theorem load_of_save {m : Manifest} {path : Bytes} {tree next : FileTree}
    (hkeys : ∀ a ∈ m.listing, ∀ b ∈ m.listing, Utf8.clean a.1 = Utf8.clean b.1 → a.1 = b.1)
    (hsave : (m.save path : FileTreeM _).run tree = (.ok (), next)) :
    ∃ loaded : Manifest, (load path : FileTreeM _).run next = (.ok loaded, next) ∧
      loaded = { m.cleaned with totals := loaded.totals } ∧
      loaded.totals.icons = Int64.ofNat m.listing.length ∧
      loaded.totals.bytes.toInt =
        Int.bmod (m.listing.map fun e => e.2.bytes.toInt).sum (2 ^ 64) ∧
      loaded.listing.Perm (IconListing.cleaned m.listing) ∧
      (loaded.icons = none ↔ m.icons = none) ∧
      (m.WellFormed → loaded = { m with totals := loaded.totals }) := by
  refine ⟨m.refresh.cleaned, load_run_of_save hsave, rfl, rfl, toInt_totals_bytes m.listing,
    ?_, ?_, ?_⟩
  · exact listing_cleaned_perm hkeys
  · exact Option.map_eq_none_iff
  · intro hm
    rw [cleaned_of_wellFormed hm.refresh]
    rfl

/-- A manifest with stray bytes in a target, a path and its own texts, and with
a target that is the name of a field. -/
def strayBytes : Manifest :=
  { version := -1
    generatedAt := [0x22, 0xFF]
    set := utf8 "<\\>"
    root := []
    icons := some (Table.ofList
      [(utf8 "size", ⟨utf8 "\n", 16, utf8 "S", 3, utf8 "é", true⟩),
        ([0xC3], ⟨[0x80, 0x80], 0, [], -4, [], false⟩)])
    totals := ⟨9, 9⟩ }

/-- The same manifest with replacement characters and with totals that add up. -/
def strayBytesLoaded : Manifest :=
  { version := -1
    generatedAt := utf8 "\"�"
    set := utf8 "<\\>"
    root := []
    icons := some (Table.ofList
      [(utf8 "size", ⟨utf8 "\n", 16, utf8 "S", 3, utf8 "é", true⟩),
        (utf8 "�", ⟨utf8 "��", 0, [], -4, [], false⟩)])
    totals := ⟨2, -1⟩ }

theorem load_of_save_strayBytes :
    (∀ a ∈ strayBytes.listing, ∀ b ∈ strayBytes.listing,
      Utf8.clean a.1 = Utf8.clean b.1 → a.1 = b.1) ∧
    ∃ next, (strayBytes.save (utf8 "m") : FileTreeM _).run (FileTree.fresh [utf8 "w"]) =
        (.ok (), next) ∧
      (load (utf8 "m") : FileTreeM _).run next = (.ok strayBytesLoaded, next) := by
  have hkeys : ∀ a ∈ strayBytes.listing, ∀ b ∈ strayBytes.listing,
      Utf8.clean a.1 = Utf8.clean b.1 → a.1 = b.1 := by decide +kernel
  have hsave : (strayBytes.save (utf8 "m") : FileTreeM _).run (FileTree.fresh [utf8 "w"]) =
      (.ok (), ((strayBytes.save (utf8 "m") : FileTreeM _).run (FileTree.fresh [utf8 "w"])).2) := rfl
  obtain ⟨loaded, hload, hloaded, hicons, hbytes, -⟩ := load_of_save hkeys hsave
  have htotals : loaded.totals = ⟨2, -1⟩ :=
    Totals.eq_of_toInt (hicons.trans (by decide +kernel)) (hbytes.trans (by decide +kernel))
  have hresult : loaded = strayBytesLoaded := by
    rw [hloaded, htotals]
    decide +kernel
  exact ⟨hkeys, _, hsave, hresult ▸ hload⟩

end Manifest

end PlaceholderIcons
