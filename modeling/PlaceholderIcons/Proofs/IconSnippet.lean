import Mathlib.Data.Set.List
import PlaceholderIcons.Manifest.Basic
import PlaceholderIcons.Proofs.IntegerText
import PlaceholderIcons.Proofs.JsonReading
import PlaceholderIcons.Proofs.TableView

/-!
The snippet for an extension's own manifest. Icons are named by the text of
their size there, and different sizes have different texts, so icons meet under
one name only if they are of one size. Where such icons have one document
nothing is lost: the snippet reads back as one member for each size, in the
byte order of the names.
-/

namespace PlaceholderIcons

namespace Json

theorem lt_of_isWordByte {b : UInt8} (h : isWordByte b = true) : b < 0x80 := by
  rw [UInt8.lt_iff_toNat_lt]
  change b.toNat < 0x80
  simp only [isWordByte, Decimal.isDigit, Bool.or_eq_true, Bool.and_eq_true, decide_eq_true_eq,
    UInt8.le_iff_toNat_le, beq_iff_eq] at h
  rcases h with ((((h | h) | h) | rfl) | rfl) | rfl
  · exact Nat.lt_of_le_of_lt h.2 (by decide)
  · exact Nat.lt_of_le_of_lt h.2 (by decide)
  · exact Nat.lt_of_le_of_lt h.2 (by decide)
  all_goals decide

/-- A number is written in ASCII, so nothing in it is replaced. -/
theorem clean_of_isNumber {s : Bytes} (h : isNumber s = true) : Utf8.clean s = s := by
  apply Utf8.clean_of_wellFormed
  apply Utf8.wellFormed_of_ascii
  intro b hb
  exact lt_of_isWordByte (List.all_eq_true.1 (all_isWordByte_of_isNumber h) b hb)

end Json

namespace IconListing

/-- Icons of one size have one document. -/
def OneDocumentPerSize (listing : IconListing) : Prop :=
  ∀ a ∈ listing, ∀ b ∈ listing, a.2.size = b.2.size → a.2.path = b.2.path

/-- The documents by the texts of their sizes; of several the last stays. -/
def documents (listing : IconListing) : Table Bytes Bytes :=
  Table.ofList (listing.map fun e => (Decimal.ofInt64 e.2.size, e.2.path))

theorem mem_documents_iff {listing : IconListing} (h : listing.OneDocumentPerSize)
    {x : Bytes × Bytes} :
    x ∈ listing.documents.entries ↔
      ∃ e ∈ listing, (Decimal.ofInt64 e.2.size, e.2.path) = x := by
  have hagree : ∀ a ∈ listing.map fun e => (Decimal.ofInt64 e.2.size, e.2.path),
      ∀ b ∈ listing.map fun e => (Decimal.ofInt64 e.2.size, e.2.path), a.1 = b.1 → a.2 = b.2 := by
    simp only [List.mem_map]
    rintro _ ⟨a, ha, rfl⟩ _ ⟨b, hb, rfl⟩ hname
    exact h a ha b hb (Decimal.ofInt64_injective hname)
  rw [documents, Table.mem_ofList_iff hagree, List.mem_map]

/-- The snippet as a value, before it is printed. -/
def snippetJson (listing : IconListing) : Json :=
  .object [(utf8 "icons",
    .object (listing.documents.entries.map fun (size, path) => (size, Json.string path)))]

theorem snippet_eq_render (listing : IconListing) : listing.snippet = listing.snippetJson.render :=
  rfl

theorem fits_snippetJson {depth : Nat} (listing : IconListing) :
    Json.Fits (depth + 2) listing.snippetJson := by
  apply Json.Fits.object
  simp only [List.mem_singleton, forall_eq]
  apply Json.Fits.object
  intro member hmember
  obtain ⟨e, -, rfl⟩ := List.mem_map.1 hmember
  exact .string e.2

/-- The snippet of any icons is JSON, and reads back with its paths cleaned. -/
theorem parse?_snippet (listing : IconListing) :
    Json.parse? listing.snippet =
      some (.object [(utf8 "icons", .object (listing.documents.entries.map
        fun (size, path) => (Utf8.clean size, Json.string (Utf8.clean path))))]) := by
  have hicons : Utf8.clean (utf8 "icons") = utf8 "icons" := Utf8.clean_encode _
  rw [snippet_eq_render, Json.parse?_render (fits_snippetJson listing), snippetJson]
  simp only [Json.cleaned, Json.cleanedMembers, Json.cleanedMembers_eq_map, hicons, List.map_map]
  rfl

end IconListing

namespace Manifest

open IconListing

/-- The snippet of a manifest whose icons of one size have one document. It reads
back as an object with the one member `icons`, and the members of that are the
sizes of the manifest: each size once, named by its text, with its document's
path cleaned of stray bytes. The names stand in increasing byte order. -/
theorem snippet_by_size (m : Manifest) (hsizes : m.listing.OneDocumentPerSize) :
    ∃ icons : List (Int64 × Bytes),
      (icons.map Prod.fst).Nodup ∧
      (∀ size path, (size, path) ∈ icons ↔
        ∃ e ∈ m.listing, e.2.size = size ∧ e.2.path = path) ∧
      Json.parse? m.listing.snippet =
        some (.object [(utf8 "icons", .object (icons.map
          fun (size, path) => (Decimal.ofInt64 size, Json.string (Utf8.clean path))))]) ∧
      (icons.map fun icon => Decimal.ofInt64 icon.1).Pairwise (· < ·) := by
  have hnamed : m.listing.documents.entries ∈
      Set.range (List.map (Prod.map Decimal.ofInt64 (id : Bytes → Bytes))) := by
    rw [Set.range_list_map]
    intro x hx
    obtain ⟨e, -, rfl⟩ := (mem_documents_iff hsizes).1 hx
    exact ⟨(e.2.size, e.2.path), rfl⟩
  obtain ⟨icons, hicons⟩ := hnamed
  have hnames : (icons.map fun icon => Decimal.ofInt64 icon.1).Pairwise (· < ·) := by
    have hkeys := m.listing.documents.keys_pairwise_lt
    rw [← hicons, List.map_map] at hkeys
    exact hkeys
  refine ⟨icons, ?_, ?_, ?_, hnames⟩
  · rw [List.Nodup, List.pairwise_map]
    refine (List.pairwise_map.1 hnames).imp ?_
    intro a b hlt heq
    rw [heq] at hlt
    exact List.lt_irrefl _ hlt
  · intro size path
    have hinjective := Decimal.ofInt64_injective.prodMap (Function.injective_id (α := Bytes))
    rw [← List.mem_map_of_injective hinjective, hicons, mem_documents_iff hsizes]
    simp only [Prod.map_apply, id_eq, Prod.mk.injEq, Decimal.ofInt64_injective.eq_iff]
  · rw [parse?_snippet, ← hicons, List.map_map]
    simp only [Function.comp_def, Prod.map, id_eq, Json.clean_of_isNumber (Json.isNumber_ofInt64 _)]

/-- Sizes whose texts sort otherwise than the sizes do, two icons of one size
with one document, and a path with a stray byte and a quotation mark. -/
def mixedSizes : Manifest :=
  { version := 1
    generatedAt := []
    set := []
    root := []
    icons := some (Table.ofList
      [(utf8 "a.png", ⟨utf8 "a\"\n.svg" ++ [0xFF], 16, utf8 "S", 3, [], true⟩),
        (utf8 "b.png", ⟨utf8 "b.svg", 128, utf8 "T", 4, [], true⟩),
        (utf8 "c.png", ⟨utf8 "a\"\n.svg" ++ [0xFF], 16, utf8 "U", 5, [], false⟩),
        (utf8 "d.png", ⟨[], -9223372036854775808, [], 0, [], false⟩)])
    totals := ⟨0, 0⟩ }

theorem snippet_by_size_mixedSizes :
    mixedSizes.listing.OneDocumentPerSize ∧
    ∃ icons : List (Int64 × Bytes),
      (icons.map Prod.fst).Nodup ∧
      (∀ size path, (size, path) ∈ icons ↔
        ∃ e ∈ mixedSizes.listing, e.2.size = size ∧ e.2.path = path) ∧
      Json.parse? mixedSizes.listing.snippet =
        some (.object [(utf8 "icons", .object (icons.map
          fun (size, path) => (Decimal.ofInt64 size, Json.string (Utf8.clean path))))]) := by
  have hsizes : mixedSizes.listing.OneDocumentPerSize := by
    unfold OneDocumentPerSize
    decide +kernel
  obtain ⟨icons, hnodup, hmem, hparse, -⟩ := snippet_by_size mixedSizes hsizes
  exact ⟨hsizes, icons, hnodup, hmem, hparse⟩

end Manifest

end PlaceholderIcons
