import Mathlib.Algebra.BigOperators.Group.List.Basic
import PlaceholderIcons.Proofs.AuditFaults
import PlaceholderIcons.Proofs.IconSnippet

/-!
In which order the icons of a manifest are enumerated shows nowhere. Targets
are distinct, so larger icons first and then by target is a strict order, and
it can be followed in one way only. Addition in 64 bits forgets its order, and
so does a table that is filled with entries that agree.
-/

namespace PlaceholderIcons

namespace IconListing

theorem ranksBefore_iff {a b : Bytes × IconRecord} :
    ranksBefore a b = true ↔ b.2.size < a.2.size ∨ a.2.size = b.2.size ∧ a.1 ≤ b.1 := by
  unfold ranksBefore
  by_cases h : a.2.size = b.2.size
  · simp [h, Int64.lt_irrefl]
  · simp [h]

theorem ranksBefore_trans (a b c : Bytes × IconRecord) (hab : ranksBefore a b = true)
    (hbc : ranksBefore b c = true) : ranksBefore a c = true := by
  rw [ranksBefore_iff] at hab hbc ⊢
  rcases hab with hab | ⟨hab, hkey⟩ <;> rcases hbc with hbc | ⟨hbc, hkey'⟩
  · exact .inl (Int64.lt_trans hbc hab)
  · exact .inl (hbc ▸ hab)
  · exact .inl (hab ▸ hbc)
  · exact .inr ⟨hab.trans hbc, List.le_trans hkey hkey'⟩

theorem ranksBefore_total (a b : Bytes × IconRecord) :
    (ranksBefore a b || ranksBefore b a) = true := by
  rw [Bool.or_eq_true, ranksBefore_iff, ranksBefore_iff]
  by_cases hsize : a.2.size = b.2.size
  · exact (List.le_total a.1 b.1).imp (fun hkey => .inr ⟨hsize, hkey⟩)
      fun hkey => .inr ⟨hsize.symm, hkey⟩
  · rcases Int64.le_total a.2.size b.2.size with hle | hle
    · exact .inr (.inl (Int64.lt_of_le_of_ne hle hsize))
    · exact .inl (.inl (Int64.lt_of_le_of_ne hle (Ne.symm hsize)))

/-- Only icons of one target rank before each other. -/
theorem target_eq_of_ranksBefore {a b : Bytes × IconRecord} (hab : ranksBefore a b = true)
    (hba : ranksBefore b a = true) : a.1 = b.1 := by
  rw [ranksBefore_iff] at hab hba
  rcases hab with hab | ⟨hab, hkey⟩ <;> rcases hba with hba | ⟨hba, hkey'⟩
  · exact absurd hba (Int64.lt_asymm hab)
  · exact absurd (hba ▸ hab) Int64.lt_irrefl
  · exact absurd (hab ▸ hba) Int64.lt_irrefl
  · exact List.le_antisymm hkey hkey'

theorem pairwise_ranked (listing : IconListing) :
    listing.ranked.Pairwise fun a b => ranksBefore a b = true :=
  List.pairwise_mergeSort ranksBefore_trans ranksBefore_total listing

/-- Icons of different targets are ranked alike however they are listed. -/
theorem ranked_eq_of_perm {first second : IconListing} (hperm : first.Perm second)
    (htargets : (second.map Prod.fst).Nodup) : first.ranked = second.ranked := by
  have hfirst := Manifest.ranked_perm first
  have hsecond := Manifest.ranked_perm second
  refine (hfirst.trans (hperm.trans hsecond.symm)).eq_of_pairwise ?_
    (pairwise_ranked first) (pairwise_ranked second)
  intro a b ha hb hab hba
  have ha' : a ∈ second := hperm.mem_iff.1 (hfirst.mem_iff.1 ha)
  have hb' : b ∈ second := hsecond.mem_iff.1 hb
  exact List.inj_on_of_nodup_map htargets ha' hb' (target_eq_of_ranksBefore hab hba)

theorem totals_eq_of_perm {first second : IconListing} (hperm : first.Perm second) :
    first.totals = second.totals := by
  have hicons : first.totals.icons = second.totals.icons :=
    congrArg Int64.ofNat hperm.length_eq
  have hbytes : first.totals.bytes.toInt = second.totals.bytes.toInt := by
    rw [Manifest.toInt_totals_bytes, Manifest.toInt_totals_bytes, (hperm.map _).sum_eq]
  exact Totals.eq_of_toInt hicons hbytes

theorem OneDocumentPerSize.of_perm {first second : IconListing}
    (h : second.OneDocumentPerSize) (hperm : first.Perm second) : first.OneDocumentPerSize :=
  fun a ha b hb => h a (hperm.mem_iff.1 ha) b (hperm.mem_iff.1 hb)

theorem snippet_eq_of_perm {first second : IconListing} (hperm : first.Perm second)
    (h : second.OneDocumentPerSize) : first.snippet = second.snippet := by
  have hdocuments : first.documents = second.documents := by
    apply Table.ext_mem
    intro x
    simp only [mem_documents_iff h, mem_documents_iff (h.of_perm hperm), hperm.mem_iff]
  rw [snippet_eq_render, snippet_eq_render, snippetJson, snippetJson, hdocuments]

end IconListing

namespace Manifest

open IconListing

/-- A target comes before another if its icon is larger, or of the same size
while the target is smaller. -/
def Precedes (m : Manifest) (target other : Bytes) : Prop :=
  ∃ a b, (target, a) ∈ m.listing ∧ (other, b) ∈ m.listing ∧
    (b.size < a.size ∨ a.size = b.size ∧ target < other)

/-- All targets of a manifest, each once and each before those it precedes. -/
structure IsRanking (m : Manifest) (targets : List Bytes) : Prop where
  nodup : targets.Nodup
  mem_iff : ∀ target, target ∈ targets ↔ ∃ icon, (target, icon) ∈ m.listing
  ordered : targets.Pairwise m.Precedes

theorem eq_of_mem_listing {m : Manifest} {target : Bytes} {a b : IconRecord}
    (ha : (target, a) ∈ m.listing) (hb : (target, b) ∈ m.listing) : a = b :=
  congrArg Prod.snd (List.inj_on_of_nodup_map m.targets_nodup ha hb rfl)

theorem Precedes.asymm {m : Manifest} {target other : Bytes} (h : m.Precedes target other) :
    ¬ m.Precedes other target := by
  rintro ⟨b', a', hb', ha', hrank'⟩
  obtain ⟨a, b, ha, hb, hrank⟩ := h
  obtain rfl := eq_of_mem_listing ha ha'
  obtain rfl := eq_of_mem_listing hb hb'
  rcases hrank with hlt | ⟨heq, hlt⟩ <;> rcases hrank' with hlt' | ⟨heq', hlt'⟩
  · exact Int64.lt_asymm hlt hlt'
  · exact Int64.lt_irrefl (heq' ▸ hlt)
  · exact Int64.lt_irrefl (heq ▸ hlt')
  · exact List.lt_asymm hlt hlt'

/-- There is one way to rank the targets. -/
theorem IsRanking.eq {m : Manifest} {targets others : List Bytes} (h : m.IsRanking targets)
    (h' : m.IsRanking others) : targets = others := by
  have hperm : targets.Perm others := (List.perm_ext_iff_of_nodup h.nodup h'.nodup).2
    fun target => (h.mem_iff target).trans (h'.mem_iff target).symm
  refine hperm.eq_of_pairwise ?_ h.ordered h'.ordered
  intro a b _ _ hab hba
  exact absurd hba hab.asymm

theorem isRanking_targets (m : Manifest) : m.IsRanking m.listing.targets := by
  have hperm := ranked_perm m.listing
  have hnodup : (m.listing.ranked.map Prod.fst).Nodup :=
    (hperm.map Prod.fst).nodup_iff.2 m.targets_nodup
  refine ⟨hnodup, ?_, ?_⟩
  · intro target
    rw [IconListing.targets, (hperm.map _).mem_iff, List.mem_map]
    constructor
    · rintro ⟨e, he, rfl⟩
      exact ⟨e.2, he⟩
    · rintro ⟨icon, hicon⟩
      exact ⟨(target, icon), hicon, rfl⟩
  · -- Ranking before is not yet strict; that the targets differ makes it so.
    have hstrict := (pairwise_ranked m.listing).and (List.pairwise_map.1 hnodup)
    refine List.pairwise_map.2 (hstrict.imp_of_mem ?_)
    rintro a b ha hb ⟨hrank, hne⟩
    refine ⟨a.2, b.2, hperm.mem_iff.1 ha, hperm.mem_iff.1 hb, ?_⟩
    exact (ranksBefore_iff.1 hrank).imp id fun h => ⟨h.1, Std.lt_of_le_of_ne h.2 hne⟩

/-- Only icons have faults of their own. -/
theorem eq_icon_of_mem_listingFaults {tree : FileTree} {base : Bytes} {seen : List Bytes}
    {listing : IconListing} {fault : AuditFault}
    (h : fault ∈ listingFaults tree base seen listing) :
    ∃ target iconFault, fault = .icon target iconFault := by
  induction listing generalizing seen with
  | nil => cases h
  | cons e rest ih =>
      obtain ⟨target, icon⟩ := e
      rcases List.mem_append.1 h with hfirst | hrest
      · obtain ⟨iconFault, -, rfl⟩ := List.mem_map.1 hfirst
        exact ⟨target, iconFault, rfl⟩
      · exact ih hrest

/-- Totals that have just been computed are never at fault. -/
theorem faults_refresh (m : Manifest) (tree : FileTree) (base : Bytes) :
    m.refresh.faults tree base =
      faultIf (m.version != supportedVersion) (.unsupportedVersion m.version) ++
        listingFaults tree base [] m.listing.ranked := by
  have htotals : m.refresh.totals = m.refresh.listing.totals := rfl
  rw [faults, htotals, bne_self_eq_false, bne_self_eq_false]
  simp only [faultIf, Bool.false_eq_true, if_false, List.append_nil]
  rfl

theorem eq_of_mem_faults_refresh {m : Manifest} {tree : FileTree} {base : Bytes}
    {fault : AuditFault} (h : fault ∈ m.refresh.faults tree base) :
    fault = .unsupportedVersion m.version ∨ ∃ target iconFault, fault = .icon target iconFault := by
  rw [faults_refresh, List.mem_append] at h
  exact h.imp (fun hversion => (mem_faultIf_iff.1 hversion).2) eq_icon_of_mem_listingFaults

theorem not_total_of_mem_audit_refresh {m : Manifest} {base : Bytes} {tree : FileTree}
    {fault : AuditFault} (h : fault ∈ ((m.refresh.audit base : FileTreeM _).run tree).1)
    (recorded found : Int64) :
    fault ≠ .iconTotal recorded found ∧ fault ≠ .byteTotal recorded found := by
  rw [audit_run] at h
  rcases eq_of_mem_faults_refresh h with rfl | ⟨target, iconFault, rfl⟩
  · simp
  · simp

/-- An audit may enumerate the icons in one order to rank them and in another to
add them up. -/
theorem auditListing_of_perm {m : Manifest} {ranking adding : IconListing}
    (hranking : ranking.Perm m.listing) (hadding : adding.Perm m.listing) (recorded : Totals)
    (base : Bytes) :
    (auditListing m.version recorded ranking adding base : FileTreeM _) =
      ({ m with totals := recorded } : Manifest).audit base := by
  rw [audit, auditListing, auditListing, ranked_eq_of_perm hranking m.targets_nodup,
    totals_eq_of_perm hadding]
  rfl

/-- Whatever looks at all icons gives the same result for any two enumerations of
them. The targets come in the one order that ranks them; the totals are the
number of icons and the sum of their lengths modulo 2^64; an audit finds the
same faults. Refreshing stores these totals and changes nothing else, and an
audit of what was refreshed finds no fault in them. The snippet is the same
text, provided icons of one size have one document. -/
theorem results_of_enumeration (m : Manifest) {first second : IconListing}
    (hfirst : first.Perm m.listing) (hsecond : second.Perm m.listing) :
    (first.targets = second.targets ∧
      ∀ targets, m.IsRanking targets ↔ targets = first.targets) ∧
    (first.totals = second.totals ∧
      first.totals.icons = Int64.ofNat m.listing.length ∧
      first.totals.bytes.toInt =
        Int.bmod (m.listing.map fun e => e.2.bytes.toInt).sum (2 ^ 64)) ∧
    (∀ (base : Bytes) (tree : FileTree),
      (auditListing m.version m.totals first second base : FileTreeM _).run tree =
        (m.audit base : FileTreeM _).run tree) ∧
    (∀ (base : Bytes) (tree : FileTree),
      ∀ fault ∈ ((auditListing m.version first.totals first second base : FileTreeM _).run tree).1,
        ∀ recorded found, fault ≠ .iconTotal recorded found ∧ fault ≠ .byteTotal recorded found) ∧
    (m.refresh = { m with totals := first.totals } ∧
      ∀ (base : Bytes) (tree : FileTree),
        ∀ fault ∈ ((m.refresh.audit base : FileTreeM _).run tree).1,
        ∀ recorded found, fault ≠ .iconTotal recorded found ∧ fault ≠ .byteTotal recorded found) ∧
    (m.listing.OneDocumentPerSize → first.snippet = second.snippet) := by
  have htargets : ∀ {listing : IconListing}, listing.Perm m.listing →
      listing.targets = m.listing.targets := by
    intro listing hperm
    rw [IconListing.targets, IconListing.targets, ranked_eq_of_perm hperm m.targets_nodup]
  have htotals := totals_eq_of_perm hfirst
  have hrefresh : m.refresh = { m with totals := first.totals } := by
    rw [htotals]
    rfl
  refine ⟨⟨?_, ?_⟩, ⟨?_, ?_, ?_⟩, ?_, ?_, ⟨hrefresh, ?_⟩, ?_⟩
  · rw [htargets hfirst, htargets hsecond]
  · intro targets
    rw [htargets hfirst]
    constructor
    · intro h
      exact h.eq m.isRanking_targets
    · rintro rfl
      exact m.isRanking_targets
  · rw [htotals, totals_eq_of_perm hsecond]
  · rw [htotals]
    rfl
  · rw [htotals, toInt_totals_bytes]
  · intro base tree
    rw [auditListing_of_perm hfirst hsecond]
  · intro base tree
    rw [auditListing_of_perm hfirst hsecond, ← hrefresh]
    exact fun _ => not_total_of_mem_audit_refresh
  · intro base tree
    exact fun _ => not_total_of_mem_audit_refresh
  · intro hsizes
    rw [snippet_eq_of_perm hfirst hsizes, snippet_eq_of_perm hsecond hsizes]

/-- Lengths whose sum leaves 64 bits, equal sizes with one document, and totals
that do not add up. -/
def crowded : Manifest :=
  { version := 2
    generatedAt := []
    set := []
    root := []
    icons := some (Table.ofList
      [(utf8 "b.png", ⟨utf8 "x.svg", 16, utf8 "S", 9223372036854775807, utf8 "h", true⟩),
        (utf8 "a.png", ⟨utf8 "x.svg", 16, utf8 "T", 9223372036854775807, [], true⟩),
        (utf8 "c.png", ⟨[], 128, [], -7, [], false⟩)])
    totals := ⟨0, 0⟩ }

theorem results_of_enumeration_crowded :
    crowded.listing.reverse.Perm crowded.listing ∧
    crowded.listing.OneDocumentPerSize ∧
    IconListing.targets crowded.listing.reverse = crowded.listing.targets ∧
    (∀ (base : Bytes) (tree : FileTree),
      (auditListing crowded.version crowded.totals crowded.listing.reverse crowded.listing base :
        FileTreeM _).run tree = (crowded.audit base : FileTreeM _).run tree) ∧
    crowded.refresh = { crowded with totals := ⟨3, -9⟩ } ∧
    IconListing.snippet crowded.listing.reverse = crowded.listing.snippet := by
  have hreverse := List.reverse_perm crowded.listing
  have hsizes : crowded.listing.OneDocumentPerSize := by
    unfold OneDocumentPerSize
    decide +kernel
  obtain ⟨⟨htargets, -⟩, ⟨-, hicons, hbytes⟩, haudit, -, ⟨hrefresh, -⟩, hsnippet⟩ :=
    results_of_enumeration crowded hreverse (List.Perm.refl crowded.listing)
  have htotals : IconListing.totals crowded.listing.reverse = ⟨3, -9⟩ :=
    Totals.eq_of_toInt (hicons.trans (by decide +kernel)) (hbytes.trans (by decide +kernel))
  rw [htotals] at hrefresh
  exact ⟨hreverse, hsizes, htargets, haudit, hrefresh, hsnippet hsizes⟩

end Manifest

end PlaceholderIcons
