import Mathlib.Data.List.Induction
import Mathlib.Data.List.Nodup
import PlaceholderIcons.Table
import PlaceholderIcons.Text.Bytes

/-!
What a table holds. A table is seen through `get?`, or through the members of
its listing, and the two views agree because keys are strictly increasing. An
insertion changes the view at one key only, so a table built from a list holds
the last entry of each key.
-/

namespace PlaceholderIcons

namespace Table

variable {κ α : Type} [Ord κ] [Std.LawfulEqOrd κ]

theorem ne_of_compare_lt {a b : κ} (h : compare a b = .lt) : a ≠ b := by
  rintro rfl
  simp at h

/-- No two entries share a key. -/
theorem keys_nodup (t : Table κ α) : (t.entries.map Prod.fst).Nodup := by
  rw [List.Nodup, List.pairwise_map]
  exact t.increasing.imp ne_of_compare_lt

theorem nodup_of_increasing {l : List (κ × α)}
    (h : l.Pairwise fun a b => compare a.1 b.1 = .lt) : l.Nodup :=
  h.imp fun hlt heq => ne_of_compare_lt hlt (congrArg Prod.fst heq)

theorem nodup_entries (t : Table κ α) : t.entries.Nodup :=
  nodup_of_increasing t.increasing

theorem eq_of_mem_of_key_eq {t : Table κ α} {x y : κ × α} (hx : x ∈ t.entries)
    (hy : y ∈ t.entries) (h : x.1 = y.1) : x = y := by
  have hpair := t.increasing
  generalize t.entries = l at hx hy hpair
  induction l with
  | nil => cases hx
  | cons e rest ih =>
      rw [List.pairwise_cons] at hpair
      rcases List.mem_cons.1 hx with hxe | hx <;> rcases List.mem_cons.1 hy with hye | hy
      · exact hxe.trans hye.symm
      · exact absurd (hxe ▸ h) (ne_of_compare_lt (hpair.1 y hy))
      · exact absurd (hye ▸ h).symm (ne_of_compare_lt (hpair.1 x hx))
      · exact ih hx hy hpair.2

theorem get?_eq_some_iff [BEq κ] [LawfulBEq κ] {t : Table κ α} {k : κ} {v : α} :
    t.get? k = some v ↔ (k, v) ∈ t.entries := by
  unfold get?
  constructor
  · intro h
    obtain ⟨l₁, l₂, hsplit, -⟩ := List.lookup_eq_some_iff.1 h
    rw [hsplit]
    simp
  · intro h
    cases hlook : t.entries.lookup k with
    | none =>
        have hno := List.lookup_eq_none_iff.1 hlook (k, v) h
        simp at hno
    | some w =>
        obtain ⟨l₁, l₂, hsplit, -⟩ := List.lookup_eq_some_iff.1 hlook
        have hw : (k, w) ∈ t.entries := by
          rw [hsplit]
          simp
        have hsame := eq_of_mem_of_key_eq hw h rfl
        simpa using hsame

variable [Std.TransOrd κ]

theorem mem_insertInto_iff {k : κ} {v : α} {l : List (κ × α)} {x : κ × α}
    (h : l.Pairwise fun a b => compare a.1 b.1 = .lt) :
    x ∈ insertInto k v l ↔ x = (k, v) ∨ x ∈ l ∧ x.1 ≠ k := by
  induction l with
  | nil => simp [insertInto]
  | cons e rest ih =>
      rw [List.pairwise_cons] at h
      have hrest : ∀ y ∈ rest, compare k e.1 ≠ .gt → y.1 ≠ k := by
        intro y hy hk heq
        have hlt := h.1 y hy
        rw [heq] at hlt
        exact hk (Std.OrientedCmp.gt_of_lt hlt)
      simp only [insertInto]
      split
      next hlt =>
        have hne : e.1 ≠ k := (ne_of_compare_lt hlt).symm
        constructor
        · rintro hx
          rcases List.mem_cons.1 hx with rfl | hx
          · exact .inl rfl
          · refine .inr ⟨hx, ?_⟩
            rcases List.mem_cons.1 hx with rfl | hx
            · exact hne
            · exact hrest x hx (by simp [hlt])
        · rintro (rfl | ⟨hx, -⟩)
          · exact List.mem_cons_self
          · exact List.mem_cons_of_mem _ hx
      next heq =>
        have hk : k = e.1 := Std.LawfulEqCmp.eq_of_compare heq
        constructor
        · intro hx
          rcases List.mem_cons.1 hx with rfl | hx
          · exact .inl rfl
          · exact .inr ⟨List.mem_cons_of_mem _ hx, hrest x hx (by simp [heq])⟩
        · rintro (rfl | ⟨hx, hne⟩)
          · exact List.mem_cons_self
          · rcases List.mem_cons.1 hx with rfl | hx
            · exact absurd hk.symm hne
            · exact List.mem_cons_of_mem _ hx
      next hgt =>
        have hne : e.1 ≠ k := ne_of_compare_lt (Std.OrientedCmp.lt_of_gt hgt)
        rw [List.mem_cons, ih h.2, List.mem_cons]
        constructor
        · rintro (rfl | rfl | hx)
          · exact .inr ⟨.inl rfl, hne⟩
          · exact .inl rfl
          · exact .inr ⟨.inr hx.1, hx.2⟩
        · rintro (rfl | ⟨rfl | hx, hxk⟩)
          · exact .inr (.inl rfl)
          · exact .inl rfl
          · exact .inr (.inr ⟨hx, hxk⟩)

theorem mem_insert {t : Table κ α} {k : κ} {v : α} {x : κ × α} :
    x ∈ (t.insert k v).entries ↔ x = (k, v) ∨ x ∈ t.entries ∧ x.1 ≠ k :=
  mem_insertInto_iff t.increasing

/-- Entries with increasing keys can be listed in one way only. -/
theorem eq_of_increasing {l l' : List (κ × α)} (h : l.Pairwise fun a b => compare a.1 b.1 = .lt)
    (h' : l'.Pairwise fun a b => compare a.1 b.1 = .lt) (hmem : ∀ x, x ∈ l ↔ x ∈ l') : l = l' := by
  have hperm : l.Perm l' :=
    (List.perm_ext_iff_of_nodup (nodup_of_increasing h) (nodup_of_increasing h')).2 hmem
  refine hperm.eq_of_pairwise ?_ h h'
  intro a b _ _ hab hba
  exact absurd hba (Std.OrientedCmp.not_lt_of_lt hab)

/-- Two tables with the same members are equal, in whatever order they were
filled. -/
theorem ext_mem {s t : Table κ α} (h : ∀ x, x ∈ s.entries ↔ x ∈ t.entries) : s = t := by
  have heq := eq_of_increasing s.increasing t.increasing h
  cases s
  cases t
  cases heq
  rfl

/-- Of two insertions under one key the later stays. -/
theorem insert_insert (t : Table κ α) (k : κ) (v w : α) :
    (t.insert k v).insert k w = t.insert k w := by
  apply ext_mem
  intro x
  simp only [mem_insert]
  constructor
  · rintro (rfl | ⟨rfl | hx, hne⟩)
    · exact .inl rfl
    · exact absurd rfl hne
    · exact .inr hx
  · rintro (rfl | hx)
    · exact .inl rfl
    · exact .inr ⟨.inr hx, hx.2⟩

/-- Insertions under different keys commute. -/
theorem insert_comm (t : Table κ α) {k k' : κ} (h : k ≠ k') (v w : α) :
    (t.insert k v).insert k' w = (t.insert k' w).insert k v := by
  apply ext_mem
  intro x
  simp only [mem_insert]
  constructor
  · rintro (rfl | ⟨rfl | ⟨hx, hk⟩, hk'⟩)
    · exact .inr ⟨.inl rfl, h.symm⟩
    · exact .inl rfl
    · exact .inr ⟨.inr ⟨hx, hk'⟩, hk⟩
  · rintro (rfl | ⟨rfl | ⟨hx, hk'⟩, hk⟩)
    · exact .inr ⟨.inl rfl, h⟩
    · exact .inl rfl
    · exact .inr ⟨.inr ⟨hx, hk⟩, hk'⟩

/-- After insertions in a row a key holds the last value inserted for it, or what
it held before if there was none. -/
theorem mem_foldl_insert {γ : Type} {key : γ → κ} {value : γ → α} {items : List γ}
    {t : Table κ α} {x : κ × α} :
    x ∈ (items.foldl (fun t d => t.insert (key d) (value d)) t).entries ↔
      (∃ front d back, items = front ++ d :: back ∧ x = (key d, value d) ∧
        ∀ d' ∈ back, key d' ≠ key d) ∨
      x ∈ t.entries ∧ ∀ d ∈ items, key d ≠ x.1 := by
  induction items generalizing t with
  | nil => simp
  | cons first rest ih =>
      rw [List.foldl_cons, ih, mem_insert]
      constructor
      · rintro (⟨front, d, back, rfl, rfl, hlast⟩ | ⟨rfl | ⟨hx, hne⟩, hrest⟩)
        · exact .inl ⟨first :: front, d, back, rfl, rfl, hlast⟩
        · exact .inl ⟨[], first, rest, rfl, rfl, hrest⟩
        · refine .inr ⟨hx, ?_⟩
          rintro d (_ | ⟨_, hd⟩)
          · exact hne.symm
          · exact hrest d hd
      · rintro (⟨front, d, back, hsplit, rfl, hlast⟩ | ⟨hx, hne⟩)
        · cases front with
          | nil =>
              obtain ⟨rfl, rfl⟩ := List.cons.inj hsplit
              exact .inr ⟨.inl rfl, hlast⟩
          | cons first' front =>
              obtain ⟨rfl, rfl⟩ := List.cons.inj hsplit
              exact .inl ⟨front, d, back, rfl, rfl, hlast⟩
        · refine .inr ⟨.inr ⟨hx, (hne first List.mem_cons_self).symm⟩, ?_⟩
          intro d hd
          exact hne d (List.mem_cons_of_mem _ hd)

/-- Insertions in a row can be made again without effect, because the last one of
each key decides either way. -/
theorem foldl_insert_again {γ : Type} (key : γ → κ) (value : γ → α) (items : List γ)
    (t : Table κ α) :
    items.foldl (fun t d => t.insert (key d) (value d))
        (items.foldl (fun t d => t.insert (key d) (value d)) t) =
      items.foldl (fun t d => t.insert (key d) (value d)) t := by
  apply ext_mem
  intro x
  rw [mem_foldl_insert]
  constructor
  · rintro (hlast | ⟨hx, -⟩)
    · exact mem_foldl_insert.2 (.inl hlast)
    · exact hx
  · intro hx
    rcases mem_foldl_insert.1 hx with hlast | ⟨-, hother⟩
    · exact .inl hlast
    · exact .inr ⟨hx, hother⟩

/-- Insertions under pairwise different keys can be made in any order. -/
theorem foldl_insert_perm {γ : Type} {key : γ → κ} (value : γ → α) {items items' : List γ}
    (hperm : items.Perm items') (hkeys : (items.map key).Nodup) (t : Table κ α) :
    items.foldl (fun t d => t.insert (key d) (value d)) t =
      items'.foldl (fun t d => t.insert (key d) (value d)) t := by
  apply hperm.foldl_eq'
  intro a ha b hb t
  by_cases heq : key a = key b
  · rw [List.inj_on_of_nodup_map hkeys ha hb heq]
  · exact t.insert_comm heq (value a) (value b)

/-- Entries that agree wherever their keys do all stay. -/
theorem mem_ofList_iff {entries : List (κ × α)} {x : κ × α}
    (h : ∀ a ∈ entries, ∀ b ∈ entries, a.1 = b.1 → a.2 = b.2) :
    x ∈ (ofList entries).entries ↔ x ∈ entries := by
  induction entries using List.reverseRecOn with
  | nil => simp [ofList, empty]
  | append_singleton entries e ih =>
      have hfront : ∀ a ∈ entries, ∀ b ∈ entries, a.1 = b.1 → a.2 = b.2 :=
        fun a ha b hb => h a (List.mem_append_left [e] ha) b (List.mem_append_left [e] hb)
      have hlast : ofList (entries ++ [e]) = (ofList entries).insert e.1 e.2 :=
        List.foldl_concat _ _ _ _
      rw [hlast, mem_insert, ih hfront, List.mem_append, List.mem_singleton]
      constructor
      · rintro (rfl | ⟨hx, -⟩)
        · exact .inr rfl
        · exact .inl hx
      · rintro (hx | rfl)
        · by_cases hkey : x.1 = e.1
          · have hvalue := h x (List.mem_append_left [e] hx) e List.mem_concat_self hkey
            exact .inl (Prod.ext hkey hvalue)
          · exact .inr ⟨hx, hkey⟩
        · exact .inl rfl

/-- Entries with distinct keys are a listing of their table. -/
theorem ofList_perm {entries : List (κ × α)} (h : (entries.map Prod.fst).Nodup) :
    (ofList entries).entries.Perm entries := by
  rw [List.perm_ext_iff_of_nodup (nodup_entries _) h.of_map]
  intro x
  apply mem_ofList_iff
  intro a ha b hb hkey
  rw [List.inj_on_of_nodup_map h ha hb hkey]

theorem ofList_entries (t : Table κ α) : ofList t.entries = t :=
  ext_mem fun _ => (ofList_perm t.keys_nodup).mem_iff

variable [BEq κ] [LawfulBEq κ]

@[simp] theorem get?_insert_self (t : Table κ α) (k : κ) (v : α) :
    (t.insert k v).get? k = some v := by
  rw [get?_eq_some_iff, mem_insert]
  exact .inl rfl

theorem get?_insert_of_ne {t : Table κ α} {k k' : κ} {v : α} (h : k' ≠ k) :
    (t.insert k v).get? k' = t.get? k' := by
  apply Option.ext
  intro w
  rw [get?_eq_some_iff, get?_eq_some_iff, mem_insert]
  simp [h]

end Table

namespace Bytes

/-- Byte strings compare by their first difference, a shorter one in front of its
continuations. -/
theorem compare_eq_lt_iff {a b : Bytes} : compare a b = .lt ↔ a < b := by
  change List.compareLex compare a b = .lt ↔ a < b
  induction a generalizing b with
  | nil => cases b <;> simp [List.compareLex]
  | cons x a ih =>
      cases b with
      | nil => simp [List.compareLex]
      | cons y b =>
          rw [List.compareLex_cons_cons, Ordering.then_eq_lt, ih, List.cons_lt_cons_iff,
            Std.compare_eq_lt, Std.compare_eq_iff_eq]

end Bytes

namespace Table

/-- The keys of a table of byte strings stand in byte order. -/
theorem keys_pairwise_lt {α : Type} (t : Table Bytes α) :
    (t.entries.map Prod.fst).Pairwise (· < ·) :=
  List.pairwise_map.2 (t.increasing.imp Bytes.compare_eq_lt_iff.1)

end Table

end PlaceholderIcons
