/-!
Finite tables in key order. A table is determined by what its keys map to, so
two tables built in different orders from the same entries are equal, and
listing a table always yields its entries by increasing key.
-/

namespace PlaceholderIcons

/-- Entries with strictly increasing keys. -/
structure Table (κ α : Type) [Ord κ] where
  entries : List (κ × α)
  increasing : entries.Pairwise fun a b => compare a.1 b.1 = .lt
  deriving DecidableEq

namespace Table

variable {κ α : Type} [Ord κ]

def empty : Table κ α :=
  ⟨[], .nil⟩

def size (t : Table κ α) : Nat :=
  t.entries.length

def get? [BEq κ] (t : Table κ α) (k : κ) : Option α :=
  t.entries.lookup k

/-- Puts an entry in its place; an entry of the same key gives way. -/
def insertInto (k : κ) (v : α) : List (κ × α) → List (κ × α)
  | [] => [(k, v)]
  | e :: rest =>
      match compare k e.1 with
      | .lt => (k, v) :: e :: rest
      | .eq => (k, v) :: rest
      | .gt => e :: insertInto k v rest

theorem mem_insertInto {k : κ} {v : α} {l : List (κ × α)} {x : κ × α}
    (h : x ∈ insertInto k v l) : x = (k, v) ∨ x ∈ l := by
  induction l with
  | nil => simpa [insertInto] using h
  | cons e rest ih =>
      simp only [insertInto] at h
      split at h
      · simpa using h
      · simp only [List.mem_cons] at h ⊢
        exact h.imp id .inr
      · simp only [List.mem_cons] at h ⊢
        rcases h with rfl | h
        · exact .inr (.inl rfl)
        · exact (ih h).imp id .inr

theorem insertInto_increasing [Std.TransOrd κ] [Std.LawfulEqOrd κ] (k : κ) (v : α)
    {l : List (κ × α)} (h : l.Pairwise fun a b => compare a.1 b.1 = .lt) :
    (insertInto k v l).Pairwise fun a b => compare a.1 b.1 = .lt := by
  induction l with
  | nil => simp [insertInto]
  | cons e rest ih =>
      rw [List.pairwise_cons] at h
      simp only [insertInto]
      split
      next hlt =>
        refine List.pairwise_cons.2 ⟨?_, List.pairwise_cons.2 h⟩
        intro x hx
        rcases List.mem_cons.1 hx with rfl | hx
        · exact hlt
        · exact Std.TransCmp.lt_trans hlt (h.1 x hx)
      next heq =>
        refine List.pairwise_cons.2 ⟨?_, h.2⟩
        intro x hx
        rw [Std.LawfulEqCmp.eq_of_compare heq]
        exact h.1 x hx
      next hgt =>
        refine List.pairwise_cons.2 ⟨?_, ih h.2⟩
        intro x hx
        rcases mem_insertInto hx with rfl | hx
        · exact Std.OrientedCmp.lt_of_gt hgt
        · exact h.1 x hx

/-- The table with `k` mapped to `v`. -/
def insert [Std.TransOrd κ] [Std.LawfulEqOrd κ] (t : Table κ α) (k : κ) (v : α) : Table κ α :=
  ⟨insertInto k v t.entries, insertInto_increasing k v t.increasing⟩

/-- The entries whose keys pass the test. -/
def filterKeys (t : Table κ α) (keep : κ → Bool) : Table κ α :=
  ⟨t.entries.filter fun e => keep e.1, t.increasing.filter _⟩

/-- The table without the key `k`. -/
def erase [BEq κ] (t : Table κ α) (k : κ) : Table κ α :=
  t.filterKeys (· != k)

/-- A table from entries in any order; of entries with one key the last stays. -/
def ofList [Std.TransOrd κ] [Std.LawfulEqOrd κ] (entries : List (κ × α)) : Table κ α :=
  entries.foldl (fun t e => t.insert e.1 e.2) empty

end Table

end PlaceholderIcons
