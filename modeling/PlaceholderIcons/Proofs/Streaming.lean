import PlaceholderIcons.FileTree.Layout
import PlaceholderIcons.Manifest.Audit
import PlaceholderIcons.Proofs.FileWrites

/-!
Checksums of data that arrives in chunks. A checksum under way stands for all
the data taken in so far, however it was cut; taking in a chunk appends it.
The streamed checksum is therefore that of the whole data, and the reads of a
file add up to its content. A source that fails has no checksum, however much
was taken in before.
-/

namespace PlaceholderIcons

namespace Checksum

theorem Lanes.absorbStripes_add (a b : Nat) (lanes : Lanes) (data : Bytes) :
    lanes.absorbStripes (a + b) data =
      (lanes.absorbStripes a data).absorbStripes b (data.drop (a * stripeLength)) := by
  induction a generalizing lanes data with
  | zero => simp [absorbStripes]
  | succ a ih =>
      have hdrop : (data.drop stripeLength).drop (a * stripeLength) =
          data.drop ((a + 1) * stripeLength) := by
        rw [List.drop_drop, Nat.succ_mul, Nat.add_comm]
      rw [Nat.succ_add, absorbStripes, ih, hdrop]
      rfl

theorem Lanes.absorbStripes_append (count : Nat) (lanes : Lanes) (data more : Bytes)
    (h : count * stripeLength ≤ data.length) :
    lanes.absorbStripes count (data ++ more) = lanes.absorbStripes count data := by
  induction count generalizing lanes data with
  | zero => rfl
  | succ count ih =>
      have hstripe : stripeLength ≤ data.length := by
        rw [Nat.succ_mul] at h
        omega
      have hrest : count * stripeLength ≤ (data.drop stripeLength).length := by
        rw [Nat.succ_mul] at h
        rw [List.length_drop]
        omega
      rw [absorbStripes, absorbStripes, List.take_append_of_le_length hstripe,
        List.drop_append_of_le_length hstripe, ih _ _ hrest]

/-- A checksum under way has taken in `data`: its whole stripes are in the
lanes and the rest is pending. -/
structure Progress.Tracks (p : Progress) (data : Bytes) : Prop where
  lanes_eq : p.lanes = Lanes.start.absorbStripes (data.length / stripeLength) data
  total_eq : p.total = data.length
  pending_eq : p.pending = data.drop (data.length / stripeLength * stripeLength)

namespace Progress

theorem start_tracks : Progress.start.Tracks [] :=
  ⟨rfl, rfl, rfl⟩

/-- One chunk of any length extends the data by itself. -/
theorem update_tracks {p : Progress} {data : Bytes} (h : p.Tracks data) (chunk : Bytes) :
    (p.update chunk).Tracks (data ++ chunk) := by
  have hwhole : data.length / stripeLength * stripeLength ≤ data.length :=
    Nat.div_mul_le_self _ _
  -- What was pending together with the chunk is the data behind the stripes taken in before.
  have hdata : p.pending ++ chunk =
      (data ++ chunk).drop (data.length / stripeLength * stripeLength) := by
    rw [h.pending_eq, List.drop_append_of_le_length hwhole]
  have hstripes : (data ++ chunk).length / stripeLength =
      data.length / stripeLength + (p.pending ++ chunk).length / stripeLength := by
    rw [hdata, List.length_drop, List.length_append]
    simp only [stripeLength] at hwhole ⊢
    omega
  constructor
  · change p.lanes.absorbStripes _ (p.pending ++ chunk) = _
    rw [hstripes, Lanes.absorbStripes_add, Lanes.absorbStripes_append _ _ _ _ hwhole, h.lanes_eq,
      ← hdata]
  · change p.total + chunk.length = _
    rw [h.total_eq, List.length_append]
  · change (p.pending ++ chunk).drop _ = _
    rw [hstripes, hdata, List.drop_drop, Nat.add_mul]

theorem sum_of_tracks {p : Progress} {data : Bytes} (h : p.Tracks data) : p.sum = sum64 data := by
  rw [sum, h.lanes_eq, h.total_eq, h.pending_eq]
  rfl

/-- Reading to the end of a source adds all its chunks to the data. -/
theorem drain_of_tracks {ε : Type} {p : Progress} {data : Bytes} (h : p.Tracks data)
    (chunks : List Bytes) :
    p.drain (none : Option ε) chunks = .ok (sum64 (data ++ chunks.flatten)) := by
  induction chunks generalizing p data with
  | nil =>
      rw [drain, List.flatten_nil, List.append_nil, sum_of_tracks h]
  | cons chunk rest ih =>
      rw [drain, List.flatten_cons, ← List.append_assoc]
      exact ih (update_tracks h chunk)

/-- A failure is met behind the last chunk, and nothing taken in survives it. -/
theorem drain_of_failure {ε : Type} (e : ε) (p : Progress) (chunks : List Bytes) :
    p.drain (some e) chunks = .error e := by
  induction chunks generalizing p with
  | nil => rfl
  | cons chunk rest ih =>
      rw [drain]
      exact ih (p.update chunk)

end Progress

end Checksum

open Checksum

/-- Cutting data into chunks does not change its recorded checksum. -/
theorem sourceHash_chunks {ε : Type} (chunks : List Bytes) :
    sourceHash (⟨chunks, none⟩ : Source ε) = .ok (contentHash chunks.flatten) := by
  have hsum : sumSource (⟨chunks, none⟩ : Source ε) = .ok (sum64 chunks.flatten) :=
    Progress.drain_of_tracks Progress.start_tracks chunks
  rw [sourceHash, hsum]
  rfl

theorem sourceHash_failure {ε : Type} (chunks : List Bytes) (e : ε) :
    sourceHash (⟨chunks, some e⟩ : Source ε) = .error e := by
  have hsum : sumSource (⟨chunks, some e⟩ : Source ε) = .error e :=
    Progress.drain_of_failure e Progress.start chunks
  rw [sourceHash, hsum]
  rfl

theorem flatten_readsOf (count : Nat) (data : Bytes) :
    (readsOf count data).flatten = data.take (count * readLength) := by
  induction count generalizing data with
  | zero => simp [readsOf]
  | succ count ih =>
      rw [readsOf, List.flatten_cons, ih, Nat.succ_mul, Nat.add_comm, List.take_add]

theorem flatten_fileSource (content : Bytes) : (fileSource content).chunks.flatten = content := by
  have hlength : content.length ≤ (content.length / readLength + 1) * readLength := by
    simp only [readLength]
    omega
  rw [fileSource, flatten_readsOf, List.take_of_length_le hlength]

/-- The checksum of a file, read piece by piece, is that of its content. -/
theorem sourceHash_fileSource (content : Bytes) :
    sourceHash (fileSource content) = .ok (contentHash content) := by
  have hchunks := sourceHash_chunks (ε := FileFault) (fileSource content).chunks
  rw [flatten_fileSource] at hchunks
  exact hchunks

/-- Hashing a path looks at the tree only. What can be read has the checksum of
what is read, and what cannot be read has none. -/
theorem hashFile_run (tree : FileTree) (path : Bytes) :
    (hashFile path : FileTreeM _).run tree = ((tree.read path).map contentHash, tree) := by
  rw [hashFile, FileTreeM.run_bind, FileTreeM.run_read]
  cases tree.read path with
  | error fault => rfl
  | ok content =>
      simp only [FileTreeM.run_pure, sourceHash_fileSource]
      rfl

/-- Streaming and hashing at once agree. However data is cut into chunks, the
source that delivers them has the checksum of the whole; a source that fails
behind them has its failure and no checksum; and the checksum of a regular file
is that of its content, which is also that of any other way of reading it. -/
theorem sourceHash_eq_contentHash {ε : Type} (chunks : List Bytes) :
    sourceHash (⟨chunks, none⟩ : Source ε) = .ok (contentHash chunks.flatten) ∧
      (∀ e : ε, sourceHash (⟨chunks, some e⟩ : Source ε) = .error e) ∧
      ∀ (tree : FileTree) (path content : Bytes), tree.find path = .ok (.file content) →
        (hashFile path : FileTreeM _).run tree = (.ok (contentHash content), tree) ∧
        (chunks.flatten = content →
          ((hashFile path : FileTreeM _).run tree).1 =
            sourceHash (⟨chunks, none⟩ : Source FileFault)) := by
  refine ⟨sourceHash_chunks chunks, sourceHash_failure chunks, ?_⟩
  intro tree path content hfind
  have hread : tree.read path = .ok content := by rw [FileTree.read, hfind]
  have hhash : (hashFile path : FileTreeM _).run tree = (.ok (contentHash content), tree) := by
    rw [hashFile_run, hread]
    rfl
  refine ⟨hhash, ?_⟩
  rintro rfl
  rw [hhash, sourceHash_chunks]

/-- Chunks that cut a stripe, one of them empty. -/
def unevenChunks : List Bytes :=
  [List.replicate 31 0x61, [], List.replicate 9 0x62]

/-- A tree with the chunks in one file. -/
def unevenTree : FileTree :=
  (FileTree.fresh [utf8 "w"]).put [utf8 "f", utf8 "w"] unevenChunks.flatten

theorem sourceHash_eq_contentHash_uneven :
    unevenTree.find (utf8 "f") = .ok (.file unevenChunks.flatten) ∧
      ((hashFile (utf8 "f") : FileTreeM _).run unevenTree).1 =
        sourceHash (⟨unevenChunks, none⟩ : Source FileFault) := by
  have hfind : unevenTree.find (utf8 "f") = .ok (.file unevenChunks.flatten) := rfl
  have hagree := (sourceHash_eq_contentHash (ε := FileFault) unevenChunks).2.2 unevenTree
    (utf8 "f") unevenChunks.flatten hfind
  exact ⟨hfind, hagree.2 rfl⟩

end PlaceholderIcons
