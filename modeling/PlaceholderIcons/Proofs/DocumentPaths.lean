import Mathlib.Data.List.TakeWhile
import PlaceholderIcons.Icon.Document
import PlaceholderIcons.Proofs.OutputPlaces

/-!
The path of a document against the target it stands in for. A target is a
folder up to the last slash, a stem up to the last dot behind it, and a suffix.
The document keeps folder and stem and changes the suffix alone, so targets
that share them share a document. Its file name is no step through directories,
and joining it to a root leaves it in place.
-/

namespace PlaceholderIcons

namespace Bytes

theorem exists_last {mark : UInt8} {s : Bytes} (h : mark ∈ s) :
    ∃ front back, s = front ++ mark :: back ∧ mark ∉ back := by
  obtain ⟨back, front, hsplit, hback⟩ := List.eq_append_cons_of_mem (List.mem_reverse.2 h)
  refine ⟨front.reverse, back.reverse, ?_, mt List.mem_reverse.1 hback⟩
  have hs := congrArg List.reverse hsplit
  simpa using hs

/-- A text has one last mark. -/
theorem append_mark_inj {mark : UInt8} {front front' back back' : Bytes} (h : mark ∉ back)
    (h' : mark ∉ back') (heq : front ++ mark :: back = front' ++ mark :: back') :
    front = front' ∧ back = back' := by
  have hsplit := congrArg (splitAfterLast mark) heq
  rw [splitAfterLast_append front h, splitAfterLast_append front' h', Prod.mk.injEq] at hsplit
  exact ⟨List.append_cancel_right hsplit.1, hsplit.2⟩

theorem takeWhile_reverse_of_not_mem {mark : UInt8} {s : Bytes} (h : mark ∉ s) :
    s.reverse.takeWhile (· != mark) = s.reverse := by
  rw [List.takeWhile_eq_self_iff]
  intro b hb
  rw [bne_iff_ne]
  rintro rfl
  exact h (List.mem_reverse.1 hb)

/-- A scan from the end stops at the last mark. -/
theorem takeWhile_reverse_append {mark : UInt8} (front : Bytes) {back : Bytes} (h : mark ∉ back) :
    (front ++ mark :: back).reverse.takeWhile (· != mark) = back.reverse := by
  rw [List.reverse_append, List.reverse_cons, List.append_assoc, List.takeWhile_append,
    takeWhile_reverse_of_not_mem h, if_pos rfl]
  simp

end Bytes

open Bytes

namespace FilePath

/-- A path cut behind its last slash: what stands in front ends there or is
empty, and the last component has no slash. -/
structure IsCut (path folder file : Bytes) : Prop where
  text : path = folder ++ file
  folder_end : folder = [] ∨ ∃ front, folder = front ++ [slash]
  no_slash : slash ∉ file

theorem exists_isCut (path : Bytes) : ∃ folder file, IsCut path folder file := by
  by_cases hslash : slash ∈ path
  · obtain ⟨front, file, rfl, hfile⟩ := exists_last hslash
    exact ⟨front ++ [slash], file, by simp, .inr ⟨front, rfl⟩, hfile⟩
  · exact ⟨[], path, rfl, .inl rfl, hslash⟩

theorem IsCut.splitAfterLast_eq {path folder file : Bytes} (h : IsCut path folder file) :
    splitAfterLast slash path = (folder, file) := by
  obtain ⟨rfl, rfl | ⟨front, rfl⟩, hfile⟩ := h
  · exact splitAfterLast_of_not_mem hfile
  · rw [List.append_assoc]
    exact splitAfterLast_append front hfile

theorem IsCut.unique {path folder folder' file file' : Bytes} (h : IsCut path folder file)
    (h' : IsCut path folder' file') : folder = folder' ∧ file = file' :=
  Prod.mk.inj (h.splitAfterLast_eq.symm.trans h'.splitAfterLast_eq)

/-- In front of a path of its own, a directory only lengthens the folder. -/
theorem IsCut.append {path folder file : Bytes} (h : IsCut path folder file) (base : Bytes) :
    IsCut (base ++ slash :: path) (base ++ slash :: folder) file := by
  refine ⟨by simp [h.text], .inr ?_, h.no_slash⟩
  rcases h.folder_end with rfl | ⟨front, rfl⟩
  · exact ⟨base, rfl⟩
  · exact ⟨base ++ slash :: front, by simp⟩

/-- The last component of a path is its last name. -/
theorem IsCut.exists_names_eq {path folder file : Bytes} (h : IsCut path folder file)
    (hfile : IsName file) : ∃ ns, names path = ns ++ [file] := by
  obtain ⟨rfl, rfl | ⟨front, rfl⟩, -⟩ := h
  · exact ⟨[], names_of_isName hfile⟩
  · refine ⟨names front, ?_⟩
    rw [List.append_assoc, List.singleton_append, names_append_slash, names_of_isName hfile]

/-- Cleaning settles what stands in front of an ordinary last component, and
leaves that component where it is. -/
theorem IsCut.exists_clean {path folder file : Bytes} (h : IsCut path folder file)
    (hfile : IsName file) (hhere : file ≠ here) (habove : file ≠ above) :
    ∃ front, IsCut (clean path) front file := by
  obtain ⟨ns, hnames⟩ := h.exists_names_eq hfile
  have hsettle : settle path = file :: ns.foldl (push (isRooted path)) [] := by
    rw [settle, hnames, List.foldl_concat, push_of_plain hhere habove]
  obtain ⟨front, hend, htext⟩ := exists_assemble_append (isRooted path)
    (ns.foldl (push (isRooted path)) []).reverse
  refine ⟨front, ?_, hend, hfile.no_slash⟩
  rw [clean_eq_assemble, hsettle, List.reverse_cons, htext file hfile.ne_nil]

/-- Joined to any root, a path keeps an ordinary last component. -/
theorem IsCut.exists_join {path folder file : Bytes} (h : IsCut path folder file)
    (hfile : IsName file) (hhere : file ≠ here) (habove : file ≠ above) (root : Bytes) :
    ∃ front, IsCut (join root path) front file := by
  by_cases hroot : root = []
  · have hpath : path ≠ [] := by
      rw [h.text]
      exact List.append_ne_nil_of_right_ne_nil folder hfile.ne_nil
    obtain ⟨front, hclean⟩ := h.exists_clean hfile hhere habove
    refine ⟨front, ?_⟩
    simpa [FilePath.join, hroot, hpath] using hclean
  · obtain ⟨front, hclean⟩ := (h.append root).exists_clean hfile hhere habove
    refine ⟨front, ?_⟩
    simpa [FilePath.join, hroot] using hclean

end FilePath

namespace Document

open FilePath

/-- What separates the stem of a file name from its suffix. -/
def dot : UInt8 := 0x2E

/-- The parts of a target: the folder up to its last slash, the stem of the file
name up to its last dot, and the suffix from there on, which is missing if the
name has no dot. -/
structure TargetParts (target folder stem suffix : Bytes) : Prop where
  cut : IsCut target folder (stem ++ suffix)
  suffix_form : suffix = [] ∧ dot ∉ stem ∨ ∃ letters, suffix = dot :: letters ∧ dot ∉ letters

theorem exists_targetParts (target : Bytes) :
    ∃ folder stem suffix, TargetParts target folder stem suffix := by
  obtain ⟨folder, file, hcut⟩ := exists_isCut target
  by_cases hdot : dot ∈ file
  · obtain ⟨stem, letters, rfl, hletters⟩ := exists_last hdot
    exact ⟨folder, stem, dot :: letters, hcut, .inr ⟨letters, rfl, hletters⟩⟩
  · refine ⟨folder, file, [], ?_, .inl ⟨rfl, hdot⟩⟩
    rwa [List.append_nil]

/-- The same file name has the same stem and the same suffix. -/
theorem TargetParts.unique {target folder folder' stem stem' suffix suffix' : Bytes}
    (h : TargetParts target folder stem suffix)
    (h' : TargetParts target folder' stem' suffix') :
    folder = folder' ∧ stem = stem' ∧ suffix = suffix' := by
  obtain ⟨hfolder, hfile⟩ := h.cut.unique h'.cut
  refine ⟨hfolder, ?_⟩
  rcases h.suffix_form with ⟨rfl, hstem⟩ | ⟨letters, rfl, hletters⟩
  · rcases h'.suffix_form with ⟨rfl, -⟩ | ⟨letters', rfl, -⟩
    · exact ⟨by simpa using hfile, rfl⟩
    · rw [List.append_nil] at hfile
      exact absurd (by simp [hfile]) hstem
  · rcases h'.suffix_form with ⟨rfl, hstem'⟩ | ⟨letters', rfl, hletters'⟩
    · rw [List.append_nil] at hfile
      exact absurd (by simp [← hfile]) hstem'
    · obtain ⟨hstem, hsuffix⟩ := append_mark_inj hletters hletters' hfile
      exact ⟨hstem, congrArg _ hsuffix⟩

section

variable {target folder stem suffix : Bytes}

theorem TargetParts.extension_eq (h : TargetParts target folder stem suffix) :
    extension target = suffix := by
  -- The dot is looked for in the file name only.
  have hname : target.reverse.takeWhile (· != slash) = (stem ++ suffix).reverse := by
    obtain ⟨rfl, rfl | ⟨front, rfl⟩, hfile⟩ := h.cut
    · exact takeWhile_reverse_of_not_mem hfile
    · rw [List.append_assoc]
      exact takeWhile_reverse_append front hfile
  simp only [extension, hname]
  rcases h.suffix_form with ⟨rfl, hstem⟩ | ⟨letters, rfl, hletters⟩
  · rw [List.append_nil, if_neg]
    simpa [dot] using hstem
  · rw [if_pos (by simp [dot])]
    have hscan := takeWhile_reverse_append stem hletters
    rw [dot] at hscan ⊢
    rw [hscan, List.reverse_reverse]

/-- The path keeps folder and stem. -/
theorem TargetParts.path_eq (h : TargetParts target folder stem suffix) :
    path target = folder ++ stem ++ utf8 ".svg" := by
  rw [path, h.extension_eq, h.cut.text, ← List.append_assoc, List.length_append,
    Nat.add_sub_cancel, List.take_left]

/-- The path of a document has the parts of its target, but for the suffix. -/
theorem TargetParts.of_path (h : TargetParts target folder stem suffix) :
    TargetParts (path target) folder stem (utf8 ".svg") := by
  have hstem : slash ∉ stem := fun hmem => h.cut.no_slash (List.mem_append_left suffix hmem)
  refine ⟨⟨?_, h.cut.folder_end, List.not_mem_append hstem (by decide)⟩,
    .inr ⟨utf8 "svg", rfl, by decide⟩⟩
  rw [h.path_eq, List.append_assoc]

theorem TargetParts.path_eq_self_iff (h : TargetParts target folder stem suffix) :
    path target = target ↔ utf8 ".svg" <:+ stem ++ suffix := by
  constructor
  · intro heq
    have hparts := h.of_path
    rw [heq] at hparts
    rw [(h.unique hparts).2.2]
    exact List.suffix_append stem _
  · rintro ⟨front, hfront⟩
    have hparts : TargetParts target folder front (utf8 ".svg") :=
      ⟨hfront ▸ h.cut, .inr ⟨utf8 "svg", rfl, by decide⟩⟩
    rw [hparts.path_eq, hparts.cut.text, List.append_assoc]

theorem TargetParts.path_eq_path_iff {target' folder' stem' suffix' : Bytes}
    (h : TargetParts target folder stem suffix)
    (h' : TargetParts target' folder' stem' suffix') :
    path target = path target' ↔ folder = folder' ∧ stem = stem' := by
  constructor
  · intro heq
    have hparts := h'.of_path
    rw [← heq] at hparts
    obtain ⟨hfolder, hstem, -⟩ := h.of_path.unique hparts
    exact ⟨hfolder, hstem⟩
  · rintro ⟨rfl, rfl⟩
    rw [h.path_eq, h'.path_eq]

/-- The file name of a document is an ordinary name, whatever its stem is. -/
theorem TargetParts.exists_join (h : TargetParts target folder stem suffix) (root : Bytes) :
    ∃ front, IsCut (join root (path target)) front (stem ++ utf8 ".svg") := by
  have hlength : (stem ++ utf8 ".svg").length = stem.length + 4 := List.length_append
  have hne {name : Bytes} (hshort : name.length < 4) : stem ++ utf8 ".svg" ≠ name := by
    rintro rfl
    omega
  exact h.of_path.cut.exists_join ⟨hne (by decide), h.of_path.cut.no_slash⟩ (hne (by decide))
    (hne (by decide)) root

end

/-- The path of a document differs from its target in the suffix only. Every
target has one folder, stem and suffix, and the path is folder and stem with
`.svg` behind them. A path is its own path, and a target is one exactly if its
file name ends in `.svg`. Two targets share a path exactly if they share folder
and stem, and whatever root the path is joined to, the file name stays the last
component. -/
theorem path_changes_suffix (target : Bytes) :
    ∃ folder stem suffix,
      (∀ folder' stem' suffix', TargetParts target folder' stem' suffix' ↔
        folder' = folder ∧ stem' = stem ∧ suffix' = suffix) ∧
      path target = folder ++ stem ++ utf8 ".svg" ∧
      path (path target) = path target ∧
      (path target = target ↔ utf8 ".svg" <:+ stem ++ suffix) ∧
      (∀ target' folder' stem' suffix', TargetParts target' folder' stem' suffix' →
        (path target = path target' ↔ folder = folder' ∧ stem = stem')) ∧
      ∀ root, ∃ front, IsCut (join root (path target)) front (stem ++ utf8 ".svg") := by
  obtain ⟨folder, stem, suffix, h⟩ := exists_targetParts target
  refine ⟨folder, stem, suffix, ?_, h.path_eq, ?_, h.path_eq_self_iff, ?_, h.exists_join⟩
  · intro folder' stem' suffix'
    constructor
    · intro h'
      exact h'.unique h
    · rintro ⟨rfl, rfl, rfl⟩
      exact h
  · rw [h.of_path.path_eq, h.path_eq]
  · intro target' folder' stem' suffix' h'
    exact h.path_eq_path_iff h'

-- The stem of `..` is a single dot, and with the suffix it is no step up.
example : path (utf8 "icons.d/..") = utf8 "icons.d/..svg" := by
  decide

end Document

end PlaceholderIcons
