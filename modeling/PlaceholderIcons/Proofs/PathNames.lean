import Mathlib.Data.List.Induction
import PlaceholderIcons.FilePath

/-!
Cleaned paths by their names. Cleaning settles the names of a path and writes
them with single slashes; settled names read back as themselves, so cleaning a
cleaned path changes nothing and joining to a directory is joining to its
cleaned path.
-/

namespace PlaceholderIcons

namespace Bytes

theorem splitOn_ne_nil (mark : UInt8) (s : Bytes) : splitOn mark s ≠ [] := by
  cases s with
  | nil => simp [splitOn]
  | cons b s =>
      rw [splitOn]
      split
      · simp
      · split <;> simp

theorem splitOn_append_mark (mark : UInt8) (front back : Bytes) :
    splitOn mark (front ++ mark :: back) = splitOn mark front ++ splitOn mark back := by
  induction front with
  | nil => simp [splitOn]
  | cons b front ih =>
      rw [List.cons_append, splitOn, splitOn, ih]
      split
      · rfl
      · cases hfront : splitOn mark front with
        | nil => exact absurd hfront (splitOn_ne_nil mark front)
        | cons piece pieces => rfl

theorem splitOn_of_not_mem {mark : UInt8} {s : Bytes} (h : mark ∉ s) : splitOn mark s = [s] := by
  induction s with
  | nil => rfl
  | cons b s ih =>
      rw [List.mem_cons, not_or] at h
      have hb : (b == mark) = false := by simpa using Ne.symm h.1
      simp [splitOn, hb, ih h.2]

theorem not_mem_of_mem_splitOn {mark : UInt8} {s piece : Bytes} (h : piece ∈ splitOn mark s) :
    mark ∉ piece := by
  induction s generalizing piece with
  | nil => simp_all [splitOn]
  | cons b s ih =>
      rw [splitOn] at h
      split at h
      · rcases List.mem_cons.1 h with rfl | h
        · simp
        · exact ih h
      next hb =>
        cases hs : splitOn mark s with
        | nil => exact absurd hs (splitOn_ne_nil mark s)
        | cons first rest =>
            rw [hs] at h ih
            rcases List.mem_cons.1 h with rfl | h
            · have hfirst := ih List.mem_cons_self
              simp only [beq_iff_eq] at hb
              simp [hfirst, Ne.symm hb]
            · exact ih (List.mem_cons_of_mem _ h)

theorem splitAfterLast_of_not_mem {mark : UInt8} {s : Bytes} (h : mark ∉ s) :
    splitAfterLast mark s = ([], s) := by
  induction s with
  | nil => rfl
  | cons b s ih =>
      rw [List.mem_cons, not_or] at h
      simp [splitAfterLast, ih h.2, Ne.symm h.1]

theorem splitAfterLast_append {mark : UInt8} (front : Bytes) {back : Bytes} (h : mark ∉ back) :
    splitAfterLast mark (front ++ mark :: back) = (front ++ [mark], back) := by
  induction front with
  | nil => simp [splitAfterLast, splitAfterLast_of_not_mem h]
  | cons b front ih => simp [splitAfterLast, ih]

theorem splitFirst_append {mark : UInt8} {front : Bytes} (h : mark ∉ front) (back : Bytes) :
    splitFirst mark (front ++ mark :: back) = (front, some back) := by
  induction front with
  | nil => simp [splitFirst]
  | cons b front ih =>
    rw [List.mem_cons, not_or] at h
    simp [splitFirst, Ne.symm h.1, ih h.2]

theorem splitFirst_of_not_mem {mark : UInt8} {text : Bytes} (h : mark ∉ text) :
    splitFirst mark text = (text, none) := by
  induction text with
  | nil => rfl
  | cons b text ih =>
    rw [List.mem_cons, not_or] at h
    simp [splitFirst, Ne.symm h.1, ih h.2]

theorem joinWith_cons_cons (mark : UInt8) (piece next : Bytes) (rest : List Bytes) :
    joinWith mark (piece :: next :: rest) = piece ++ mark :: joinWith mark (next :: rest) := rfl

theorem joinWith_cons (mark : UInt8) (piece : Bytes) (pieces : List Bytes) :
    joinWith mark (piece :: pieces) = piece ++ pieces.flatMap (mark :: ·) := by
  induction pieces generalizing piece with
  | nil => exact (List.append_nil piece).symm
  | cons next rest ih =>
      rw [joinWith_cons_cons, ih next, List.flatMap_cons]
      rfl

theorem joinWith_append_singleton (mark : UInt8) {pieces : List Bytes} (h : pieces ≠ [])
    (last : Bytes) : joinWith mark (pieces ++ [last]) = joinWith mark pieces ++ mark :: last := by
  induction pieces with
  | nil => exact absurd rfl h
  | cons piece pieces ih =>
      cases pieces with
      | nil => rfl
      | cons next rest =>
          have hrest := ih (by simp)
          simp only [List.cons_append, joinWith_cons_cons] at hrest ⊢
          rw [hrest, List.append_assoc, List.cons_append]

end Bytes

namespace FilePath

open Bytes

/-- What can stand between two slashes. -/
structure IsName (name : Bytes) : Prop where
  ne_nil : name ≠ []
  no_slash : slash ∉ name

theorem isName_of_mem_names {path name : Bytes} (h : name ∈ names path) : IsName name := by
  obtain ⟨hmem, hne⟩ := List.mem_filter.1 h
  exact ⟨by simpa using hne, not_mem_of_mem_splitOn hmem⟩

theorem names_append_slash (front back : Bytes) :
    names (front ++ slash :: back) = names front ++ names back := by
  rw [names, splitOn_append_mark, List.filter_append]
  rfl

theorem names_of_isName {name : Bytes} (h : IsName name) : names name = [name] := by
  rw [names, splitOn_of_not_mem h.no_slash]
  simp [h.ne_nil]

theorem names_joinWith {ns : List Bytes} (h : ∀ n ∈ ns, IsName n) :
    names (joinWith slash ns) = ns := by
  induction ns using List.reverseRecOn with
  | nil => rfl
  | append_singleton ns last ih =>
      have hlast : IsName last := h last (by simp)
      by_cases hns : ns = []
      · subst hns
        exact names_of_isName hlast
      · rw [joinWith_append_singleton slash hns, names_append_slash, names_of_isName hlast,
          ih fun n hn => h n (by simp [hn])]

/-- Names that cleaning leaves alone, innermost first: ordinary names, and below
them the steps up that lead out of a relative path. -/
structure Settled (rooted : Bool) (settled : List Bytes) : Prop where
  isName : ∀ n ∈ settled, IsName n
  split : ∃ plain count, settled = plain ++ List.replicate count above ∧
    (∀ n ∈ plain, n ≠ here ∧ n ≠ above) ∧ (rooted = true → count = 0)

theorem isName_above : IsName above :=
  ⟨by decide, by decide⟩

theorem Settled.nil (rooted : Bool) : Settled rooted [] :=
  ⟨by simp, [], 0, rfl, by simp, fun _ => rfl⟩

theorem push_above_nil (rooted : Bool) :
    push rooted [] above = if rooted then [] else [above] := rfl

theorem push_above_above (rooted : Bool) (rest : List Bytes) :
    push rooted (above :: rest) above = above :: above :: rest := rfl

theorem push_above_of_ne {rooted : Bool} {last : Bytes} {rest : List Bytes} (h : last ≠ above) :
    push rooted (last :: rest) above = rest := by
  have hne : (above == here) = false := by decide
  simp [push, hne, h]

theorem push_of_plain {rooted : Bool} {settled : List Bytes} {name : Bytes}
    (hhere : name ≠ here) (habove : name ≠ above) : push rooted settled name = name :: settled := by
  simp [push, hhere, habove]

theorem push_settled {rooted : Bool} {settled : List Bytes} {name : Bytes}
    (h : Settled rooted settled) (hname : IsName name) : Settled rooted (push rooted settled name) := by
  obtain ⟨hnames, plain, count, rfl, hplain, hrooted⟩ := h
  by_cases hhere : name = here
  · subst hhere
    exact ⟨hnames, plain, count, rfl, hplain, hrooted⟩
  · by_cases habove : name = above
    · subst habove
      -- A step up takes back an ordinary name, and only without one does it stay.
      match plain, count with
      | last :: plain, count =>
          rw [List.cons_append, push_above_of_ne (hplain last (by simp)).2]
          exact ⟨fun n hn => hnames n (by simp_all), plain, count, rfl,
            fun n hn => hplain n (by simp [hn]), hrooted⟩
      | [], 0 =>
          rw [List.replicate_zero, List.append_nil, push_above_nil]
          cases rooted with
          | true => exact Settled.nil true
          | false => exact ⟨by simpa using isName_above, [], 1, rfl, by simp, by simp⟩
      | [], count + 1 =>
          rw [List.nil_append, List.replicate_succ, push_above_above]
          refine ⟨?_, [], count + 2, rfl, by simp, ?_⟩
          · intro n hn
            rw [List.eq_of_mem_replicate (n := count + 2) hn]
            exact isName_above
          · intro htrue
            have := hrooted htrue
            omega
    · rw [push_of_plain hhere habove]
      refine ⟨?_, name :: plain, count, rfl, ?_, hrooted⟩
      · rintro n (_ | ⟨_, hn⟩)
        · exact hname
        · exact hnames n hn
      · rintro n (_ | ⟨_, hn⟩)
        · exact ⟨hhere, habove⟩
        · exact hplain n hn

theorem foldl_push_settled {rooted : Bool} {settled ns : List Bytes} (h : Settled rooted settled)
    (hns : ∀ n ∈ ns, IsName n) : Settled rooted (ns.foldl (push rooted) settled) := by
  induction ns generalizing settled with
  | nil => exact h
  | cons n ns ih =>
      exact ih (push_settled h (hns n (by simp))) fun n hn => hns n (by simp [hn])

theorem settle_settled (path : Bytes) : Settled (isRooted path) (settle path) :=
  foldl_push_settled (Settled.nil _) fun _ => isName_of_mem_names

theorem foldl_push_of_plain {rooted : Bool} {settled ns : List Bytes}
    (h : ∀ n ∈ ns, n ≠ here ∧ n ≠ above) : ns.foldl (push rooted) settled = ns.reverse ++ settled := by
  induction ns generalizing settled with
  | nil => rfl
  | cons n ns ih =>
      have hn := h n (by simp)
      rw [List.foldl_cons, push_of_plain hn.1 hn.2, ih fun n hn => h n (by simp [hn])]
      simp

theorem foldl_push_above (count : Nat) :
    (List.replicate count above).foldl (push false) [] = List.replicate count above := by
  induction count with
  | zero => rfl
  | succ count ih =>
      rw [List.replicate_succ', List.foldl_append, ih, ← List.replicate_succ']
      cases count with
      | zero => rfl
      | succ count =>
          rw [List.replicate_succ, List.foldl_cons, push_above_above]
          rfl

/-- Settled names settle to themselves. -/
theorem foldl_push_reverse {rooted : Bool} {settled : List Bytes} (h : Settled rooted settled) :
    settled.reverse.foldl (push rooted) [] = settled := by
  obtain ⟨-, plain, count, rfl, hplain, hrooted⟩ := h
  have hfirst : (List.replicate count above).foldl (push rooted) [] =
      List.replicate count above := by
    cases rooted with
    | true => simp [hrooted rfl]
    | false => exact foldl_push_above count
  rw [List.reverse_append, List.reverse_replicate, List.foldl_append, hfirst,
    foldl_push_of_plain fun n hn => hplain n (List.mem_reverse.1 hn), List.reverse_reverse]

/-- The text of names, outermost first. -/
def assemble (rooted : Bool) (ns : List Bytes) : Bytes :=
  let body := joinWith slash ns
  if rooted then slash :: body
  else if body.isEmpty then here
  else body

theorem clean_eq_assemble (path : Bytes) :
    clean path = assemble (isRooted path) (settle path).reverse := rfl

theorem joinWith_eq_nil_iff {ns : List Bytes} (h : ∀ n ∈ ns, IsName n) :
    joinWith slash ns = [] ↔ ns = [] := by
  constructor
  · intro hnil
    have hnames := names_joinWith h
    rw [hnil] at hnames
    exact hnames.symm
  · rintro rfl
    rfl

theorem head?_joinWith {ns : List Bytes} (h : ∀ n ∈ ns, IsName n) :
    (joinWith slash ns).head? ≠ some slash := by
  cases ns with
  | nil => simp [joinWith]
  | cons n rest =>
      have hn := h n (by simp)
      cases n with
      | nil => exact absurd rfl hn.ne_nil
      | cons b n =>
          have hb : b ≠ slash := fun heq => hn.no_slash (by simp [heq])
          cases rest with
          | nil => simpa [joinWith] using hb
          | cons next rest => simpa [joinWith_cons_cons] using hb

theorem isRooted_assemble {rooted : Bool} {ns : List Bytes} (h : ∀ n ∈ ns, IsName n) :
    isRooted (assemble rooted ns) = rooted := by
  cases rooted with
  | true => rfl
  | false =>
      by_cases hbody : joinWith slash ns = []
      · simp [assemble, hbody]
        decide
      · have hhead := head?_joinWith h
        simp [assemble, hbody, isRooted, hhead]

theorem names_assemble {rooted : Bool} {ns : List Bytes} (h : ∀ n ∈ ns, IsName n) (hne : ns ≠ []) :
    names (assemble rooted ns) = ns := by
  have hbody : joinWith slash ns ≠ [] := by
    rw [Ne, joinWith_eq_nil_iff h]
    exact hne
  cases rooted with
  | true => exact (names_append_slash [] _).trans (names_joinWith h)
  | false => simpa [assemble, hbody] using names_joinWith h

theorem settle_assemble {rooted : Bool} {settled : List Bytes} (h : Settled rooted settled) :
    settle (assemble rooted settled.reverse) = settled := by
  have hnames : ∀ n ∈ settled.reverse, IsName n := fun n hn => h.isName n (List.mem_reverse.1 hn)
  rw [settle, isRooted_assemble hnames]
  by_cases hnil : settled = []
  · subst hnil
    cases rooted <;> rfl
  · rw [names_assemble hnames (by simpa using hnil), foldl_push_reverse h]

theorem isName_of_mem_settle {path n : Bytes} (h : n ∈ (settle path).reverse) : IsName n :=
  (settle_settled path).isName n (List.mem_reverse.1 h)

theorem isRooted_clean (path : Bytes) : isRooted (clean path) = isRooted path :=
  isRooted_assemble fun _ => isName_of_mem_settle

theorem settle_clean (path : Bytes) : settle (clean path) = settle path :=
  settle_assemble (settle_settled path)

theorem clean_clean (path : Bytes) : clean (clean path) = clean path := by
  rw [clean_eq_assemble, isRooted_clean, settle_clean, clean_eq_assemble]

theorem clean_ne_nil (path : Bytes) : clean path ≠ [] := by
  simp only [clean]
  split
  · simp
  · split
    next => decide
    next h => simpa using h

theorem isRooted_append {path : Bytes} (h : path ≠ []) (more : Bytes) :
    isRooted (path ++ more) = isRooted path := by
  cases path with
  | nil => exact absurd rfl h
  | cons b path => rfl

/-- Joining to a directory settles further names on top of those of the directory. -/
theorem join_eq_assemble {base : Bytes} (h : base ≠ []) (path : Bytes) :
    join base path = assemble (isRooted base)
      ((names path).foldl (push (isRooted base)) (settle base)).reverse := by
  have hempty : base.isEmpty = false := by simpa using h
  rw [join, hempty, if_neg (by decide), clean_eq_assemble, settle, isRooted_append h,
    names_append_slash, List.foldl_append]
  rfl

theorem join_clean {base : Bytes} (h : base ≠ []) (path : Bytes) :
    join (clean base) path = join base path := by
  rw [join_eq_assemble (clean_ne_nil base), join_eq_assemble h, isRooted_clean, settle_clean]

/-- A relative path means the same from nowhere as from the directory itself. -/
theorem join_nil_eq_join_here {path : Bytes} (hne : path ≠ []) (hrooted : isRooted path = false) :
    join [] path = join here path := by
  have hempty : path.isEmpty = false := by simpa using hne
  have hhere : here ≠ [] := by decide
  rw [join_eq_assemble hhere path, join, List.isEmpty_nil, if_pos rfl, hempty,
    if_neg (by decide), clean_eq_assemble, settle, hrooted]
  rfl

/-- Joining a relative path of ordinary names appends them. -/
theorem join_of_plain {base path : Bytes} (hne : path ≠ []) (hrooted : isRooted path = false)
    (hplain : ∀ n ∈ names path, n ≠ here ∧ n ≠ above) :
    join base path = assemble (isRooted base) ((settle base).reverse ++ names path) := by
  by_cases hbase : base = []
  · subst hbase
    rw [join_nil_eq_join_here hne hrooted, join_eq_assemble (by decide),
      foldl_push_of_plain hplain, List.reverse_append, List.reverse_reverse]
    rfl
  · rw [join_eq_assemble hbase, foldl_push_of_plain hplain, List.reverse_append,
      List.reverse_reverse]

theorem clean_append_slash {path : Bytes} (h : path ≠ []) : clean (path ++ [slash]) = clean path := by
  rw [clean_eq_assemble, settle, isRooted_append h, names_append_slash]
  simp [clean_eq_assemble, settle, names, splitOn]

theorem directory_assemble {rooted : Bool} {ns : List Bytes} {name : Bytes}
    (hns : ∀ n ∈ ns, IsName n) (hname : IsName name) :
    directory (assemble rooted (ns ++ [name])) = clean (assemble rooted ns) := by
  by_cases hnil : ns = []
  · subst hnil
    have hempty : name.isEmpty = false := by simpa using hname.ne_nil
    cases rooted with
    | true =>
        change clean (splitAfterLast slash ([] ++ slash :: name)).1 = _
        rw [splitAfterLast_append [] hname.no_slash]
        rfl
    | false =>
        have htext : assemble false ([] ++ [name]) = name := by
          simp [assemble, joinWith, hname.ne_nil]
        rw [htext, directory, splitAfterLast_of_not_mem hname.no_slash]
        rfl
  · have hbody : joinWith slash ns ≠ [] := (joinWith_eq_nil_iff hns).not.2 hnil
    have hfront : assemble rooted ns ≠ [] := by
      cases rooted <;> simp [assemble, hbody]
    have htext : assemble rooted (ns ++ [name]) = assemble rooted ns ++ slash :: name := by
      cases rooted <;> simp [assemble, joinWith_append_singleton slash hnil, hbody]
    rw [htext, directory, splitAfterLast_append _ hname.no_slash, clean_append_slash hfront]

/-- The directory of a file is the cleaned path of the directory it was joined to. -/
theorem directory_join {base name : Bytes} (hname : IsName name) (hhere : name ≠ here)
    (habove : name ≠ above) : directory (join base name) = clean base := by
  have hnames := names_of_isName hname
  have hrooted : isRooted name = false := by
    cases name with
    | nil => rfl
    | cons b name =>
        have hb : b ≠ slash := fun heq => hname.no_slash (by simp [heq])
        simpa [isRooted] using hb
  rw [join_of_plain hname.ne_nil hrooted (by simp [hnames, hhere, habove]), hnames,
    directory_assemble (fun _ => isName_of_mem_settle) hname, ← clean_eq_assemble, clean_clean]

end FilePath

end PlaceholderIcons
