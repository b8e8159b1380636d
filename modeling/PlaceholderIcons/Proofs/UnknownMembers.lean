import PlaceholderIcons.Proofs.JsonAcceptance
import PlaceholderIcons.Proofs.ManifestRewriting

/-!
Members that a manifest does not know. An insertion is described on the text:
a new member at any place of the outermost object, of the totals or of an icon,
with any JSON value behind any name that is not a field of that object. The
text stays readable and describes the same manifest.
-/

namespace PlaceholderIcons

/-- The characters that are equal to a character of a field name up to simple
case folding: besides the capital of a letter, the long s and the Kelvin sign. -/
def caseVariants (c : Char) : List Char :=
  if c = 's' then ['s', 'S', 'ſ']
  else if c = 'k' then ['k', 'K', Char.ofNat 0x212A]
  else if c.isLower then [c, c.toUpper]
  else [c]

/-- The name is that of the field, character by character and up to case. -/
def NameMatches (field : String) (name : Bytes) : Prop :=
  List.Forall₂ (fun c f => c ∈ caseVariants f) (Utf8.shown name) field.toList

instance (field : String) (name : Bytes) : Decidable (NameMatches field name) :=
  inferInstanceAs (Decidable (List.Forall₂ _ _ _))

/-- The characters of which field names consist. -/
def fieldChars : List Char :=
  "abcdefghijklmnopqrstuvwxyz_".toList

theorem mem_caseVariants_toLower {c : Char} (h : c.isUpper = true) :
    c ∈ caseVariants c.toLower := by
  have hall : (List.range 26).all (fun n =>
      (caseVariants (Char.ofNat (65 + n)).toLower).contains (Char.ofNat (65 + n))) = true := by
    decide +kernel
  have hbounds : 65 ≤ c.toNat ∧ c.toNat ≤ 90 := of_decide_eq_true h
  have hc := List.all_eq_true.1 hall (c.toNat - 65) (List.mem_range.2 (by omega))
  rw [Nat.add_sub_cancel' hbounds.1, Char.ofNat_toNat, List.contains_iff_mem] at hc
  exact hc

/-- The variants of a character of field names are what folds to it. -/
theorem foldCase_eq_iff {c f : Char} (hf : f ∈ fieldChars) :
    foldCase c = f ↔ c ∈ caseVariants f := by
  constructor
  · rintro rfl
    unfold foldCase at hf ⊢
    split
    next hupper => exact mem_caseVariants_toLower hupper
    next hupper =>
      rw [if_neg hupper] at hf
      split
      next hlong =>
        obtain rfl : c = 'ſ' := Char.ext (UInt32.toNat_inj.1 hlong)
        decide
      next hlong =>
        rw [if_neg hlong] at hf
        split
        next hkelvin =>
          obtain rfl : c = Char.ofNat 0x212A := Char.ext (UInt32.toNat_inj.1 hkelvin)
          decide
        next hkelvin =>
          rw [if_neg hkelvin] at hf
          have hall : fieldChars.all (fun f => (caseVariants f).contains f) = true := by
            decide +kernel
          exact List.contains_iff_mem.1 (List.all_eq_true.1 hall c hf)
  · intro hc
    have hall : fieldChars.all (fun f => (caseVariants f).all (foldCase · == f)) = true := by
      decide +kernel
    exact eq_of_beq (List.all_eq_true.1 (List.all_eq_true.1 hall f hf) c hc)

theorem forall₂_congr_right {α β : Type} {R S : α → β → Prop} {ys : List β}
    (h : ∀ y ∈ ys, ∀ x, R x y ↔ S x y) {xs : List α} :
    List.Forall₂ R xs ys ↔ List.Forall₂ S xs ys := by
  induction ys generalizing xs with
  | nil => rw [List.forall₂_nil_right_iff, List.forall₂_nil_right_iff]
  | cons y ys ih =>
    obtain ⟨hy, hys⟩ := List.forall_mem_cons.1 h
    simp only [List.forall₂_cons_right_iff, hy, ih hys]

/-- Names are compared up to simple case folding. -/
theorem isField_iff {field : String} (h : field.toList.all fieldChars.contains = true)
    {name : Bytes} : isField field name = true ↔ NameMatches field name := by
  have hfold : isField field name = ((Utf8.shown name).map foldCase == field.toList) := by
    rw [isField, Utf8.shown, List.map_map]
    rfl
  rw [hfold, beq_iff_eq, ← List.forall₂_eq_eq_eq, List.forall₂_map_left_iff]
  apply forall₂_congr_right
  intro f hmem c
  exact foldCase_eq_iff (List.contains_iff_mem.1 (List.all_eq_true.1 h f hmem))

/-- A name that matches one field matches another only if they are the same. -/
theorem isField_of_isField {field other : String} {name : Bytes} (h : isField field name = true) :
    isField other name = (field.toList == other.toList) := by
  rw [isField, eq_of_beq h]

namespace Manifest

open Json

/-- The objects that are read member by member. -/
inductive Part where
  | manifest
  | totals
  | icons
  | icon

namespace Part

/-- What the members of an object are added to. -/
def State : Part → Type
  | .manifest => Manifest
  | .totals => Totals
  | .icons => Table Bytes IconRecord
  | .icon => IconRecord

def update : (part : Part) → part.State → Bytes × Json → Option part.State
  | .manifest => Manifest.update
  | .totals => Totals.update
  | .icons => Manifest.addIcon
  | .icon => IconRecord.update

/-- The fields of an object. Icons have none: every name is the target of one. -/
def fields? : Part → Option (List String)
  | .manifest => some ["version", "generated_at", "set", "root", "icons", "stats"]
  | .totals => some ["total_icons", "total_bytes"]
  | .icons => none
  | .icon => some ["path", "size", "label", "bytes", "hash", "label_fits"]

/-- The member of this name holds another object of the manifest. -/
inductive Inside : Part → Bytes → Part → Prop where
  | icons {name : Bytes} (h : NameMatches "icons" name) : Inside .manifest name .icons
  | totals {name : Bytes} (h : NameMatches "stats" name) : Inside .manifest name .totals
  | icon (name : Bytes) : Inside .icons name .icon

theorem fields?_lettered {part : Part} {fields : List String} (h : part.fields? = some fields) :
    ∀ field ∈ fields, field.toList.all fieldChars.contains = true := by
  have hall : [Part.manifest, .totals, .icons, .icon].all (fun part =>
      (part.fields?.getD []).all fun field => field.toList.all fieldChars.contains) = true := by
    decide +kernel
  have hpart : part ∈ [Part.manifest, .totals, .icons, .icon] := by cases part <;> simp
  have hfields := List.all_eq_true.1 hall part hpart
  rw [h] at hfields
  exact List.all_eq_true.1 hfields

/-- A member that is no field changes nothing, whatever its value. -/
theorem update_of_unknown {part : Part} {fields : List String} (hfields : part.fields? = some fields)
    {name : Bytes} (hname : ∀ field ∈ fields, ¬ NameMatches field name) (s : part.State)
    (value : Json) : part.update s (name, value) = some s := by
  have hunknown : ∀ field ∈ fields, isField field name = false := by
    intro field hfield
    rw [Bool.eq_false_iff, Ne, isField_iff (fields?_lettered hfields field hfield)]
    exact hname field hfield
  cases part with
  | icons => cases hfields
  | manifest | totals | icon =>
    cases hfields
    simp only [List.mem_cons, List.not_mem_nil, or_false, forall_eq_or_imp, forall_eq] at hunknown
    simp only [update, Manifest.update, Totals.update, IconRecord.update, hunknown,
      Bool.false_eq_true, if_false]
    rfl

/-- Members that amount to the same inside an object amount to the same around it. -/
theorem Inside.update_congr {part inner : Part} {name : Bytes} (h : Inside part name inner)
    {entries entries' : List (Bytes × Json)}
    (hentries : ∀ s, entries'.foldlM inner.update s = entries.foldlM inner.update s)
    (s : part.State) :
    part.update s (name, .object entries') = part.update s (name, .object entries) := by
  cases h with
  | icons h =>
    have hfield : isField "icons" name = true := (isField_iff (by decide +kernel)).2 h
    have hsame : readIcons (Manifest.icons s) (.object entries') =
        readIcons (Manifest.icons s) (.object entries) :=
      congrArg (Option.map some) (hentries _)
    simp only [update, Manifest.update, hfield, if_true, hsame]
    rfl
  | totals h =>
    have hfield : isField "stats" name = true := (isField_iff (by decide +kernel)).2 h
    have hicons : isField "icons" name = false := (isField_of_isField hfield).trans (by decide)
    have hsame : asObject Totals.update (Manifest.totals s) (.object entries') =
        asObject Totals.update (Manifest.totals s) (.object entries) := hentries _
    simp only [update, Manifest.update, hicons, Bool.false_eq_true, if_false, hsame]
    rfl
  | icon =>
    have hsame : asObject IconRecord.update IconRecord.zero (.object entries') =
        asObject IconRecord.update IconRecord.zero (.object entries) := hentries _
    simp only [update, Manifest.addIcon, hsame]
    rfl

end Part

/-- The second text is the first one, an object nested at most `depth` deep, with
one member inserted: into the object itself, or into an object of the manifest
inside it. The new member has no known name, and its value is any JSON text for
which there is room. -/
inductive Inserted : Part → (depth : Nat) → Bytes → Bytes → Prop where
  | member {part : Part} {depth : Nat} {fields : List String} {blanks name : Bytes}
      {front back : List MemberText} {new : MemberText} (hfields : part.fields? = some fields)
      (hblanks : Blank blanks) (hfront : ValidMembers depth front)
      (hback : ValidMembers depth back) (hnew : ValidMembers depth [new])
      (hname : stringValue? new.body = some name)
      (hunknown : ∀ field ∈ fields, ¬ NameMatches field name) :
      Inserted part (depth + 1) (objectText blanks (front ++ back))
        (objectText blanks (front ++ new :: back))
  | inside {part inner : Part} {depth : Nat} {blanks name value : Bytes}
      {front back : List MemberText} {m : MemberText} (hblanks : Blank blanks)
      (hfront : ValidMembers depth front) (hback : ValidMembers depth back) (hm : m.IsNamed)
      (hname : stringValue? m.body = some name) (hinside : part.Inside name inner)
      (hvalue : Inserted inner depth m.value value) :
      Inserted part (depth + 1) (objectText blanks (front ++ m :: back))
        (objectText blanks (front ++ { m with value := value } :: back))
  | padded {part : Part} {depth : Nat} {lead text text' trail : Bytes} (hlead : Blank lead)
      (htrail : Blank trail) (h : Inserted part depth text text') :
      Inserted part depth (lead ++ (text ++ trail)) (lead ++ (text' ++ trail))

theorem exists_entries {depth : Nat} {members : List MemberText} (h : ValidMembers depth members) :
    ∃ entries, List.Forall₂ (MemberText.Means depth) members entries :=
  exists_forall₂ fun m hm => MemberText.exists_means (h m hm).1 (h m hm).2.exists_means

/-- Both texts are objects, and their members have the same effect. -/
theorem Inserted.exists_means {part : Part} {depth : Nat} {text text' : Bytes}
    (h : Inserted part depth text text') :
    ∃ entries entries', Means depth text (.object entries) ∧ Means depth text' (.object entries') ∧
      ∀ s, entries'.foldlM part.update s = entries.foldlM part.update s := by
  induction h with
  | @member part depth fields blanks name front back new hfields hblanks hfront hback hnew hname
      hunknown =>
    obtain ⟨first, hfirst⟩ := exists_entries hfront
    obtain ⟨second, hsecond⟩ := exists_entries hback
    obtain ⟨hnamed, hvalid⟩ := hnew new List.mem_cons_self
    obtain ⟨value, hvalue⟩ := hvalid.exists_means
    have hentry : new.Means depth (name, value) := ⟨hnamed, hname, hvalue⟩
    refine ⟨first ++ second, first ++ (name, value) :: second,
      means_object hblanks (List.rel_append hfirst hsecond),
      means_object hblanks (List.rel_append hfirst (.cons hentry hsecond)), ?_⟩
    intro s
    rw [List.foldlM_append, List.foldlM_append]
    refine bind_congr fun reached => ?_
    exact foldlM_cons_some (Part.update_of_unknown hfields hunknown reached value)
  | @inside part inner depth blanks name value front back m hblanks hfront hback hm hname
      hinside _ ih =>
    obtain ⟨inside, inside', hold, hnew, hsame⟩ := ih
    obtain ⟨first, hfirst⟩ := exists_entries hfront
    obtain ⟨second, hsecond⟩ := exists_entries hback
    have hentry : m.Means depth (name, .object inside) := ⟨hm, hname, hold⟩
    have hentry' : MemberText.Means depth { m with value := value } (name, .object inside') :=
      ⟨⟨hm.lead, hm.body, hm.gap⟩, hname, hnew⟩
    refine ⟨first ++ (name, .object inside) :: second, first ++ (name, .object inside') :: second,
      means_object hblanks (List.rel_append hfirst (.cons hentry hsecond)),
      means_object hblanks (List.rel_append hfirst (.cons hentry' hsecond)), ?_⟩
    intro s
    rw [List.foldlM_append, List.foldlM_append]
    refine bind_congr fun reached => ?_
    rw [List.foldlM_cons, List.foldlM_cons, hinside.update_congr hsame]
  | padded hlead htrail _ ih =>
    obtain ⟨entries, entries', hold, hnew, hsame⟩ := ih
    exact ⟨entries, entries', hold.padded hlead htrail, hnew.padded hlead htrail, hsame⟩

theorem parse_of_inserted {content content' : Bytes}
    (h : Inserted .manifest maxDepth content content') : parse content' = parse content := by
  obtain ⟨entries, entries', hold, hnew, hsame⟩ := h.exists_means
  have hjson : ofJson? (.object entries') = ofJson? (.object entries) := hsame zero
  rw [parse, parse, hold.parse?_eq, hnew.parse?_eq]
  simp only [hjson]

theorem valid_of_parse {content : Bytes} {m : Manifest} (h : parse content = .ok m) :
    Json.Valid maxDepth content := by
  rw [← exists_parse?_iff_valid]
  unfold parse at h
  split at h
  next => cases h
  next value hvalue => exact ⟨value, hvalue⟩

/-- Any file that can be loaded is a JSON text, and with an unknown member
inserted at any place it can still be loaded, as the same manifest. -/
theorem load_of_inserted {path content : Bytes} {tree : FileTree} {m : Manifest}
    (hfile : tree.find path = .ok (.file content))
    (hload : ((load path : FileTreeM _).run tree).1 = .ok m) :
    Json.Valid maxDepth content ∧
      ∀ content', Inserted .manifest maxDepth content content' →
        ∀ (path' : Bytes) (tree' : FileTree), tree'.find path' = .ok (.file content') →
          (load path' : FileTreeM _).run tree' = (.ok m, tree') := by
  obtain ⟨found, hread, hparse⟩ := parse_of_load hload
  obtain rfl : content = found := by
    rw [FileTree.read, hfile] at hread
    exact Except.ok.inj hread
  constructor
  · exact valid_of_parse hparse
  · intro content' hinserted path' tree' hfile'
    rw [load_of_find hfile', parse_of_inserted hinserted, hparse]
    rfl

/-- A manifest with one icon. -/
def oneIcon : Bytes :=
  utf8 "\x7b\"set\":\"x\",\"Icons\":\x7b\"a\":\x7b\"Size\":7\x7d\x7d\x7d"

/-- The same with a member in the icon whose value holds the name of a field. -/
def oneIconExtended : Bytes :=
  utf8 "\x7b\"set\":\"x\",\"Icons\":\x7b\"a\":\x7b\"Size\":7" ++
    utf8 ", \"extra\":\x7b\"size\":[null,-1.5e3]\x7d\x7d\x7d\x7d"

theorem inserted_oneIcon : Inserted .manifest maxDepth oneIcon oneIconExtended := by
  have hplain {depth : Nat} {lead body value : Bytes} (hlead : Blank lead)
      (hbody : body.all (fun b => IsPlainByte b) = true) (hvalue : Json.Valid depth value) :
      ValidMembers depth [⟨lead, body, [], value⟩] :=
    List.forall_mem_singleton.2 ⟨⟨hlead, stringBody_of_plain hbody, blank_nil⟩, hvalue⟩
  have hnone {depth : Nat} : ValidMembers depth [] := List.forall_mem_nil _
  have hblank : Blank (utf8 " ") := List.all_eq_true.1 (by decide)
  have hset : ValidMembers 9999 [⟨[], utf8 "set", [], quoted (utf8 "x")⟩] :=
    hplain blank_nil (by decide) (.string (stringBody_of_plain (by decide)))
  have hsize : ValidMembers 9997 [⟨[], utf8 "Size", [], utf8 "7"⟩] :=
    hplain blank_nil (by decide) (.number (isNumber_iff.1 (by decide)))
  have hitems : Json.Valid 9996 (arrayText [] [utf8 "null", utf8 "-1.5e3"]) :=
    .array blank_nil (List.forall_mem_cons.2
      ⟨.null, List.forall_mem_singleton.2 (.number (isNumber_iff.1 (by decide)))⟩)
  have hextra : ValidMembers 9997 [⟨utf8 " ", utf8 "extra", [],
      objectText [] [⟨[], utf8 "size", [], arrayText [] [utf8 "null", utf8 "-1.5e3"]⟩]⟩] :=
    hplain hblank (by decide) ((hplain blank_nil (by decide) hitems).valid blank_nil)
  have hunknown : ∀ field ∈ ["path", "size", "label", "bytes", "hash", "label_fits"],
      ¬ NameMatches field (utf8 "extra") := by
    have hall : ["path", "size", "label", "bytes", "hash", "label_fits"].all
        (fun field => ¬ NameMatches field (utf8 "extra")) = true := by decide
    exact fun field hfield => of_decide_eq_true (List.all_eq_true.1 hall field hfield)
  have hnamed (body value : Bytes) (hbody : body.all (fun b => IsPlainByte b) = true) :
      MemberText.IsNamed ⟨[], body, [], value⟩ :=
    ⟨blank_nil, stringBody_of_plain hbody, blank_nil⟩
  have hfields : Part.icon.fields? =
      some ["path", "size", "label", "bytes", "hash", "label_fits"] := rfl
  have hicons : NameMatches "icons" (utf8 "Icons") := by decide
  have hicon := Inserted.member hfields blank_nil hsize hnone hextra rfl hunknown
  have htable := Inserted.inside blank_nil hnone hnone (hnamed (utf8 "a") _ (by decide)) rfl
    (.icon (utf8 "a")) hicon
  exact Inserted.inside blank_nil hset hnone (hnamed (utf8 "Icons") _ (by decide)) rfl
    (.icons hicons) htable

def oneIconTree (content : Bytes) : FileTree :=
  ((FileTree.fresh [utf8 "w"]).write (utf8 "in") content).2

def oneIconManifest : Manifest :=
  { Manifest.zero with
    set := utf8 "x"
    icons := some (Table.ofList [(utf8 "a", { IconRecord.zero with size := 7 })]) }

theorem load_of_inserted_oneIcon :
    ((load (utf8 "in") : FileTreeM _).run (oneIconTree oneIcon)).1 = .ok oneIconManifest ∧
      Inserted .manifest maxDepth oneIcon oneIconExtended ∧
      ((load (utf8 "in") : FileTreeM _).run (oneIconTree oneIconExtended)).1 =
        .ok oneIconManifest := by
  have hload : ((load (utf8 "in") : FileTreeM _).run (oneIconTree oneIcon)).1 =
      .ok oneIconManifest := by decide +kernel
  have hextended := (load_of_inserted rfl hload).2 _ inserted_oneIcon (utf8 "in")
    (oneIconTree oneIconExtended) rfl
  exact ⟨hload, inserted_oneIcon, by rw [hextended]⟩

end Manifest

end PlaceholderIcons
