import PlaceholderIcons.Icon.Document
import PlaceholderIcons.Proofs.IntegerText
import PlaceholderIcons.Proofs.PathNames
import PlaceholderIcons.Proofs.Utf8Decoding

/-!
Labels inside the document of an icon. The escaped label holds no byte that
could end the text or start a tag, and replacing its references by the
characters they stand for gives the label again, up to what markup cannot show.
A document therefore tells its size and its label apart, whatever bytes the
label is made of.
-/

namespace PlaceholderIcons

namespace Markup

/-- The references that escaped text may hold, with the characters they stand
for. -/
def references : List (Bytes × Char) :=
  [(utf8 "&amp;", '&'), (utf8 "&lt;", '<'), (utf8 "&gt;", '>'), (utf8 "&#34;", '"'),
    (utf8 "&#39;", '\''), (utf8 "&#x9;", '\t'), (utf8 "&#xA;", '\n'), (utf8 "&#xD;", '\r')]

/-- The reference that a text starts with. -/
def leading? (s : Bytes) : Option (Bytes × Char) :=
  references.find? fun r => r.1.isPrefixOf s

/-- The text with each reference replaced by the character it stands for. -/
def expand : Bytes → Bytes
  | [] => []
  | b :: s =>
      match leading? (b :: s) with
      | some r => Utf8.encodeChar r.2 ++ expand (s.drop (r.1.length - 1))
      | none => b :: expand s
termination_by s => s.length
decreasing_by
  · simp only [List.length_drop, List.length_cons]
    omega
  · exact Nat.lt_succ_self _

/-- Bytes that neither end a text nor start a tag nor control anything. -/
def isInert (b : UInt8) : Bool :=
  b != 0x3C && b != 0x3E && b != 0x22 && b != 0x27 && 0x20 ≤ b

/-- The characters of XML 1.0, as ranges with both their ends. -/
def characterRanges : List (Nat × Nat) :=
  [(0x9, 0x9), (0xA, 0xA), (0xD, 0xD), (0x20, 0xD7FF), (0xE000, 0xFFFD), (0x10000, 0x10FFFF)]

def IsCharacter (c : Char) : Prop :=
  ∃ range ∈ characterRanges, range.1 ≤ c.toNat ∧ c.toNat ≤ range.2

instance (c : Char) : Decidable (IsCharacter c) :=
  inferInstanceAs (Decidable (∃ range ∈ characterRanges, range.1 ≤ c.toNat ∧ c.toNat ≤ range.2))

/-- What stands for a piece of text in markup: a character of XML for itself, and
U+FFFD for any other and for a stray byte. -/
def substitute : Utf8.Piece → Char
  | .char c => if IsCharacter c then c else '\uFFFD'
  | .stray _ => '\uFFFD'

/-- The text with every character that XML does not have and every stray byte
replaced by U+FFFD. -/
def replaced (s : Bytes) : Bytes :=
  Utf8.encode ((Utf8.decode s).map substitute)

theorem isCharacter_iff {c : Char} :
    IsCharacter c ↔ c.toNat = 0x9 ∨ c.toNat = 0xA ∨ c.toNat = 0xD ∨
      (0x20 ≤ c.toNat ∧ c.toNat ≤ 0xD7FF) ∨ (0xE000 ≤ c.toNat ∧ c.toNat ≤ 0xFFFD) ∨
      0x10000 ≤ c.toNat := by
  have hbound := Utf8.char_bound c
  simp only [IsCharacter, characterRanges, List.mem_cons, List.not_mem_nil, or_false,
    exists_eq_or_imp, exists_eq_left]
  omega

theorem isAllowed_iff {c : Char} : isAllowed c = true ↔ IsCharacter c := by
  rw [isCharacter_iff]
  simp only [isAllowed, Bool.or_eq_true, Bool.and_eq_true, beq_iff_eq, decide_eq_true_eq, or_assoc]

theorem shown_eq_substitute (piece : Utf8.Piece) : shown piece = substitute piece := by
  cases piece with
  | char c =>
    simp only [shown, Utf8.Piece.shown, substitute, isAllowed_iff]
    rfl
  | stray b => exact ite_self _

theorem isCharacter_substitute (piece : Utf8.Piece) : IsCharacter (substitute piece) := by
  have hreplacement : IsCharacter '\uFFFD' := by decide
  cases piece with
  | stray b => exact hreplacement
  | char c =>
    change IsCharacter (if IsCharacter c then c else '\uFFFD')
    split
    next h => exact h
    next => exact hreplacement

theorem mem_references_iff {text : Bytes} {c : Char} :
    (text, c) ∈ references ↔ reference? c = some text := by
  constructor
  · intro h
    simp only [references, List.mem_cons, Prod.mk.injEq, List.not_mem_nil, or_false] at h
    rcases h with ⟨rfl, rfl⟩ | ⟨rfl, rfl⟩ | ⟨rfl, rfl⟩ | ⟨rfl, rfl⟩ | ⟨rfl, rfl⟩ | ⟨rfl, rfl⟩ |
      ⟨rfl, rfl⟩ | ⟨rfl, rfl⟩ <;> rfl
  · intro h
    unfold reference? at h
    split at h
    case h_9 => cases h
    all_goals
      rw [← Option.some.inj h]
      simp [references]

/-- A reference starts with its only ampersand, and all its bytes are inert. -/
theorem reference_shape {r : Bytes × Char} (h : r ∈ references) :
    ∃ tail, r.1 = 0x26 :: tail ∧ 0x26 ∉ tail ∧ r.1.all isInert = true := by
  simp only [references, List.mem_cons, List.not_mem_nil, or_false] at h
  rcases h with rfl | rfl | rfl | rfl | rfl | rfl | rfl | rfl <;>
    exact ⟨_, rfl, by decide, by decide⟩

/-- No reference starts another one, so the one in front is found. -/
theorem leading?_append {r : Bytes × Char} (h : r ∈ references) (s : Bytes) :
    leading? (r.1 ++ s) = some r := by
  simp only [references, List.mem_cons, List.not_mem_nil, or_false] at h
  rcases h with rfl | rfl | rfl | rfl | rfl | rfl | rfl | rfl <;> rfl

theorem leading?_cons_of_ne {b : UInt8} (h : b ≠ 0x26) (s : Bytes) : leading? (b :: s) = none := by
  rw [leading?, List.find?_eq_none]
  intro r hr
  obtain ⟨tail, htext, -, -⟩ := reference_shape hr
  rw [htext, List.isPrefixOf_cons_cons, Bool.and_eq_true, beq_iff_eq]
  rintro ⟨hb, -⟩
  exact h hb.symm

theorem expand_reference {r : Bytes × Char} (h : r ∈ references) (s : Bytes) :
    expand (r.1 ++ s) = Utf8.encodeChar r.2 ++ expand s := by
  obtain ⟨tail, htext, -, -⟩ := reference_shape h
  have hleading := leading?_append h s
  rw [htext, List.cons_append] at hleading ⊢
  have hdrop : (tail ++ s).drop (r.1.length - 1) = s := by
    rw [htext]
    exact List.drop_left
  rw [expand, hleading]
  simp only [hdrop]

theorem expand_append {front : Bytes} (h : 0x26 ∉ front) (s : Bytes) :
    expand (front ++ s) = front ++ expand s := by
  induction front with
  | nil => rfl
  | cons b front ih =>
    rw [List.mem_cons, not_or] at h
    rw [List.cons_append, expand, leading?_cons_of_ne (Ne.symm h.1)]
    simp only [ih h.2, List.cons_append]

/-- Every ampersand in a text starts a reference. -/
def AmpersandsRefer (s : Bytes) : Prop :=
  ∀ rest, 0x26 :: rest <:+ s → ∃ r ∈ references, r.1 <+: 0x26 :: rest

theorem AmpersandsRefer.append {front s : Bytes} (h : 0x26 ∉ front) (hs : AmpersandsRefer s) :
    AmpersandsRefer (front ++ s) := by
  induction front with
  | nil => exact hs
  | cons b front ih =>
    rw [List.mem_cons, not_or] at h
    intro rest hrest
    rcases List.suffix_cons_iff.1 hrest with heq | hrest
    · exact absurd (List.cons.inj heq).1 h.1
    · exact ih h.2 rest hrest

theorem AmpersandsRefer.reference {r : Bytes × Char} {s : Bytes} (h : r ∈ references)
    (hs : AmpersandsRefer s) : AmpersandsRefer (r.1 ++ s) := by
  obtain ⟨tail, htext, htail, -⟩ := reference_shape h
  intro rest hrest
  rw [htext, List.cons_append] at hrest
  rcases List.suffix_cons_iff.1 hrest with heq | hrest
  · refine ⟨r, h, ?_⟩
    rw [heq, htext]
    exact List.prefix_append (0x26 :: tail) s
  · exact hs.append htail rest hrest

/-- A character that is written as itself has no ampersand among its bytes. -/
theorem ampersand_not_mem {c : Char} (h : reference? c = none) : 0x26 ∉ Utf8.encodeChar c := by
  intro hmem
  have hbyte := Utf8.toNat_of_mem_encodeChar hmem
  change 0x26 = c.toNat ∨ 0x80 ≤ 0x26 at hbyte
  obtain rfl : c = '&' := Char.ext (UInt32.toNat_inj.1 (show c.toNat = 0x26 by omega))
  cases h

/-- The two ways of writing a character: as one of the references, or as itself
without an ampersand. -/
theorem escapeChar_cases (c : Char) :
    (∃ text, (text, c) ∈ references ∧ escapeChar c = text) ∨
      (0x26 ∉ Utf8.encodeChar c ∧ reference? c = none ∧ escapeChar c = Utf8.encodeChar c) := by
  unfold escapeChar
  cases href : reference? c with
  | some text => exact .inl ⟨text, mem_references_iff.2 href, rfl⟩
  | none => exact .inr ⟨ampersand_not_mem href, rfl, rfl⟩

theorem expand_escapeChar (c : Char) (s : Bytes) :
    expand (escapeChar c ++ s) = Utf8.encodeChar c ++ expand s := by
  rcases escapeChar_cases c with ⟨text, href, htext⟩ | ⟨hfree, -, htext⟩
  · rw [htext]
    exact expand_reference href s
  · rw [htext]
    exact expand_append hfree s

theorem AmpersandsRefer.escapeChar {s : Bytes} (hs : AmpersandsRefer s) (c : Char) :
    AmpersandsRefer (escapeChar c ++ s) := by
  rcases escapeChar_cases c with ⟨text, href, htext⟩ | ⟨hfree, -, htext⟩
  · rw [htext]
    exact hs.reference href
  · rw [htext]
    exact hs.append hfree

theorem isInert_iff {b : UInt8} :
    isInert b = true ↔ b.toNat ≠ 0x3C ∧ b.toNat ≠ 0x3E ∧ b.toNat ≠ 0x22 ∧ b.toNat ≠ 0x27 ∧
      0x20 ≤ b.toNat := by
  simp [isInert, and_assoc, UInt8.le_iff_toNat_le, ← UInt8.toNat_inj]

/-- A character of XML that is written as itself is none of those that would be
read as markup. -/
theorem isInert_encodeChar {c : Char} (hc : IsCharacter c) (href : reference? c = none)
    {b : UInt8} (hb : b ∈ Utf8.encodeChar c) : isInert b = true := by
  have hne (d : Char) (hd : (reference? d).isSome = true) : c.toNat ≠ d.toNat := by
    intro heq
    obtain rfl : c = d := Char.ext (UInt32.toNat_inj.1 heq)
    rw [href] at hd
    cases hd
  have hquote := hne '"' rfl
  have hapostrophe := hne '\'' rfl
  have hless := hne '<' rfl
  have hgreater := hne '>' rfl
  have htab := hne '\t' rfl
  have hline := hne '\n' rfl
  have hreturn := hne '\r' rfl
  have hvisible : 0x20 ≤ c.toNat := by
    rw [isCharacter_iff] at hc
    change c.toNat ≠ 9 at htab
    change c.toNat ≠ 10 at hline
    change c.toNat ≠ 13 at hreturn
    omega
  have hbyte := Utf8.toNat_of_mem_encodeChar hb
  rw [isInert_iff]
  change c.toNat ≠ 0x22 at hquote
  change c.toNat ≠ 0x27 at hapostrophe
  change c.toNat ≠ 0x3C at hless
  change c.toNat ≠ 0x3E at hgreater
  omega

theorem isInert_escapeChar {c : Char} (hc : IsCharacter c) {b : UInt8}
    (hb : b ∈ escapeChar c) : isInert b = true := by
  rcases escapeChar_cases c with ⟨text, href, htext⟩ | ⟨-, href, htext⟩
  · obtain ⟨-, -, -, hinert⟩ := reference_shape href
    rw [htext] at hb
    exact List.all_eq_true.1 hinert b hb
  · rw [htext] at hb
    exact isInert_encodeChar hc href hb

theorem escape_eq (s : Bytes) :
    escape s = ((Utf8.decode s).map substitute).flatMap escapeChar := by
  simp only [escape, List.flatMap_map, shown_eq_substitute]

theorem isInert_of_mem_escape {s : Bytes} {b : UInt8} (hb : b ∈ escape s) : isInert b = true := by
  rw [escape_eq, List.flatMap_map] at hb
  obtain ⟨piece, -, hpiece⟩ := List.mem_flatMap.1 hb
  exact isInert_escapeChar (isCharacter_substitute piece) hpiece

theorem ampersandsRefer_escape (s : Bytes) : AmpersandsRefer (escape s) := by
  rw [escape_eq]
  induction (Utf8.decode s).map substitute with
  | nil =>
    intro rest hrest
    cases List.suffix_nil.1 hrest
  | cons c cs ih => exact ih.escapeChar c

theorem expand_escape (s : Bytes) : expand (escape s) = replaced s := by
  rw [escape_eq, replaced]
  induction (Utf8.decode s).map substitute with
  | nil => rw [List.flatMap_nil, expand]; rfl
  | cons c cs ih =>
    rw [List.flatMap_cons, expand_escapeChar, ih]
    rfl

/-- Texts are escaped alike exactly if they show alike. -/
theorem escape_eq_iff {s t : Bytes} : escape s = escape t ↔ replaced s = replaced t := by
  constructor
  · intro h
    rw [← expand_escape, h, expand_escape]
  · intro h
    have hchars := Utf8.encode_injective h
    rw [escape_eq, hchars, ← escape_eq]

end Markup

namespace Document

/-- Width and height are the size in decimal. -/
theorem exists_head_eq (size : Int64) :
    ∃ rest, head size =
      utf8 "<?xml version=\"1.0\"?>\n<!-- Generated by SVGo -->\n<svg" ++ utf8 " width=\"" ++
        Decimal.ofInt64 size ++ utf8 "\" height=\"" ++ Decimal.ofInt64 size ++ utf8 "\"" ++
        rest := by
  have hwidth : utf8 " width=\"" = utf8 " " ++ utf8 "width" ++ utf8 "=\"" := rfl
  have hheight : utf8 "\" height=\"" = utf8 "\"" ++ (utf8 " " ++ utf8 "height" ++ utf8 "=\"") := rfl
  refine ⟨utf8 "\n     xmlns=\"http://www.w3.org/2000/svg\"" ++
    utf8 "\n     xmlns:xlink=\"http://www.w3.org/1999/xlink\">\n" ++ background size ++
    labelStart size, ?_⟩
  simp only [head, frame, attr, hwidth, hheight, List.append_assoc]

/-- The size of a document is the text between its first quotes behind the
opening. -/
theorem size_eq_of_head_append {size size' : Int64} {s t : Bytes}
    (h : head size ++ s = head size' ++ t) : size = size' := by
  obtain ⟨rest, hrest⟩ := exists_head_eq size
  obtain ⟨rest', hrest'⟩ := exists_head_eq size'
  have hheight : utf8 "\" height=\"" = 0x22 :: utf8 " height=\"" := rfl
  simp only [hrest, hrest', hheight, List.append_assoc, List.cons_append,
    List.append_cancel_left_eq] at h
  have hquote (n : Int64) : 0x22 ∉ Decimal.ofInt64 n :=
    Decimal.not_mem_ofInt (by decide) (by decide) n.toInt
  have hsplit := congrArg (Bytes.splitOn 0x22) h
  rw [Bytes.splitOn_append_mark, Bytes.splitOn_append_mark,
    Bytes.splitOn_of_not_mem (hquote size),
    Bytes.splitOn_of_not_mem (hquote size')] at hsplit
  exact Decimal.ofInt64_injective (List.cons.inj hsplit).1

/-- Two documents are equal exactly if they have one size and their labels show
alike. -/
theorem render_inj {size size' : Int64} {label label' : Bytes} :
    render size label = render size' label' ↔
      size = size' ∧ Markup.replaced label = Markup.replaced label' := by
  rw [← Markup.escape_eq_iff]
  constructor
  · intro h
    simp only [render, List.append_assoc] at h
    obtain rfl := size_eq_of_head_append h
    exact ⟨rfl, List.append_cancel_right (List.append_cancel_left h)⟩
  · rintro ⟨rfl, hescape⟩
    rw [render, hescape, render]

/-- Behind the head, the text up to the next tag is the escaped label. -/
theorem takeWhile_drop_render (size : Int64) (label : Bytes) :
    ((render size label).drop (head size).length).takeWhile (· != 0x3C) = Markup.escape label := by
  have hinert : ∀ b ∈ Markup.escape label, (b != 0x3C) = true := by
    intro b hb
    have hb := Markup.isInert_iff.1 (Markup.isInert_of_mem_escape hb)
    rw [bne_iff_ne]
    rintro rfl
    exact hb.1 rfl
  have hfoot : foot.takeWhile (· != 0x3C) = [] := rfl
  rw [render, List.append_assoc, List.drop_left, List.takeWhile_append_of_pos hinert, hfoot,
    List.append_nil]

/-- No label changes the structure of a document, and every label can be read
back. The document is a head that carries the size, the escaped label and a
fixed foot; the label is the text up to the next tag, all its bytes are inert
and each ampersand in it starts a reference; expanding the references gives the
label as far as markup can show it. So documents are equal only if their sizes
are and their labels show alike. -/
theorem render_keeps_label (size : Int64) (label : Bytes) :
    render size label = head size ++ Markup.escape label ++ foot ∧
      (∃ rest, head size =
        utf8 "<?xml version=\"1.0\"?>\n<!-- Generated by SVGo -->\n<svg" ++ utf8 " width=\"" ++
          Decimal.ofInt64 size ++ utf8 "\" height=\"" ++ Decimal.ofInt64 size ++ utf8 "\"" ++
          rest) ∧
      ((render size label).drop (head size).length).takeWhile (· != 0x3C) = Markup.escape label ∧
      (∀ b ∈ Markup.escape label, Markup.isInert b = true) ∧
      (∀ rest, 0x26 :: rest <:+ Markup.escape label →
        ∃ r ∈ Markup.references, r.1 <+: 0x26 :: rest) ∧
      Markup.expand (Markup.escape label) = Markup.replaced label ∧
      ∀ (size' : Int64) (label' : Bytes), render size label = render size' label' ↔
        size = size' ∧ Markup.replaced label = Markup.replaced label' := by
  refine ⟨?_, exists_head_eq size, takeWhile_drop_render size label, ?_, ?_, ?_, ?_⟩
  · rw [render]
  · intro b hb
    exact Markup.isInert_of_mem_escape hb
  · exact Markup.ampersandsRefer_escape label
  · exact Markup.expand_escape label
  · intro size' label'
    exact render_inj

/-- A label that looks like a closing tag and a reference, with a control
character and a stray byte behind them. -/
def closingTag : Bytes :=
  utf8 "</text>&lt;" ++ [0x01, 0xFF]

theorem render_keeps_label_closingTag :
    Markup.escape closingTag = utf8 "&lt;/text&gt;&amp;lt;\uFFFD\uFFFD" ∧
      Markup.expand (Markup.escape closingTag) = utf8 "</text>&lt;\uFFFD\uFFFD" ∧
      (∃ r ∈ Markup.references, r.1 <+: 0x26 :: utf8 "amp;lt;\uFFFD\uFFFD") ∧
      render 16 closingTag = render 16 (utf8 "</text>&lt;\uFFFD\uFFFD") := by
  have hescape : Markup.escape closingTag = utf8 "&lt;/text&gt;&amp;lt;\uFFFD\uFFFD" := by decide
  have hreplaced : Markup.replaced closingTag = utf8 "</text>&lt;\uFFFD\uFFFD" := by decide
  obtain ⟨-, -, -, -, hrefer, hexpand, hequal⟩ := render_keeps_label 16 closingTag
  refine ⟨hescape, hexpand.trans hreplaced, ?_, (hequal 16 _).2 ⟨rfl, by decide⟩⟩
  apply hrefer
  rw [hescape]
  exact ⟨utf8 "&lt;/text&gt;", by decide⟩

end Document

end PlaceholderIcons
