import Mathlib.Data.List.TakeWhile
import PlaceholderIcons.Proofs.JsonScanning

/-!
The grammar of JSON literals, said of their bytes alone: numbers, and what
stands between the quotes of a string. The checks of literals accept exactly
these texts. A string is checked by its characters, so it has to be shown that
no byte of a longer character is mistaken for a quote or a backslash.
-/

namespace PlaceholderIcons

namespace Utf8

/-- What a byte that is not ASCII begins: a piece that holds no ASCII byte and is
not shown as an ASCII character. -/
def BeginsHigh (a : UInt8) (s : Bytes) : Prop :=
  ∃ p front rest, decode (a :: s) = p :: decode rest ∧ s = front ++ rest ∧
    (∀ b ∈ front, 0x80 ≤ b.toNat) ∧ 0x80 ≤ p.shown.toNat

theorem beginsHigh_of_char {a : UInt8} (h : 0x80 ≤ a.toNat) {c : Char} {front : Bytes}
    (hsource : encodeChar c = a :: front) (rest : Bytes) : BeginsHigh a (front ++ rest) := by
  have hdecode : decode (a :: (front ++ rest)) = .char c :: decode rest := by
    rw [← List.cons_append, ← hsource, decode_encodeChar_append]
  have hc : 0x80 ≤ c.toNat := by
    by_cases hlow : c.toNat < 0x80
    · rw [encodeChar_of_lt hlow] at hsource
      have ha := congrArg UInt8.toNat (List.cons.inj hsource).1
      rw [toNat_ofNat (by omega)] at ha
      omega
    · exact Nat.le_of_not_lt hlow
  refine ⟨.char c, front, rest, hdecode, rfl, ?_, hc⟩
  intro b hb
  have hmem : b ∈ encodeChar c := hsource ▸ List.mem_cons_of_mem a hb
  rcases toNat_of_mem_encodeChar hmem with heq | hhigh
  · omega
  · exact hhigh

theorem beginsHigh_of_stray {a : UInt8} {s : Bytes} (hdecode : decode (a :: s) = .stray a :: decode s) :
    BeginsHigh a s := by
  refine ⟨.stray a, [], s, hdecode, rfl, by simp, ?_⟩
  have hreplacement : 0x80 ≤ replacement.toNat := by decide
  exact hreplacement

theorem beginsHigh_of_high {a : UInt8} (h : 0x80 ≤ a.toNat) (s : Bytes) : BeginsHigh a s := by
  rcases decode_cases (a :: s) with hnil | ⟨c, rest, hchar⟩ | ⟨b, rest, hcons, hstray⟩
  · cases hnil
  · obtain ⟨lead, front, hsource⟩ := List.exists_cons_of_ne_nil (encodeChar_ne_nil c)
    rw [hsource] at hchar
    obtain ⟨rfl, rfl⟩ := List.cons.inj hchar
    exact beginsHigh_of_char h hsource rest
  · obtain ⟨rfl, rfl⟩ := List.cons.inj hcons
    exact beginsHigh_of_stray hstray

/-- The characters that a text is shown as. -/
def shown (s : Bytes) : List Char :=
  (decode s).map Piece.shown

theorem one?_of_low {a : UInt8} (h : a.toNat < 0x80) : one? a = some (Char.ofNat a.toNat) :=
  if_pos (UInt8.lt_iff_toNat_lt.2 h)

theorem toNat_char_of_low {a : UInt8} (h : a.toNat < 0x80) :
    (Char.ofNat a.toNat).toNat = a.toNat :=
  (one?_eq_some_iff.1 (one?_of_low h)).2

theorem shown_of_low {a : UInt8} (h : a.toNat < 0x80) (s : Bytes) :
    shown (a :: s) = Char.ofNat a.toNat :: shown s := by
  rw [shown, decode_of_one (one?_of_low h)]
  rfl

theorem shown_of_high {a : UInt8} (h : 0x80 ≤ a.toNat) (s : Bytes) :
    ∃ c front rest, shown (a :: s) = c :: shown rest ∧ s = front ++ rest ∧
      (∀ b ∈ front, 0x80 ≤ b.toNat) ∧ 0x80 ≤ c.toNat := by
  obtain ⟨p, front, rest, hdecode, hsplit, hfront, hp⟩ := beginsHigh_of_high h s
  refine ⟨p.shown, front, rest, ?_, hsplit, hfront, hp⟩
  rw [shown, hdecode]
  rfl

/-- An ASCII character is only ever shown for its own byte. -/
theorem exists_of_shown_eq_cons {s : Bytes} {c : Char} {cs : List Char} (h : shown s = c :: cs)
    (hc : c.toNat < 0x80) : ∃ rest, s = UInt8.ofNat c.toNat :: rest ∧ shown rest = cs := by
  cases s with
  | nil => cases h
  | cons a s =>
    by_cases hlow : a.toNat < 0x80
    · rw [shown_of_low hlow] at h
      obtain ⟨rfl, rfl⟩ := List.cons.inj h
      refine ⟨s, ?_, rfl⟩
      rw [toNat_char_of_low hlow, UInt8.ofNat_toNat]
    · obtain ⟨d, front, rest, hshown, -, -, hd⟩ := shown_of_high (Nat.le_of_not_lt hlow) s
      rw [hshown] at h
      obtain ⟨rfl, -⟩ := List.cons.inj h
      omega

end Utf8

namespace Json

/-- Nothing but blanks. -/
def Blank (s : Bytes) : Prop :=
  ∀ b ∈ s, isBlank b = true

/-- One digit or more. -/
structure Digits (s : Bytes) : Prop where
  ne_nil : s ≠ []
  digits : ∀ b ∈ s, Decimal.isDigit b = true

/-- The digits in front of a fraction: no zero stands in front of others. -/
inductive Whole : Bytes → Prop where
  | zero : Whole (utf8 "0")
  | digits {b : UInt8} {s : Bytes} (hb : b ≠ 0x30) (h : Digits (b :: s)) : Whole (b :: s)

inductive Fraction : Bytes → Prop where
  | absent : Fraction []
  | present {s : Bytes} (h : Digits s) : Fraction (0x2E :: s)

/-- A power of ten behind `e` or `E`, with or without a sign. -/
inductive Exponent : Bytes → Prop where
  | absent : Exponent []
  | unsigned {mark : UInt8} {s : Bytes} (hmark : mark ∈ utf8 "eE") (h : Digits s) :
      Exponent (mark :: s)
  | signed {mark sign : UInt8} {s : Bytes} (hmark : mark ∈ utf8 "eE") (hsign : sign ∈ utf8 "+-")
      (h : Digits s) : Exponent (mark :: sign :: s)

inductive NumberText : Bytes → Prop where
  | mk {sign whole fraction exponent : Bytes} (hsign : sign = [] ∨ sign = utf8 "-")
      (hwhole : Whole whole) (hfraction : Fraction fraction) (hexponent : Exponent exponent) :
      NumberText (sign ++ (whole ++ (fraction ++ exponent)))

/-- A byte that stands for itself inside a string: no control, no quote and no
backslash. Bytes that are not ASCII need not be well-formed. -/
structure IsPlainByte (b : UInt8) : Prop where
  visible : 0x20 ≤ b.toNat
  ne_quote : b ≠ 0x22
  ne_backslash : b ≠ 0x5C

/-- The letters that may stand behind a backslash, `u` apart. -/
def escapeLetters : Bytes := utf8 "\"\\/bfnrt"

def IsHexDigit (b : UInt8) : Prop :=
  b ∈ utf8 "0123456789abcdefABCDEF"

/-- What stands between the quotes of a string. -/
inductive StringBody : Bytes → Prop where
  | nil : StringBody []
  | plain {b : UInt8} {rest : Bytes} (hb : IsPlainByte b) (hrest : StringBody rest) :
      StringBody (b :: rest)
  | letter {b : UInt8} {rest : Bytes} (hb : b ∈ escapeLetters) (hrest : StringBody rest) :
      StringBody (0x5C :: b :: rest)
  | number {a b c d : UInt8} {rest : Bytes} (hdigits : ∀ x ∈ [a, b, c, d], IsHexDigit x)
      (hrest : StringBody rest) : StringBody (0x5C :: 0x75 :: a :: b :: c :: d :: rest)

section

open Decimal

theorem Digits.isEmpty_eq_false {s : Bytes} (h : Digits s) : s.isEmpty = false := by
  simpa using h.ne_nil

/-- Digits are taken up to the first other byte. -/
theorem Digits.span {s rest : Bytes} (h : Digits s) (hrest : ∀ b ∈ rest.head?, isDigit b = false) :
    (s ++ rest).takeWhile isDigit = s ∧ (s ++ rest).dropWhile isDigit = rest := by
  rw [List.takeWhile_append_of_pos h.digits, List.dropWhile_append_of_pos h.digits]
  cases rest with
  | nil => simp
  | cons b rest => simp [hrest b rfl]

theorem digits_takeWhile {s : Bytes} (h : (s.takeWhile isDigit).isEmpty = false) :
    Digits (s.takeWhile isDigit) :=
  ⟨by simpa using h, fun _ hb => List.mem_takeWhile_imp hb⟩

theorem Exponent.head_not_digit {s : Bytes} (h : Exponent s) :
    ∀ b ∈ s.head?, isDigit b = false := by
  have hmarks : (utf8 "eE").all (fun mark => isDigit mark == false) = true := by decide
  have hmark {mark : UInt8} (h : mark ∈ utf8 "eE") : isDigit mark = false :=
    eq_of_beq (List.all_eq_true.1 hmarks mark h)
  intro b hb
  cases h with
  | absent => cases hb
  | unsigned h _ => exact Option.some.inj hb ▸ hmark h
  | signed h _ _ => exact Option.some.inj hb ▸ hmark h

theorem Fraction.head_not_digit {fraction exponent : Bytes} (hfraction : Fraction fraction)
    (hexponent : Exponent exponent) : ∀ b ∈ (fraction ++ exponent).head?, isDigit b = false := by
  cases hfraction with
  | absent => exact hexponent.head_not_digit
  | present h =>
    intro b hb
    rw [← Option.some.inj hb]
    decide

/-- The digits of an exponent, behind its sign if it has one. -/
def exponentDigits (b : UInt8) (rest : Bytes) : Bytes :=
  if b == 0x2B || b == 0x2D then rest else b :: rest

theorem isNumberTail_single {mark : UInt8} (h : mark ≠ 0x2E) : isNumberTail [mark] = false := by
  simp [isNumberTail, h]

theorem isNumberTail_cons {mark : UInt8} (h : mark ≠ 0x2E) (b : UInt8) (rest : Bytes) :
    isNumberTail (mark :: b :: rest) =
      ((mark == 0x65 || mark == 0x45) && !(exponentDigits b rest).isEmpty &&
        (exponentDigits b rest).all isDigit) := by
  simp [isNumberTail, exponentDigits, h]

theorem isNumberTail_point {rest : Bytes} (h : (rest.dropWhile isDigit).head? ≠ some 0x2E) :
    isNumberTail (0x2E :: rest) =
      (!(rest.takeWhile isDigit).isEmpty && isNumberTail (rest.dropWhile isDigit)) := by
  cases hdigits : (rest.takeWhile isDigit).isEmpty with
  | true => simp [isNumberTail, hdigits]
  | false =>
    cases hrest : rest.dropWhile isDigit with
    | nil => simp [isNumberTail, hdigits, hrest]
    | cons mark tail =>
      have hmark : mark ≠ 0x2E := by simpa [hrest] using h
      simp [isNumberTail, hdigits, hrest, hmark]

/-- There is no second point. -/
theorem isNumberTail_points {rest : Bytes} (h : (rest.dropWhile isDigit).head? = some 0x2E) :
    isNumberTail (0x2E :: rest) = false := by
  obtain ⟨tail, htail⟩ := List.head?_eq_some_iff.1 h
  cases hdigits : (rest.takeWhile isDigit).isEmpty with
  | true => simp [isNumberTail, hdigits]
  | false => simp [isNumberTail, hdigits, htail]

theorem mem_marks_iff {mark : UInt8} : mark ∈ utf8 "eE" ↔ (mark == 0x65 || mark == 0x45) = true := by
  change mark ∈ [0x65, 0x45] ↔ _
  simp

theorem mem_signs_iff {sign : UInt8} : sign ∈ utf8 "+-" ↔ (sign == 0x2B || sign == 0x2D) = true := by
  change sign ∈ [0x2B, 0x2D] ↔ _
  simp

theorem digits_iff {s : Bytes} : Digits s ↔ (!s.isEmpty && s.all isDigit) = true := by
  rw [Bool.and_eq_true_iff, List.all_eq_true, Bool.not_eq_true', List.isEmpty_eq_false_iff]
  exact ⟨fun h => ⟨h.ne_nil, h.digits⟩, fun h => ⟨h.1, h.2⟩⟩

theorem exponent_cons_iff {mark b : UInt8} {rest : Bytes} :
    Exponent (mark :: b :: rest) ↔ mark ∈ utf8 "eE" ∧ Digits (exponentDigits b rest) := by
  unfold exponentDigits
  constructor
  · intro h
    cases h with
    | unsigned hmark hdigits =>
      have hb : (b == 0x2B || b == 0x2D) = false := by
        have hdigit := hdigits.digits b List.mem_cons_self
        rw [Bool.eq_false_iff]
        intro hsign
        rcases Bool.or_eq_true_iff.1 hsign with hs | hs <;> rw [eq_of_beq hs] at hdigit <;>
          cases hdigit
      rw [if_neg (Bool.eq_false_iff.1 hb)]
      exact ⟨hmark, hdigits⟩
    | signed hmark hsign hdigits =>
      rw [if_pos (mem_signs_iff.1 hsign)]
      exact ⟨hmark, hdigits⟩
  · rintro ⟨hmark, hdigits⟩
    split at hdigits
    next hsign => exact .signed hmark (mem_signs_iff.2 hsign) hdigits
    next => exact .unsigned hmark hdigits

theorem isNumberTail_iff_exponent {s : Bytes} (h : s.head? ≠ some 0x2E) :
    isNumberTail s = true ↔ Exponent s := by
  cases s with
  | nil => exact iff_of_true rfl .absent
  | cons mark rest =>
    have hmark : mark ≠ 0x2E := by simpa using h
    cases rest with
    | nil =>
      rw [isNumberTail_single hmark]
      refine iff_of_false Bool.false_ne_true ?_
      intro hexponent
      cases hexponent with
      | unsigned _ hdigits => exact hdigits.ne_nil rfl
    | cons b rest =>
      rw [isNumberTail_cons hmark, exponent_cons_iff, mem_marks_iff, digits_iff, Bool.and_assoc,
        Bool.and_eq_true_iff]

theorem Exponent.head?_ne_point {s : Bytes} (h : Exponent s) : s.head? ≠ some 0x2E := by
  have hpoint : 0x2E ∉ utf8 "eE" := by decide
  cases h with
  | absent => exact nofun
  | unsigned hmark _ => exact fun heq => hpoint (Option.some.inj heq ▸ hmark)
  | signed hmark _ _ => exact fun heq => hpoint (Option.some.inj heq ▸ hmark)

/-- What stands behind the digits of a number is a fraction and an exponent. -/
theorem isNumberTail_iff {s : Bytes} : isNumberTail s = true ↔
    ∃ fraction exponent, Fraction fraction ∧ Exponent exponent ∧ s = fraction ++ exponent := by
  constructor
  · intro h
    by_cases hpoint : s.head? = some 0x2E
    · obtain ⟨rest, rfl⟩ := List.head?_eq_some_iff.1 hpoint
      by_cases hsecond : (rest.dropWhile isDigit).head? = some 0x2E
      · rw [isNumberTail_points hsecond] at h
        cases h
      · rw [isNumberTail_point hsecond, Bool.and_eq_true_iff, isNumberTail_iff_exponent hsecond] at h
        refine ⟨_, _, .present (digits_takeWhile (Bool.not_eq_eq_eq_not.1 h.1)), h.2, ?_⟩
        rw [List.cons_append, List.takeWhile_append_dropWhile]
    · exact ⟨[], s, .absent, (isNumberTail_iff_exponent hpoint).1 h, rfl⟩
  · rintro ⟨fraction, exponent, hfraction, hexponent, rfl⟩
    cases hfraction with
    | absent => exact (isNumberTail_iff_exponent hexponent.head?_ne_point).2 hexponent
    | @present digits hdigits =>
      obtain ⟨htake, hdrop⟩ := hdigits.span hexponent.head_not_digit
      have hsecond : ((digits ++ exponent).dropWhile isDigit).head? ≠ some 0x2E := by
        rw [hdrop]
        exact hexponent.head?_ne_point
      rw [List.cons_append, isNumberTail_point hsecond, htake, hdrop, hdigits.isEmpty_eq_false,
        (isNumberTail_iff_exponent hexponent.head?_ne_point).2 hexponent]
      rfl

theorem whole_iff {s : Bytes} :
    Whole s ↔ Digits s ∧ (s == [0x30] || s.head? != some 0x30) = true := by
  constructor
  · intro h
    cases h with
    | zero =>
      have hzero : (utf8 "0").all isDigit = true := by decide
      exact ⟨⟨by decide, List.all_eq_true.1 hzero⟩, by decide⟩
    | digits hb h => exact ⟨h, by simp [hb]⟩
  · rintro ⟨h, hleading⟩
    obtain ⟨b, rest, rfl⟩ := List.exists_cons_of_ne_nil h.ne_nil
    rcases Bool.or_eq_true_iff.1 hleading with hzero | hother
    · rw [eq_of_beq hzero]
      exact .zero
    · exact .digits (by simpa using hother) h

/-- The magnitude of a number, which is what stands behind a minus sign. -/
theorem isNumber_magnitude {s : Bytes} (h : isNumber s = true) :
    ∃ sign magnitude, (sign = [] ∨ sign = utf8 "-") ∧ s = sign ++ magnitude ∧
      Whole (magnitude.takeWhile isDigit) ∧
      isNumberTail (magnitude.dropWhile isDigit) = true := by
  have hparts {magnitude : Bytes}
      (hcheck : (!(magnitude.takeWhile isDigit).isEmpty &&
        (magnitude.takeWhile isDigit == [0x30] ||
          (magnitude.takeWhile isDigit).head? != some 0x30) &&
        isNumberTail (magnitude.dropWhile isDigit)) = true) :
      Whole (magnitude.takeWhile isDigit) ∧
        isNumberTail (magnitude.dropWhile isDigit) = true := by
    obtain ⟨hfront, htail⟩ := Bool.and_eq_true_iff.1 hcheck
    obtain ⟨hne, hleading⟩ := Bool.and_eq_true_iff.1 hfront
    exact ⟨whole_iff.2 ⟨digits_takeWhile (Bool.not_eq_eq_eq_not.1 hne), hleading⟩, htail⟩
  simp only [isNumber] at h
  split at h
  next rest => exact ⟨utf8 "-", rest, .inr rfl, rfl, hparts h⟩
  next => exact ⟨[], s, .inl rfl, rfl, hparts h⟩

/-- The check of numbers accepts exactly the texts of numbers. -/
theorem isNumber_iff {s : Bytes} : isNumber s = true ↔ NumberText s := by
  constructor
  · intro h
    obtain ⟨sign, magnitude, hsign, rfl, hwhole, htail⟩ := isNumber_magnitude h
    obtain ⟨fraction, exponent, hfraction, hexponent, hdrop⟩ := isNumberTail_iff.1 htail
    have hmagnitude : magnitude = magnitude.takeWhile isDigit ++ (fraction ++ exponent) := by
      rw [← hdrop, List.takeWhile_append_dropWhile]
    rw [hmagnitude]
    exact .mk hsign hwhole hfraction hexponent
  · rintro ⟨hsign, hwhole, hfraction, hexponent⟩
    rename_i sign whole fraction exponent
    obtain ⟨hdigits, hleading⟩ := whole_iff.1 hwhole
    obtain ⟨htake, hdrop⟩ := hdigits.span (hfraction.head_not_digit hexponent)
    have hcheck : (!((whole ++ (fraction ++ exponent)).takeWhile isDigit).isEmpty &&
        ((whole ++ (fraction ++ exponent)).takeWhile isDigit == [0x30] ||
          ((whole ++ (fraction ++ exponent)).takeWhile isDigit).head? != some 0x30) &&
        isNumberTail ((whole ++ (fraction ++ exponent)).dropWhile isDigit)) = true := by
      rw [htake, hdrop, hdigits.isEmpty_eq_false, hleading,
        isNumberTail_iff.2 ⟨fraction, exponent, hfraction, hexponent, rfl⟩]
      rfl
    simp only [isNumber]
    rcases hsign with rfl | rfl
    · split
      next rest heq =>
        obtain ⟨b, more, rfl⟩ := List.exists_cons_of_ne_nil hdigits.ne_nil
        have hb := hdigits.digits b List.mem_cons_self
        rw [(List.cons.inj heq).1] at hb
        cases hb
      next => exact hcheck
    · exact hcheck

end

/-- A text in which the string it stands in does not end: every quote has a
backslash in front of it, and that backslash has none. -/
inductive Unclosed : Bytes → Prop where
  | nil : Unclosed []
  | plain {b : UInt8} {rest : Bytes} (hb : IsPlainByte b) (hrest : Unclosed rest) :
      Unclosed (b :: rest)
  | escape (b : UInt8) {rest : Bytes} (hrest : Unclosed rest) : Unclosed (0x5C :: b :: rest)

theorem Unclosed.append {front back : Bytes} (hfront : Unclosed front) (hback : Unclosed back) :
    Unclosed (front ++ back) := by
  induction hfront with
  | nil => exact hback
  | plain hb hrest ih => exact .plain hb ih
  | escape b hrest ih => exact .escape b ih

instance (b : UInt8) : Decidable (IsPlainByte b) :=
  decidable_of_iff (0x20 ≤ b.toNat ∧ b ≠ 0x22 ∧ b ≠ 0x5C)
    ⟨fun h => ⟨h.1, h.2.1, h.2.2⟩, fun h => ⟨h.visible, h.ne_quote, h.ne_backslash⟩⟩

theorem IsHexDigit.isPlainByte {b : UInt8} (h : IsHexDigit b) : IsPlainByte b := by
  have hall : (utf8 "0123456789abcdefABCDEF").all (fun b => IsPlainByte b) = true := by decide
  exact of_decide_eq_true (List.all_eq_true.1 hall b h)

theorem StringBody.unclosed {body : Bytes} (h : StringBody body) : Unclosed body := by
  induction h with
  | nil => exact .nil
  | plain hb hrest ih => exact .plain hb ih
  | letter hb hrest ih => exact .escape _ ih
  | @number a b c d rest hdigits hrest ih =>
    have hplain : ∀ x ∈ [a, b, c, d], IsPlainByte x := fun x hx => (hdigits x hx).isPlainByte
    simp only [List.mem_cons, List.not_mem_nil, or_false, forall_eq_or_imp, forall_eq] at hplain
    obtain ⟨ha, hb, hc, hd⟩ := hplain
    exact .escape _ (.plain ha (.plain hb (.plain hc (.plain hd ih))))

theorem isPlainByte_of_high {b : UInt8} (h : 0x80 ≤ b.toNat) : IsPlainByte b := by
  refine ⟨by omega, ?_, ?_⟩
  · rintro rfl
    exact absurd h (by decide)
  · rintro rfl
    exact absurd h (by decide)

theorem stringBody_cons {b : UInt8} (hb : IsPlainByte b) {rest : Bytes} :
    StringBody (b :: rest) ↔ StringBody rest := by
  constructor
  · intro h
    cases h with
    | plain _ hrest => exact hrest
    | letter _ _ => exact absurd rfl hb.ne_backslash
    | number _ _ => exact absurd rfl hb.ne_backslash
  · exact .plain hb

theorem Unclosed.of_cons {b : UInt8} (hb : IsPlainByte b) {rest : Bytes}
    (h : Unclosed (b :: rest)) : Unclosed rest := by
  cases h with
  | plain _ hrest => exact hrest
  | escape _ _ => exact absurd rfl hb.ne_backslash

theorem stringBody_append {front : Bytes} (hfront : ∀ b ∈ front, IsPlainByte b) {rest : Bytes} :
    StringBody (front ++ rest) ↔ StringBody rest := by
  induction front with
  | nil => rfl
  | cons b front ih =>
    rw [List.cons_append, stringBody_cons (hfront b List.mem_cons_self)]
    exact ih fun x hx => hfront x (List.mem_cons_of_mem b hx)

theorem stringBody_of_plain {body : Bytes} (h : body.all (fun b => IsPlainByte b) = true) :
    StringBody body := by
  have hplain : ∀ b ∈ body, IsPlainByte b := fun b hb =>
    of_decide_eq_true (List.all_eq_true.1 h b hb)
  have hbody := (stringBody_append hplain).2 .nil
  rwa [List.append_nil] at hbody

theorem Unclosed.of_append {front : Bytes} (hfront : ∀ b ∈ front, IsPlainByte b) {rest : Bytes}
    (h : Unclosed (front ++ rest)) : Unclosed rest := by
  induction front with
  | nil => exact h
  | cons b front ih =>
    exact ih (fun x hx => hfront x (List.mem_cons_of_mem b hx))
      (h.of_cons (hfront b List.mem_cons_self))

theorem elements?_backslash {x : Char} (hx : x ≠ 'u') (rest : List Char) :
    elements? ('\\' :: x :: rest) =
      (escaped? x).bind fun c => (elements? rest).map (.char c :: ·) := by
  cases hescaped : escaped? x with
  | some c => exact elements?_letter hx hescaped rest
  | none =>
    rw [elements?.eq_def]
    split
    next heq => cases heq
    next heq => exact absurd (List.cons.inj (List.cons.inj heq).2).1 hx
    next heq =>
      obtain ⟨rfl, rfl⟩ := List.cons.inj (List.cons.inj heq).2
      rw [hescaped]
      rfl
    next heq => cases heq
    next hne _ heq =>
      obtain ⟨rfl, rfl⟩ := List.cons.inj heq
      exact (hne _ _ rfl rfl).elim

/-- The letters behind a backslash are those that stand for a character. -/
theorem escaped?_isSome_iff {b : UInt8} (h : b.toNat < 0x80) :
    (escaped? (Char.ofNat b.toNat)).isSome = true ↔ b ∈ escapeLetters := by
  have hall : ∀ n : Fin 128, (escaped? (Char.ofNat n)).isSome =
      escapeLetters.contains (UInt8.ofNat n) := by decide
  have hb := hall ⟨b.toNat, h⟩
  rw [UInt8.ofNat_toNat] at hb
  rw [hb, List.contains_iff_mem]

theorem escaped?_of_high {c : Char} (h : 0x80 ≤ c.toNat) : escaped? c = none := by
  unfold escaped?
  split
  case h_9 => rfl
  all_goals exact absurd h (by decide)

/-- The value of a character as a hexadecimal digit. -/
def hexDigit? (c : Char) : Option Nat :=
  if c.toNat < 0x80 then Hexadecimal.value? (UInt8.ofNat c.toNat) else none

theorem hexDigit?_isSome_iff {c : Char} :
    (hexDigit? c).isSome = true ↔ c.toNat < 0x80 ∧ IsHexDigit (UInt8.ofNat c.toNat) := by
  have hall : ∀ n : Fin 128, (Hexadecimal.value? (UInt8.ofNat n)).isSome =
      (utf8 "0123456789abcdefABCDEF").contains (UInt8.ofNat n) := by decide +kernel
  unfold hexDigit?
  split
  next hlow =>
    rw [hall ⟨c.toNat, hlow⟩, List.contains_iff_mem]
    exact (and_iff_right hlow).symm
  next hhigh => exact iff_of_false Bool.false_ne_true fun h => hhigh h.1

theorem hexValue?_isSome_iff {a b c d : Char} :
    (hexValue? a b c d).isSome = true ↔ ∀ x ∈ [a, b, c, d], (hexDigit? x).isSome = true := by
  have hvalue : hexValue? a b c d =
      (hexDigit? a).bind fun k => (hexDigit? b).bind fun l => (hexDigit? c).bind fun m =>
        (hexDigit? d).bind fun n => some (k * 4096 + l * 256 + m * 16 + n) := rfl
  rw [hvalue]
  simp only [List.mem_cons, List.not_mem_nil, or_false, forall_eq_or_imp, forall_eq]
  cases hexDigit? a <;> cases hexDigit? b <;> cases hexDigit? c <;> cases hexDigit? d <;> simp

theorem IsHexDigit.low {b : UInt8} (h : IsHexDigit b) : b.toNat < 0x80 := by
  have hall : (utf8 "0123456789abcdefABCDEF").all (fun b => b.toNat < 0x80) = true := by decide
  exact of_decide_eq_true (List.all_eq_true.1 hall b h)

/-- Four digits are wanted behind the letter `u`. -/
theorem elements?_u_isSome_iff {cs : List Char} :
    (elements? ('\\' :: 'u' :: cs)).isSome = true ↔
      ∃ a b c d rest, cs = a :: b :: c :: d :: rest ∧ (hexValue? a b c d).isSome = true ∧
        (elements? rest).isSome = true := by
  constructor
  · intro h
    rw [elements?.eq_def] at h
    split at h
    next heq => cases heq
    next a b c d rest heq =>
      obtain ⟨-, rfl⟩ := List.cons.inj (List.cons.inj heq).2
      refine ⟨a, b, c, d, rest, rfl, ?_⟩
      cases hn : hexValue? a b c d with
      | none => simp [hn] at h
      | some n =>
        cases hrest : elements? rest with
        | none => simp [hn, hrest] at h
        | some elements => exact ⟨rfl, rfl⟩
    next heq =>
      obtain ⟨rfl, -⟩ := List.cons.inj (List.cons.inj heq).2
      cases h
    next heq => cases heq
    next hne _ heq =>
      obtain ⟨rfl, rfl⟩ := List.cons.inj heq
      exact (hne _ _ rfl rfl).elim
  · rintro ⟨a, b, c, d, rest, rfl, hn, hrest⟩
    obtain ⟨n, hn⟩ := Option.isSome_iff_exists.1 hn
    rw [elements?_number hn, Option.isSome_map]
    exact hrest

/-- Four ASCII characters are shown for their own bytes. -/
theorem exists_of_shown_eq_four {s : Bytes} {a b c d : Char} {cs : List Char}
    (h : Utf8.shown s = a :: b :: c :: d :: cs) (hlow : ∀ x ∈ [a, b, c, d], x.toNat < 0x80) :
    ∃ rest, s = UInt8.ofNat a.toNat :: UInt8.ofNat b.toNat :: UInt8.ofNat c.toNat ::
      UInt8.ofNat d.toNat :: rest ∧ Utf8.shown rest = cs := by
  simp only [List.mem_cons, List.not_mem_nil, or_false, forall_eq_or_imp, forall_eq] at hlow
  obtain ⟨ha, hb, hc, hd⟩ := hlow
  obtain ⟨first, rfl, hfirst⟩ := Utf8.exists_of_shown_eq_cons h ha
  obtain ⟨second, rfl, hsecond⟩ := Utf8.exists_of_shown_eq_cons hfirst hb
  obtain ⟨third, rfl, hthird⟩ := Utf8.exists_of_shown_eq_cons hsecond hc
  obtain ⟨rest, rfl, hrest⟩ := Utf8.exists_of_shown_eq_cons hthird hd
  exact ⟨rest, rfl, hrest⟩

/-- A backslash, the letter `u` and what stands behind it. -/
theorem stringBody_u_iff {rest : Bytes}
    (ih : ∀ {tail : Bytes}, tail.length < rest.length → Unclosed tail →
      ((elements? (Utf8.shown tail)).isSome = true ↔ StringBody tail)) (h : Unclosed rest) :
    (elements? ('\\' :: 'u' :: Utf8.shown rest)).isSome = true ↔
      StringBody (0x5C :: 0x75 :: rest) := by
  rw [elements?_u_isSome_iff]
  constructor
  · rintro ⟨a, b, c, d, cs, hshown, hhex, htail⟩
    have hdigits := hexValue?_isSome_iff.1 hhex
    obtain ⟨tail, rfl, rfl⟩ := exists_of_shown_eq_four hshown fun x hx =>
      (hexDigit?_isSome_iff.1 (hdigits x hx)).1
    have hbytes : ∀ x ∈ [UInt8.ofNat a.toNat, UInt8.ofNat b.toNat, UInt8.ofNat c.toNat,
        UInt8.ofNat d.toNat], IsHexDigit x := by
      simp only [List.mem_cons, List.not_mem_nil, or_false, forall_eq_or_imp, forall_eq]
        at hdigits ⊢
      simp only [hexDigit?_isSome_iff] at hdigits
      exact ⟨hdigits.1.2, hdigits.2.1.2, hdigits.2.2.1.2, hdigits.2.2.2.2⟩
    have hunclosed : Unclosed tail :=
      Unclosed.of_append (fun x hx => (hbytes x hx).isPlainByte) h
    refine .number hbytes ((ih ?_ hunclosed).1 htail)
    simp only [List.length_cons]
    omega
  · intro hbody
    cases hbody with
    | plain hb _ => exact absurd rfl hb.ne_backslash
    | letter hb _ => exact absurd hb (by decide)
    | @number a b c d tail hdigits htail =>
      have hplain : ∀ x ∈ [a, b, c, d], IsPlainByte x := fun x hx => (hdigits x hx).isPlainByte
      have hunclosed : Unclosed tail := Unclosed.of_append hplain h
      have hchars : ∀ x ∈ [a, b, c, d], (hexDigit? (Char.ofNat x.toNat)).isSome = true := by
        intro x hx
        have hlow := (hdigits x hx).low
        rw [hexDigit?_isSome_iff, Utf8.toNat_char_of_low hlow, UInt8.ofNat_toNat]
        exact ⟨hlow, hdigits x hx⟩
      have hlow : ∀ x ∈ [a, b, c, d], x.toNat < 0x80 := fun x hx => (hdigits x hx).low
      simp only [List.mem_cons, List.not_mem_nil, or_false, forall_eq_or_imp, forall_eq]
        at hlow hchars
      obtain ⟨ha, hb, hc, hd⟩ := hlow
      refine ⟨Char.ofNat a.toNat, Char.ofNat b.toNat, Char.ofNat c.toNat, Char.ofNat d.toNat,
        Utf8.shown tail, ?_, ?_, (ih ?_ hunclosed).2 htail⟩
      · rw [Utf8.shown_of_low ha, Utf8.shown_of_low hb, Utf8.shown_of_low hc, Utf8.shown_of_low hd]
      · rw [hexValue?_isSome_iff]
        simpa using hchars
      · simp only [List.length_cons]
        omega

/-- A backslash and a byte that is not the letter `u`. -/
theorem stringBody_escape_iff {b : UInt8} (hb : b ≠ 0x75) {rest : Bytes}
    (ih : (elements? (Utf8.shown rest)).isSome = true ↔ StringBody rest) :
    (elements? ('\\' :: Utf8.shown (b :: rest))).isSome = true ↔
      StringBody (0x5C :: b :: rest) := by
  have hletter : StringBody (0x5C :: b :: rest) ↔ b ∈ escapeLetters ∧ StringBody rest := by
    constructor
    · intro h
      cases h with
      | plain h _ => exact absurd rfl h.ne_backslash
      | letter h hrest => exact ⟨h, hrest⟩
      | number _ _ => exact absurd rfl hb
    · rintro ⟨h, hrest⟩
      exact .letter h hrest
  rw [hletter]
  by_cases hlow : b.toNat < 0x80
  · have hu : Char.ofNat b.toNat ≠ 'u' := by
      intro heq
      have hnat := congrArg Char.toNat heq
      rw [Utf8.toNat_char_of_low hlow] at hnat
      exact hb (UInt8.toNat_inj.1 hnat)
    rw [Utf8.shown_of_low hlow, elements?_backslash hu, ← escaped?_isSome_iff hlow, ← ih]
    cases escaped? (Char.ofNat b.toNat) with
    | none => simp
    | some c => simp
  · obtain ⟨c, front, tail, hshown, -, -, hc⟩ := Utf8.shown_of_high (Nat.le_of_not_lt hlow) rest
    have hu : c ≠ 'u' := by
      rintro rfl
      exact absurd hc (by decide)
    have hall : escapeLetters.all (fun b => b.toNat < 0x80) = true := by decide
    rw [hshown, elements?_backslash hu, escaped?_of_high hc]
    refine iff_of_false Bool.false_ne_true ?_
    rintro ⟨hmem, -⟩
    exact hlow (of_decide_eq_true (List.all_eq_true.1 hall b hmem))

/-- In a text without a quote of its own, all escapes are known exactly if it can
stand between the quotes of a string. -/
theorem elements?_isSome_iff {body : Bytes} (h : Unclosed body) :
    (elements? (Utf8.shown body)).isSome = true ↔ StringBody body := by
  -- A character may take several bytes, so the induction is on the length.
  induction hlength : body.length using Nat.strong_induction_on generalizing body with
  | _ length ih =>
    subst hlength
    cases h with
    | nil => exact iff_of_true rfl .nil
    | @plain b rest hb hrest =>
      by_cases hlow : b.toNat < 0x80
      · have hne : Char.ofNat b.toNat ≠ '\\' := by
          intro heq
          have hnat := congrArg Char.toNat heq
          rw [Utf8.toNat_char_of_low hlow] at hnat
          exact hb.ne_backslash (UInt8.toNat_inj.1 hnat)
        rw [Utf8.shown_of_low hlow, elements?_cons_of_ne hne, Option.isSome_map,
          stringBody_cons hb]
        exact ih rest.length (Nat.lt_succ_self _) hrest rfl
      · obtain ⟨c, front, tail, hshown, rfl, hfront, hc⟩ :=
          Utf8.shown_of_high (Nat.le_of_not_lt hlow) rest
        have hne : c ≠ '\\' := by
          rintro rfl
          exact absurd hc (by decide)
        have hplain : ∀ x ∈ front, IsPlainByte x := fun x hx => isPlainByte_of_high (hfront x hx)
        rw [hshown, elements?_cons_of_ne hne, Option.isSome_map, stringBody_cons hb,
          stringBody_append hplain]
        refine ih tail.length ?_ (hrest.of_append hplain) rfl
        simp only [List.length_cons, List.length_append]
        omega
    | @escape b rest hrest =>
      have hbackslash : Utf8.shown (0x5C :: b :: rest) = '\\' :: Utf8.shown (b :: rest) :=
        Utf8.shown_of_low (by decide) (b :: rest)
      rw [hbackslash]
      by_cases hu : b = 0x75
      · subst hu
        have hshown : Utf8.shown (0x75 :: rest) = 'u' :: Utf8.shown rest :=
          Utf8.shown_of_low (by decide) rest
        rw [hshown]
        refine stringBody_u_iff ?_ hrest
        intro tail hlt htail
        refine ih tail.length ?_ htail rfl
        simp only [List.length_cons]
        omega
      · refine stringBody_escape_iff hu (ih rest.length ?_ hrest rfl)
        simp only [List.length_cons]
        omega

/-- What stands between the quotes of a string has a value, and nothing else that
the string could hold has. -/
theorem exists_stringValue?_iff {body : Bytes} (h : Unclosed body) :
    (∃ value, stringValue? body = some value) ↔ StringBody body := by
  rw [← elements?_isSome_iff h, ← Option.isSome_iff_exists]
  change ((elements? (Utf8.shown body)).bind fun elements =>
    some (Utf8.encode (characters elements))).isSome = true ↔ _
  cases elements? (Utf8.shown body) with
  | none => rfl
  | some elements => exact iff_of_true rfl rfl

end Json

end PlaceholderIcons
