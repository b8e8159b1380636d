import PlaceholderIcons.Json.Printer
import PlaceholderIcons.Json.Token
import PlaceholderIcons.Proofs.Utf8Decoding

/-!
String literals, written and read. Each character has one spelling inside a
literal, of which there are three kinds. A spelling keeps the scanner inside
the literal, stands for one element, and that element stands for the character
again, so the literal of a text has the cleaned text as its value.
-/

namespace PlaceholderIcons

namespace Hexadecimal

/-- A digit as a character. -/
def digitChar (n : Nat) : Char :=
  Char.ofNat (digit n).toNat

theorem encodeChar_digitChar {n : Nat} (h : n < 16) : Utf8.encodeChar (digitChar n) = [digit n] := by
  have hall : ∀ k : Fin 16, Utf8.encodeChar (digitChar k) = [digit k] := by decide
  exact hall ⟨n, h⟩

theorem fixed_four (n : Nat) :
    fixed 4 n = [digit (n / 4096 % 16), digit (n / 256 % 16), digit (n / 16 % 16),
      digit (n % 16)] := by
  simp [fixed, Nat.div_div_eq_div_mul]

end Hexadecimal

namespace Json

/-- A character that stands for itself inside a string literal. -/
structure IsPlain (c : Char) : Prop where
  visible : 0x20 ≤ c.toNat
  ne_quote : c ≠ '"'
  ne_backslash : c ≠ '\\'

theorem isPlain_digitChar {n : Nat} (h : n < 16) : IsPlain (Hexadecimal.digitChar n) := by
  have hall : ∀ k : Fin 16, 0x20 ≤ (Hexadecimal.digitChar k).toNat ∧
      Hexadecimal.digitChar k ≠ '"' ∧ Hexadecimal.digitChar k ≠ '\\' := by decide
  obtain ⟨hvisible, hquote, hbackslash⟩ := hall ⟨n, h⟩
  exact ⟨hvisible, hquote, hbackslash⟩

theorem value?_digitChar {n : Nat} (h : n < 16) :
    (if (Hexadecimal.digitChar n).toNat < 0x80 then
      Hexadecimal.value? (UInt8.ofNat (Hexadecimal.digitChar n).toNat) else none) = some n := by
  have hall : ∀ k : Fin 16, (if (Hexadecimal.digitChar k).toNat < 0x80 then
      Hexadecimal.value? (UInt8.ofNat (Hexadecimal.digitChar k).toNat) else none) =
        some k.val := by decide
  exact hall ⟨n, h⟩

theorem hexValue?_digitChar {a b c d : Nat} (ha : a < 16) (hb : b < 16) (hc : c < 16)
    (hd : d < 16) :
    hexValue? (Hexadecimal.digitChar a) (Hexadecimal.digitChar b) (Hexadecimal.digitChar c)
      (Hexadecimal.digitChar d) = some (a * 4096 + b * 256 + c * 16 + d) := by
  simp only [hexValue?]
  rw [value?_digitChar ha, value?_digitChar hb, value?_digitChar hc, value?_digitChar hd]
  rfl

/-- The spellings of a character inside a string literal, with the element that
each one is read as. -/
inductive Spells (c : Char) : List Char → Element → Prop where
  /-- The character itself. -/
  | plain (h : IsPlain c) : Spells c [c] (.char c)
  /-- A backslash and a letter. -/
  | letter {x : Char} (hx : x ≠ 'u') (hascii : x.toNat < 0x80) (h : escaped? x = some c) :
      Spells c ['\\', x] (.char c)
  /-- The number of the character in four digits. -/
  | number {x y z w : Char} (hplain : ∀ a ∈ [x, y, z, w], IsPlain a)
      (h : hexValue? x y z w = some c.toNat) : Spells c ['\\', 'u', x, y, z, w] (.unit c.toNat)

theorem spells_escapeNumber {c : Char} (h : c.toNat < 0x10000) :
    ∃ spelling, escapeNumber c.toNat = Utf8.encode spelling ∧ Spells c spelling (.unit c.toNat) := by
  have hmod (k : Nat) : k % 16 < 16 := Nat.mod_lt k (by decide)
  refine ⟨['\\', 'u', Hexadecimal.digitChar (c.toNat / 4096 % 16),
    Hexadecimal.digitChar (c.toNat / 256 % 16), Hexadecimal.digitChar (c.toNat / 16 % 16),
    Hexadecimal.digitChar (c.toNat % 16)], ?_, ?_⟩
  · rw [escapeNumber, Hexadecimal.fixed_four]
    simp only [Utf8.encode, List.flatMap_cons, List.flatMap_nil,
      Hexadecimal.encodeChar_digitChar (hmod _)]
    rfl
  · apply Spells.number
    · simp only [List.mem_cons, List.not_mem_nil, or_false, forall_eq_or_imp, forall_eq]
      exact ⟨isPlain_digitChar (hmod _), isPlain_digitChar (hmod _), isPlain_digitChar (hmod _),
        isPlain_digitChar (hmod _)⟩
    · rw [hexValue?_digitChar (hmod _) (hmod _) (hmod _) (hmod _)]
      congr 1
      omega

/-- Every character is written in one of its spellings. -/
theorem exists_spells (c : Char) :
    ∃ spelling element, escapeChar c = Utf8.encode spelling ∧ Spells c spelling element := by
  unfold escapeChar
  split
  · exact ⟨['\\', '"'], _, rfl, .letter (by decide) (by decide) rfl⟩
  · exact ⟨['\\', '\\'], _, rfl, .letter (by decide) (by decide) rfl⟩
  · exact ⟨['\\', 'n'], _, rfl, .letter (by decide) (by decide) rfl⟩
  · exact ⟨['\\', 'r'], _, rfl, .letter (by decide) (by decide) rfl⟩
  · exact ⟨['\\', 't'], _, rfl, .letter (by decide) (by decide) rfl⟩
  · obtain ⟨spelling, htext, hspells⟩ := spells_escapeNumber (show '<'.toNat < 0x10000 by decide)
    exact ⟨spelling, _, htext, hspells⟩
  · obtain ⟨spelling, htext, hspells⟩ := spells_escapeNumber (show '>'.toNat < 0x10000 by decide)
    exact ⟨spelling, _, htext, hspells⟩
  · obtain ⟨spelling, htext, hspells⟩ := spells_escapeNumber (show '&'.toNat < 0x10000 by decide)
    exact ⟨spelling, _, htext, hspells⟩
  · rename_i hquote hbackslash _ _ _ _ _ _
    simp only
    split
    next hn =>
      have hc : c = Char.ofNat 8 := by rw [← hn, Char.ofNat_toNat]
      exact ⟨['\\', 'b'], _, rfl, .letter (by decide) (by decide) (by rw [hc]; rfl)⟩
    split
    next hn =>
      have hc : c = Char.ofNat 12 := by rw [← hn, Char.ofNat_toNat]
      exact ⟨['\\', 'f'], _, rfl, .letter (by decide) (by decide) (by rw [hc]; rfl)⟩
    split
    next hn =>
      obtain ⟨spelling, htext, hspells⟩ := spells_escapeNumber (show c.toNat < 0x10000 by omega)
      exact ⟨spelling, _, htext, hspells⟩
    next hn =>
      refine ⟨[c], _, by simp [Utf8.encode], .plain ⟨by omega, hquote, hbackslash⟩⟩

theorem elements?_cons_of_ne {c : Char} (h : c ≠ '\\') (rest : List Char) :
    elements? (c :: rest) = (elements? rest).map (.char c :: ·) := by
  rw [elements?.eq_def]
  split
  next heq => cases heq
  next heq => exact absurd (List.cons.inj heq).1 h
  next heq => exact absurd (List.cons.inj heq).1 h
  next heq => exact absurd (List.cons.inj heq).1 h
  next heq =>
    obtain ⟨rfl, rfl⟩ := List.cons.inj heq
    cases elements? rest <;> rfl

theorem elements?_letter {x c : Char} (hx : x ≠ 'u') (h : escaped? x = some c)
    (rest : List Char) :
    elements? ('\\' :: x :: rest) = (elements? rest).map (.char c :: ·) := by
  rw [elements?.eq_def]
  split
  next heq => cases heq
  next heq => exact absurd (List.cons.inj (List.cons.inj heq).2).1 hx
  next heq =>
    obtain ⟨rfl, rfl⟩ := List.cons.inj (List.cons.inj heq).2
    rw [h]
    cases elements? rest <;> rfl
  next heq => cases heq
  next hne _ heq =>
    obtain ⟨rfl, rfl⟩ := List.cons.inj heq
    exact (hne _ _ rfl rfl).elim

theorem elements?_number {x y z w : Char} {n : Nat} (h : hexValue? x y z w = some n)
    (rest : List Char) :
    elements? ('\\' :: 'u' :: x :: y :: z :: w :: rest) =
      (elements? rest).map (.unit n :: ·) := by
  rw [elements?, h]
  cases elements? rest <;> rfl

theorem elements?_spelling {c : Char} {spelling : List Char} {element : Element}
    (h : Spells c spelling element) (rest : List Char) :
    elements? (spelling ++ rest) = (elements? rest).map (element :: ·) := by
  cases h with
  | plain hplain => exact elements?_cons_of_ne hplain.ne_backslash rest
  | letter hx hascii hletter => exact elements?_letter hx hletter rest
  | number hplain hnumber => exact elements?_number hnumber rest

/-- The number of a character is no surrogate, so it stands alone. -/
theorem characters_unit (c : Char) (rest : List Element) :
    characters (.unit c.toNat :: rest) = c :: characters rest := by
  have hvalid : c.toNat.isValidChar := c.valid
  have hchar : unitChar c.toNat = c := by rw [unitChar, if_pos hvalid, Char.ofNat_toNat]
  have hhigh : isHighSurrogate c.toNat = false := by
    rw [isHighSurrogate, Bool.and_eq_false_iff, decide_eq_false_iff_not, decide_eq_false_iff_not]
    simp only [Nat.isValidChar] at hvalid
    omega
  -- A number in front of another one is a pair only if it is a high surrogate.
  rw [characters.eq_def]
  split <;> simp_all

theorem characters_spelling {c : Char} {spelling : List Char} {element : Element}
    (h : Spells c spelling element) (rest : List Element) :
    characters (element :: rest) = c :: characters rest := by
  cases h with
  | plain => rfl
  | letter => rfl
  | number => exact characters_unit c rest

/-- The text between the quotes of a literal is read back. -/
theorem exists_elements (cs : List Char) :
    ∃ spelling elements, cs.flatMap escapeChar = Utf8.encode spelling ∧
      elements? spelling = some elements ∧ characters elements = cs := by
  induction cs with
  | nil => exact ⟨[], [], rfl, rfl, rfl⟩
  | cons c cs ih =>
    obtain ⟨spelling, elements, htext, helements, hcharacters⟩ := ih
    obtain ⟨front, element, hfront, hspells⟩ := exists_spells c
    refine ⟨front ++ spelling, element :: elements, ?_, ?_, ?_⟩
    · rw [List.flatMap_cons, hfront, htext, Utf8.encode, Utf8.encode, Utf8.encode,
        List.flatMap_append]
    · rw [elements?_spelling hspells, helements]
      rfl
    · rw [characters_spelling hspells, hcharacters]

theorem stringValue?_escaped (cs : List Char) :
    stringValue? (cs.flatMap escapeChar) = some (Utf8.encode cs) := by
  obtain ⟨spelling, elements, htext, helements, hcharacters⟩ := exists_elements cs
  have hshown : (Utf8.decode (Utf8.encode spelling)).map Utf8.Piece.shown = spelling := by
    rw [Utf8.decode_encode, List.map_map]
    exact List.map_id spelling
  rw [stringValue?, htext, hshown, helements]
  exact congrArg (fun text => some (Utf8.encode text)) hcharacters

theorem isWordByte_of_isDigit {b : UInt8} (h : Decimal.isDigit b = true) :
    isWordByte b = true := by
  simp [isWordByte, h]

theorem all_isWordByte_of_digits {s : Bytes} (h : s.all Decimal.isDigit = true) :
    s.all isWordByte = true :=
  List.all_eq_true.2 fun b hb => isWordByte_of_isDigit (List.all_eq_true.1 h b hb)

/-- Only what stands behind the digits in front can spoil a word. -/
theorem all_isWordByte_of_dropWhile {s : Bytes}
    (h : (s.dropWhile Decimal.isDigit).all isWordByte = true) : s.all isWordByte = true := by
  induction s with
  | nil => rfl
  | cons b s ih =>
    rw [List.dropWhile_cons] at h
    split at h
    next hdigit => rw [List.all_cons, isWordByte_of_isDigit hdigit, ih h, Bool.and_self]
    next => exact h

theorem all_isWordByte_exponent {mark : UInt8} {rest : Bytes}
    (hmark : (mark == 0x65 || mark == 0x45) = true)
    (hdigits : (match rest with
      | sign :: digits => if sign == 0x2B || sign == 0x2D then digits else rest
      | [] => rest).all Decimal.isDigit = true) :
    (mark :: rest).all isWordByte = true := by
  have hword : isWordByte mark = true := by
    rcases Bool.or_eq_true_iff.1 hmark with hm | hm <;> rw [eq_of_beq hm] <;> decide
  rw [List.all_cons, hword, Bool.true_and]
  split at hdigits
  next sign digits =>
    split at hdigits
    next hsign =>
      rw [List.all_cons, all_isWordByte_of_digits hdigits, Bool.and_true]
      rcases Bool.or_eq_true_iff.1 hsign with hs | hs <;> rw [eq_of_beq hs] <;> decide
    next => exact all_isWordByte_of_digits hdigits
  next => rfl

theorem all_isWordByte_of_fraction {s rest : Bytes} (hrest : rest.all isWordByte = true)
    (h : (match s with
      | 0x2E :: rest =>
          if (rest.takeWhile Decimal.isDigit).isEmpty then none
          else some (rest.dropWhile Decimal.isDigit)
      | _ => some s) = some rest) : s.all isWordByte = true := by
  split at h
  next fraction =>
    split at h
    next => cases h
    next =>
      rw [← Option.some.inj h] at hrest
      rw [List.all_cons, all_isWordByte_of_dropWhile hrest]
      decide
  next =>
    rw [Option.some.inj h]
    exact hrest

theorem all_isWordByte_of_isNumberTail {s : Bytes} (h : isNumberTail s = true) :
    s.all isWordByte = true := by
  simp only [isNumberTail] at h
  split at h
  next => cases h
  next heq => exact all_isWordByte_of_fraction List.all_nil heq
  next mark rest heq =>
    obtain ⟨hfront, hdigits⟩ := Bool.and_eq_true_iff.1 h
    have hexponent := all_isWordByte_exponent (Bool.and_eq_true_iff.1 hfront).1 hdigits
    exact all_isWordByte_of_fraction hexponent heq

/-- A number is one word to the scanner. -/
theorem all_isWordByte_of_isNumber {s : Bytes} (h : isNumber s = true) :
    s.all isWordByte = true := by
  simp only [isNumber] at h
  have htail := all_isWordByte_of_isNumberTail (Bool.and_eq_true_iff.1 h).2
  have hmagnitude := all_isWordByte_of_dropWhile htail
  split at hmagnitude
  next rest =>
    rw [List.all_cons, hmagnitude]
    decide
  next => exact hmagnitude

theorem wordToken?_of_isNumber {s : Bytes} (h : isNumber s = true) :
    wordToken? s = some (.number s) := by
  have hne : ∀ word ∈ [utf8 "null", utf8 "true", utf8 "false"], s ≠ word := by
    rintro word hword rfl
    have hall : ∀ word ∈ [utf8 "null", utf8 "true", utf8 "false"], isNumber word = false := by
      decide
    rw [hall s hword] at h
    cases h
  rw [wordToken?, if_neg (hne _ (by simp)), if_neg (hne _ (by simp)), if_neg (hne _ (by simp)),
    if_pos h]

end Json

end PlaceholderIcons
