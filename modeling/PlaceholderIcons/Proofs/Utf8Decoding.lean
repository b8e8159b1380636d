import Mathlib.Data.List.Basic
import PlaceholderIcons.Text.Utf8

/-!
Decoding against encoding. The bytes of a character decode to that character
whatever follows them, and a character that decoding finds is encoded in just
the bytes it was found in. Replacing stray bytes therefore leaves well-formed
text alone.
-/

namespace PlaceholderIcons

namespace Utf8

theorem toNat_ofNat {n : Nat} (h : n < 256) : (UInt8.ofNat n).toNat = n :=
  UInt8.toNat_ofNat_of_lt' h

theorem char_bound (c : Char) : c.toNat < 0x110000 := by
  have hvalid := c.valid
  simp only [UInt32.isValidChar, Nat.isValidChar] at hvalid
  change c.val.toNat < 0x110000
  omega

theorem continuation?_ofNat {n : Nat} (h : n < 64) :
    continuation? (UInt8.ofNat (0x80 + n)) = some n := by
  have hnat : (UInt8.ofNat (0x80 + n)).toNat = 0x80 + n := toNat_ofNat (by omega)
  have hrange : 0x80 ≤ UInt8.ofNat (0x80 + n) ∧ UInt8.ofNat (0x80 + n) < 0xC0 := by
    rw [UInt8.le_iff_toNat_le, UInt8.lt_iff_toNat_lt, hnat]
    constructor
    · change 128 ≤ _
      omega
    · change _ < 192
      omega
  rw [continuation?, if_pos hrange, hnat]
  simp

theorem continuation?_eq_some {b : UInt8} {n : Nat} (h : continuation? b = some n) :
    b.toNat = 0x80 + n ∧ n < 64 := by
  unfold continuation? at h
  split at h
  next hrange =>
    rw [UInt8.le_iff_toNat_le, UInt8.lt_iff_toNat_lt] at hrange
    change 128 ≤ _ ∧ _ < 192 at hrange
    have hn := Option.some.inj h
    omega
  next => cases h

theorem scalar?_toNat {least : Nat} {c : Char} (h : least ≤ c.toNat) :
    scalar? least c.toNat = some c := by
  rw [scalar?, if_pos ⟨h, c.valid⟩, Char.ofNat_toNat]

theorem scalar?_eq_some {least n : Nat} {c : Char} (h : scalar? least n = some c) :
    least ≤ n ∧ c.toNat = n := by
  unfold scalar? at h
  split at h
  next hvalid =>
    refine ⟨hvalid.1, ?_⟩
    rw [← Option.some.inj h, Char.ofNat, dif_pos hvalid.2]
    rfl
  next => cases h

/-- What the first bytes of a text can be taken for, the shorter forms first. -/
theorem decode_of_one {a : UInt8} {c : Char} (h : one? a = some c) (s : Bytes) :
    decode (a :: s) = .char c :: decode s := by
  rw [decode.eq_def]
  simp only [h]

theorem decode_of_two {a b : UInt8} {c : Char} (h₁ : one? a = none) (h₂ : two? a b = some c)
    (s : Bytes) : decode (a :: b :: s) = .char c :: decode s := by
  rw [decode.eq_def]
  simp only [h₁, h₂]

theorem decode_of_three {a b d : UInt8} {c : Char} (h₁ : one? a = none) (h₂ : two? a b = none)
    (h₃ : three? a b d = some c) (s : Bytes) : decode (a :: b :: d :: s) = .char c :: decode s := by
  rw [decode.eq_def]
  simp only [h₁, h₂, h₃]

theorem decode_of_four {a b d e : UInt8} {c : Char} (h₁ : one? a = none) (h₂ : two? a b = none)
    (h₃ : three? a b d = none) (h₄ : four? a b d e = some c) (s : Bytes) :
    decode (a :: b :: d :: e :: s) = .char c :: decode s := by
  rw [decode.eq_def]
  simp only [h₁, h₂, h₃, h₄]

theorem one?_eq_none {a : UInt8} (h : 0x80 ≤ a.toNat) : one? a = none := by
  have hnot : ¬ a < 0x80 := by
    rw [UInt8.lt_iff_toNat_lt]
    change ¬ _ < 128
    omega
  rw [one?, if_neg hnot]

theorem two?_eq_none {a : UInt8} (h : 0xE0 ≤ a.toNat) (b : UInt8) : two? a b = none := by
  have hnot : ¬ (0xC0 ≤ a ∧ a < 0xE0) := by
    rw [UInt8.le_iff_toNat_le, UInt8.lt_iff_toNat_lt]
    change ¬ (_ ∧ _ < 224)
    omega
  rw [two?, if_neg hnot]

theorem three?_eq_none {a : UInt8} (h : 0xF0 ≤ a.toNat) (b c : UInt8) : three? a b c = none := by
  have hnot : ¬ (0xE0 ≤ a ∧ a < 0xF0) := by
    rw [UInt8.le_iff_toNat_le, UInt8.lt_iff_toNat_lt]
    change ¬ (_ ∧ _ < 240)
    omega
  rw [three?, if_neg hnot]

theorem one?_eq_some_iff {a : UInt8} {c : Char} :
    one? a = some c ↔ a.toNat < 0x80 ∧ c.toNat = a.toNat := by
  have hlt : a < 0x80 ↔ a.toNat < 0x80 := UInt8.lt_iff_toNat_lt
  unfold one?
  split
  next h =>
    have hvalid : a.toNat.isValidChar := .inl (Nat.lt_trans (hlt.1 h) (by decide))
    have hnat : (Char.ofNat a.toNat).toNat = a.toNat := by
      rw [Char.ofNat, dif_pos hvalid]
      rfl
    constructor
    · intro hc
      rw [← Option.some.inj hc]
      exact ⟨hlt.1 h, hnat⟩
    · rintro ⟨-, hc⟩
      rw [← hc, Char.ofNat_toNat]
  next h =>
    constructor
    · intro hc
      cases hc
    · rintro ⟨ha, -⟩
      exact absurd (hlt.2 ha) h

/-- The leading byte of two holds the upper bits, and nothing shorter would do. -/
theorem two?_eq_some_iff {a b : UInt8} {c : Char} :
    two? a b = some c ↔
      a.toNat = 0xC0 + c.toNat / 64 ∧ b.toNat = 0x80 + c.toNat % 64 ∧
        0x80 ≤ c.toNat ∧ c.toNat < 0x800 := by
  have hrange : (0xC0 ≤ a ∧ a < 0xE0) ↔ 0xC0 ≤ a.toNat ∧ a.toNat < 0xE0 :=
    and_congr UInt8.le_iff_toNat_le UInt8.lt_iff_toNat_lt
  unfold two?
  constructor
  · intro h
    split at h
    next ha =>
      rw [hrange] at ha
      obtain ⟨y, hy, hscalar⟩ := Option.bind_eq_some_iff.1 h
      obtain ⟨hb, hy64⟩ := continuation?_eq_some hy
      obtain ⟨hleast, hc⟩ := scalar?_eq_some hscalar
      omega
    next => cases h
  · rintro ⟨ha, hb, hleast, hmost⟩
    have hcont : continuation? b = some (c.toNat % 64) := by
      rw [← continuation?_ofNat (Nat.mod_lt _ (by decide)), ← hb, UInt8.ofNat_toNat]
    have hnumber : (a.toNat - 0xC0) * 64 + c.toNat % 64 = c.toNat := by omega
    rw [if_pos (hrange.2 (by omega)), hcont, Option.bind_eq_bind, Option.bind_some, hnumber,
      scalar?_toNat hleast]

theorem three?_eq_some_iff {a b d : UInt8} {c : Char} :
    three? a b d = some c ↔
      a.toNat = 0xE0 + c.toNat / 4096 ∧ b.toNat = 0x80 + c.toNat / 64 % 64 ∧
        d.toNat = 0x80 + c.toNat % 64 ∧ 0x800 ≤ c.toNat ∧ c.toNat < 0x10000 := by
  have hrange : (0xE0 ≤ a ∧ a < 0xF0) ↔ 0xE0 ≤ a.toNat ∧ a.toNat < 0xF0 :=
    and_congr UInt8.le_iff_toNat_le UInt8.lt_iff_toNat_lt
  unfold three?
  constructor
  · intro h
    split at h
    next ha =>
      rw [hrange] at ha
      obtain ⟨y, hy, h⟩ := Option.bind_eq_some_iff.1 h
      obtain ⟨z, hz, hscalar⟩ := Option.bind_eq_some_iff.1 h
      obtain ⟨hb, hy64⟩ := continuation?_eq_some hy
      obtain ⟨hd, hz64⟩ := continuation?_eq_some hz
      obtain ⟨hleast, hc⟩ := scalar?_eq_some hscalar
      omega
    next => cases h
  · rintro ⟨ha, hb, hd, hleast, hmost⟩
    have hcont : continuation? b = some (c.toNat / 64 % 64) := by
      rw [← continuation?_ofNat (Nat.mod_lt _ (by decide)), ← hb, UInt8.ofNat_toNat]
    have hcont' : continuation? d = some (c.toNat % 64) := by
      rw [← continuation?_ofNat (Nat.mod_lt _ (by decide)), ← hd, UInt8.ofNat_toNat]
    have hnumber :
        (a.toNat - 0xE0) * 4096 + c.toNat / 64 % 64 * 64 + c.toNat % 64 = c.toNat := by omega
    rw [if_pos (hrange.2 (by omega)), hcont, Option.bind_eq_bind, Option.bind_some, hcont',
      Option.bind_some, hnumber, scalar?_toNat hleast]

theorem four?_eq_some_iff {a b d e : UInt8} {c : Char} :
    four? a b d e = some c ↔
      a.toNat = 0xF0 + c.toNat / 262144 ∧ b.toNat = 0x80 + c.toNat / 4096 % 64 ∧
        d.toNat = 0x80 + c.toNat / 64 % 64 ∧ e.toNat = 0x80 + c.toNat % 64 ∧
        0x10000 ≤ c.toNat := by
  have hrange : (0xF0 ≤ a ∧ a < 0xF8) ↔ 0xF0 ≤ a.toNat ∧ a.toNat < 0xF8 :=
    and_congr UInt8.le_iff_toNat_le UInt8.lt_iff_toNat_lt
  have hbound := char_bound c
  unfold four?
  constructor
  · intro h
    split at h
    next ha =>
      rw [hrange] at ha
      obtain ⟨x, hx, h⟩ := Option.bind_eq_some_iff.1 h
      obtain ⟨y, hy, h⟩ := Option.bind_eq_some_iff.1 h
      obtain ⟨z, hz, hscalar⟩ := Option.bind_eq_some_iff.1 h
      obtain ⟨hb, hx64⟩ := continuation?_eq_some hx
      obtain ⟨hd, hy64⟩ := continuation?_eq_some hy
      obtain ⟨he, hz64⟩ := continuation?_eq_some hz
      obtain ⟨hleast, hc⟩ := scalar?_eq_some hscalar
      omega
    next => cases h
  · rintro ⟨ha, hb, hd, he, hleast⟩
    have hcont : continuation? b = some (c.toNat / 4096 % 64) := by
      rw [← continuation?_ofNat (Nat.mod_lt _ (by decide)), ← hb, UInt8.ofNat_toNat]
    have hcont' : continuation? d = some (c.toNat / 64 % 64) := by
      rw [← continuation?_ofNat (Nat.mod_lt _ (by decide)), ← hd, UInt8.ofNat_toNat]
    have hcont'' : continuation? e = some (c.toNat % 64) := by
      rw [← continuation?_ofNat (Nat.mod_lt _ (by decide)), ← he, UInt8.ofNat_toNat]
    have hnumber : (a.toNat - 0xF0) * 262144 + c.toNat / 4096 % 64 * 4096 +
        c.toNat / 64 % 64 * 64 + c.toNat % 64 = c.toNat := by omega
    -- Rewriting, not reduction: the kernel would otherwise decide the bound on the number.
    rw [if_pos (hrange.2 (by omega)), hcont, Option.bind_eq_bind, Option.bind_some, hcont',
      Option.bind_some, hcont'', Option.bind_some, hnumber, scalar?_toNat hleast]

theorem encodeChar_of_lt {c : Char} (h : c.toNat < 0x80) :
    encodeChar c = [UInt8.ofNat c.toNat] :=
  if_pos h

/-- The bytes of a character decode to it, whatever comes behind them. -/
theorem decode_encodeChar_append (c : Char) (s : Bytes) :
    decode (encodeChar c ++ s) = .char c :: decode s := by
  have hbound := char_bound c
  unfold encodeChar
  simp only
  split
  next h₁ =>
    apply decode_of_one
    rw [one?_eq_some_iff, toNat_ofNat (by omega)]
    exact ⟨h₁, rfl⟩
  split
  next h₁ h₂ =>
    have ha : (UInt8.ofNat (0xC0 + c.toNat / 64)).toNat = 0xC0 + c.toNat / 64 :=
      toNat_ofNat (by omega)
    have hb : (UInt8.ofNat (0x80 + c.toNat % 64)).toNat = 0x80 + c.toNat % 64 :=
      toNat_ofNat (by omega)
    apply decode_of_two (one?_eq_none (by omega))
    rw [two?_eq_some_iff]
    omega
  split
  next h₁ h₂ h₃ =>
    have ha : (UInt8.ofNat (0xE0 + c.toNat / 4096)).toNat = 0xE0 + c.toNat / 4096 :=
      toNat_ofNat (by omega)
    have hb : (UInt8.ofNat (0x80 + c.toNat / 64 % 64)).toNat = 0x80 + c.toNat / 64 % 64 :=
      toNat_ofNat (by omega)
    have hd : (UInt8.ofNat (0x80 + c.toNat % 64)).toNat = 0x80 + c.toNat % 64 :=
      toNat_ofNat (by omega)
    apply decode_of_three (one?_eq_none (by omega)) (two?_eq_none (by omega) _)
    rw [three?_eq_some_iff]
    omega
  next h₁ h₂ h₃ =>
    have ha : (UInt8.ofNat (0xF0 + c.toNat / 262144)).toNat = 0xF0 + c.toNat / 262144 :=
      toNat_ofNat (by omega)
    have hb : (UInt8.ofNat (0x80 + c.toNat / 4096 % 64)).toNat = 0x80 + c.toNat / 4096 % 64 :=
      toNat_ofNat (by omega)
    have hd : (UInt8.ofNat (0x80 + c.toNat / 64 % 64)).toNat = 0x80 + c.toNat / 64 % 64 :=
      toNat_ofNat (by omega)
    have he : (UInt8.ofNat (0x80 + c.toNat % 64)).toNat = 0x80 + c.toNat % 64 :=
      toNat_ofNat (by omega)
    apply decode_of_four (one?_eq_none (by omega)) (two?_eq_none (by omega) _)
      (three?_eq_none (by omega) _ _)
    rw [four?_eq_some_iff]
    omega

/-- A byte of a character is the character itself or no ASCII byte. -/
theorem toNat_of_mem_encodeChar {b : UInt8} {c : Char} (h : b ∈ encodeChar c) :
    b.toNat = c.toNat ∨ 0x80 ≤ b.toNat := by
  have hbound := char_bound c
  unfold encodeChar at h
  simp only at h
  split at h
  next hsmall =>
    left
    rw [List.mem_singleton.1 h, toNat_ofNat (by omega)]
  next =>
    right
    split at h
    · simp only [List.mem_cons, List.not_mem_nil, or_false] at h
      rcases h with rfl | rfl <;> rw [toNat_ofNat (by omega)] <;> omega
    split at h <;> simp only [List.mem_cons, List.not_mem_nil, or_false] at h
    · rcases h with rfl | rfl | rfl <;> rw [toNat_ofNat (by omega)] <;> omega
    · rcases h with rfl | rfl | rfl | rfl <;> rw [toNat_ofNat (by omega)] <;> omega

theorem decode_encode_append (cs : List Char) (s : Bytes) :
    decode (encode cs ++ s) = cs.map .char ++ decode s := by
  induction cs with
  | nil => rfl
  | cons c cs ih =>
    rw [encode, List.flatMap_cons, List.append_assoc, decode_encodeChar_append]
    exact congrArg _ ih

theorem decode_encode (cs : List Char) : decode (encode cs) = cs.map .char := by
  simpa [decode] using decode_encode_append cs []

theorem encode_injective {cs ds : List Char} (h : encode cs = encode ds) : cs = ds := by
  have hpieces := congrArg decode h
  rw [decode_encode, decode_encode] at hpieces
  exact List.map_injective_iff.2 (fun _ _ => Piece.char.inj) hpieces

theorem eq_ofNat {b : UInt8} {n : Nat} (h : b.toNat = n) : b = UInt8.ofNat n := by
  rw [← h, UInt8.ofNat_toNat]

/-- A character that is found in some bytes is encoded in just those bytes. -/
theorem encodeChar_of_one? {a : UInt8} {c : Char} (h : one? a = some c) :
    encodeChar c = [a] := by
  obtain ⟨ha, hc⟩ := one?_eq_some_iff.1 h
  rw [encodeChar_of_lt (by omega), ← eq_ofNat hc.symm]

theorem encodeChar_of_two? {a b : UInt8} {c : Char} (h : two? a b = some c) :
    encodeChar c = [a, b] := by
  obtain ⟨ha, hb, hleast, hmost⟩ := two?_eq_some_iff.1 h
  simp only [encodeChar]
  rw [if_neg (by omega), if_pos hmost, ← eq_ofNat ha, ← eq_ofNat hb]

theorem encodeChar_of_three? {a b d : UInt8} {c : Char} (h : three? a b d = some c) :
    encodeChar c = [a, b, d] := by
  obtain ⟨ha, hb, hd, hleast, hmost⟩ := three?_eq_some_iff.1 h
  simp only [encodeChar]
  rw [if_neg (by omega), if_neg (by omega), if_pos hmost, ← eq_ofNat ha, ← eq_ofNat hb,
    ← eq_ofNat hd]

theorem encodeChar_of_four? {a b d e : UInt8} {c : Char} (h : four? a b d e = some c) :
    encodeChar c = [a, b, d, e] := by
  obtain ⟨ha, hb, hd, he, hleast⟩ := four?_eq_some_iff.1 h
  simp only [encodeChar]
  rw [if_neg (by omega), if_neg (by omega), if_neg (by omega), ← eq_ofNat ha, ← eq_ofNat hb,
    ← eq_ofNat hd, ← eq_ofNat he]

theorem encodeChar_ne_nil (c : Char) : encodeChar c ≠ [] := by
  intro hnil
  have hdecode := decode_encodeChar_append c []
  rw [hnil] at hdecode
  cases hdecode

/-- Decoding takes an encoded character or one byte. -/
theorem decode_cases (s : Bytes) :
    s = [] ∨ (∃ c rest, s = encodeChar c ++ rest) ∨
      ∃ b rest, s = b :: rest ∧ decode s = .stray b :: decode rest := by
  fun_cases decode s with
  | case1 => exact .inl rfl
  | case2 a s c h => exact .inr (.inl ⟨c, s, by simp [encodeChar_of_one? h]⟩)
  | case3 a h => exact .inr (.inr ⟨a, [], rfl, rfl⟩)
  | case4 a h₁ b s c h => exact .inr (.inl ⟨c, s, by simp [encodeChar_of_two? h]⟩)
  | case5 a h₁ b h => exact .inr (.inr ⟨a, [b], rfl, rfl⟩)
  | case6 a h₁ b h₂ d s c h => exact .inr (.inl ⟨c, s, by simp [encodeChar_of_three? h]⟩)
  | case7 a h₁ b h₂ d h => exact .inr (.inr ⟨a, [b, d], rfl, rfl⟩)
  | case8 a h₁ b h₂ d h₃ e s c h => exact .inr (.inl ⟨c, s, by simp [encodeChar_of_four? h]⟩)
  | case9 a h₁ b h₂ d h₃ e s h => exact .inr (.inr ⟨a, b :: d :: e :: s, rfl, rfl⟩)

/-- The bytes that a piece was decoded from. -/
def Piece.source : Piece → Bytes
  | .char c => encodeChar c
  | .stray b => [b]

/-- The pieces of a text put together again are the text: decoding loses no
byte. -/
theorem flatMap_source_decode (s : Bytes) : (decode s).flatMap Piece.source = s := by
  fun_induction decode s with
  | case1 => rfl
  | case2 a s c h ih => simp [Piece.source, ih, encodeChar_of_one? h]
  | case3 a h => rfl
  | case4 a h₁ b s c h ih => simp [Piece.source, ih, encodeChar_of_two? h]
  | case5 a h₁ b h ih => simp [Piece.source, ih]
  | case6 a h₁ b h₂ d s c h ih => simp [Piece.source, ih, encodeChar_of_three? h]
  | case7 a h₁ b h₂ d h ih => simp [Piece.source, ih]
  | case8 a h₁ b h₂ d h₃ e s c h ih => simp [Piece.source, ih, encodeChar_of_four? h]
  | case9 a h₁ b h₂ d h₃ e s h ih => simp [Piece.source, ih]

theorem clean_of_wellFormed {s : Bytes} (h : wellFormed s = true) : clean s = s := by
  have hpieces : ∀ p ∈ decode s, encodeChar p.shown = p.source := by
    intro p hp
    cases p with
    | char c => rfl
    | stray b => cases List.all_eq_true.1 h _ hp
  calc clean s = (decode s).flatMap fun p => encodeChar p.shown := by
        rw [clean, encode, List.flatMap_map]
    _ = (decode s).flatMap Piece.source := List.flatMap_congr hpieces
    _ = s := flatMap_source_decode s

theorem wellFormed_encode (cs : List Char) : wellFormed (encode cs) = true := by
  rw [wellFormed, decode_encode]
  simp [Piece.isChar]

theorem clean_encode (cs : List Char) : clean (encode cs) = encode cs :=
  clean_of_wellFormed (wellFormed_encode cs)

theorem clean_clean (s : Bytes) : clean (clean s) = clean s :=
  clean_encode _

theorem wellFormed_of_ascii {s : Bytes} (h : ∀ b ∈ s, b < 0x80) : wellFormed s = true := by
  induction s with
  | nil => rfl
  | cons b s ih =>
    have hone : one? b = some (Char.ofNat b.toNat) := if_pos (h b List.mem_cons_self)
    rw [wellFormed, decode_of_one hone]
    exact ih fun a ha => h a (List.mem_cons_of_mem b ha)

end Utf8

end PlaceholderIcons
