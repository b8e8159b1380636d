import Mathlib.Algebra.Ring.Nat
import Mathlib.Data.List.Induction
import PlaceholderIcons.Checksum.Text
import PlaceholderIcons.Text.Utf8

/-!
Checksums against their recorded form. Two digits for each of eight bytes are
sixteen digits of the sum, and they write every sum in one way and read back as
it; as no digit is left out, the byte order of the texts is the order of the
sums. Two contents therefore have one hash exactly if they have one sum.
-/

namespace PlaceholderIcons

namespace Bytes

/-- Texts of one length compare by their last byte if they do not differ before. -/
theorem append_singleton_lt_iff {s t : Bytes} (h : s.length = t.length) {x y : UInt8} :
    s ++ [x] < t ++ [y] ↔ s < t ∨ s = t ∧ x < y := by
  induction s generalizing t with
  | nil =>
    cases t with
    | nil => simp [List.cons_lt_cons_iff]
    | cons b t => cases h
  | cons a s ih =>
    cases t with
    | nil => cases h
    | cons b t =>
      rw [List.cons_append, List.cons_append, List.cons_lt_cons_iff, List.cons_lt_cons_iff,
        ih (Nat.succ.inj h), List.cons.injEq]
      tauto

end Bytes

namespace Hexadecimal

/-- The digits by increasing value. -/
def digits : Bytes := utf8 "0123456789abcdef"

/-- The number that a text writes in base sixteen, if it has digits only. -/
def read? (s : Bytes) : Option Nat :=
  s.foldlM (fun n b => (value? b).map (n * 16 + ·)) 0

theorem digits_eq : digits = (List.range 16).map digit := by
  decide

theorem mem_digits_iff {b : UInt8} : b ∈ digits ↔ ∃ k < 16, digit k = b := by
  simp [digits_eq]

theorem value?_digit {k : Nat} (h : k < 16) : value? (digit k) = some k := by
  have hall : ∀ k : Fin 16, value? (digit k) = some k.val := by decide
  exact hall ⟨k, h⟩

/-- A greater digit is a greater byte: the letters come behind the numerals. -/
theorem digit_lt_digit_iff {j k : Nat} (hj : j < 16) (hk : k < 16) : digit j < digit k ↔ j < k := by
  have hall : ∀ j k : Fin 16, digit j < digit k ↔ j.val < k.val := by decide
  exact hall ⟨j, hj⟩ ⟨k, hk⟩

theorem length_fixed (width n : Nat) : (fixed width n).length = width := by
  induction width generalizing n with
  | zero => rfl
  | succ width ih => simp [fixed, ih]

/-- The lowest two digits are those of the lowest byte. -/
theorem fixed_add_two (width n : Nat) :
    fixed (width + 2) n = fixed width (n / 256) ++ fixed 2 (n % 256) := by
  have hfront : n / 16 / 16 = n / 256 := Nat.div_div_eq_div_mul n 16 16
  have hsecond : n % 256 / 16 % 16 = n / 16 % 16 := by omega
  have hlast : n % 256 % 16 = n % 16 := by omega
  simp only [fixed, hfront, hsecond, hlast, List.append_assoc, List.nil_append]

theorem mem_digits_of_mem_fixed {width n : Nat} {b : UInt8} (h : b ∈ fixed width n) :
    b ∈ digits := by
  induction width generalizing n with
  | zero => cases h
  | succ width ih =>
    rcases List.mem_append.1 h with hfront | hlast
    · exact ih hfront
    · rw [List.mem_singleton.1 hlast]
      exact mem_digits_iff.2 ⟨n % 16, Nat.mod_lt n (by decide), rfl⟩

theorem bounds_of_mem_digits {b : UInt8} (h : b ∈ digits) : 0x30 ≤ b ∧ b < 0x80 := by
  have hall : digits.all (fun b => 0x30 ≤ b ∧ b < 0x80) = true := by decide
  simpa using List.all_eq_true.1 hall b h

theorem bounds_of_mem_fixed {width n : Nat} {b : UInt8} (h : b ∈ fixed width n) :
    0x30 ≤ b ∧ b < 0x80 :=
  bounds_of_mem_digits (mem_digits_of_mem_fixed h)

theorem read?_append_singleton (s : Bytes) (b : UInt8) :
    read? (s ++ [b]) = (read? s).bind fun n => (value? b).map (n * 16 + ·) := by
  simp [read?, List.foldlM_append]

/-- A number reads back as far as its digits were written. -/
theorem read?_fixed (width n : Nat) : read? (fixed width n) = some (n % 16 ^ width) := by
  induction width generalizing n with
  | zero => simp [fixed, read?, Nat.mod_one]
  | succ width ih =>
    have hdigit := value?_digit (Nat.mod_lt n (show 16 > 0 by decide))
    rw [fixed, read?_append_singleton, ih, Option.bind_some, hdigit, Option.map_some, pow_succ',
      Nat.mod_mul]
    congr 1
    omega

theorem fixed_inj {width n m : Nat} (hn : n < 16 ^ width) (hm : m < 16 ^ width) :
    fixed width n = fixed width m ↔ n = m := by
  refine ⟨fun heq => ?_, congrArg _⟩
  have hread := congrArg read? heq
  rwa [read?_fixed, read?_fixed, Nat.mod_eq_of_lt hn, Nat.mod_eq_of_lt hm, Option.some_inj] at hread

theorem fixed_lt_fixed_iff {width n m : Nat} (hn : n < 16 ^ width) (hm : m < 16 ^ width) :
    fixed width n < fixed width m ↔ n < m := by
  induction width generalizing n m with
  | zero =>
    obtain rfl : n = 0 := by simpa using hn
    obtain rfl : m = 0 := by simpa using hm
    simp [fixed]
  | succ width ih =>
    have hn' : n / 16 < 16 ^ width := by rw [pow_succ] at hn; omega
    have hm' : m / 16 < 16 ^ width := by rw [pow_succ] at hm; omega
    have hlength : (fixed width (n / 16)).length = (fixed width (m / 16)).length := by
      rw [length_fixed, length_fixed]
    -- The leading digits decide, and only if they agree does the last one.
    rw [fixed, fixed, Bytes.append_singleton_lt_iff hlength, ih hn' hm', fixed_inj hn' hm',
      digit_lt_digit_iff (Nat.mod_lt n (by decide)) (Nat.mod_lt m (by decide))]
    omega

/-- Every text of digits writes a number. -/
theorem exists_fixed_eq {s : Bytes} (h : ∀ b ∈ s, b ∈ digits) :
    ∃ n < 16 ^ s.length, fixed s.length n = s := by
  induction s using List.reverseRecOn with
  | nil => exact ⟨0, by simp, rfl⟩
  | append_singleton s b ih =>
    obtain ⟨n, hn, hfixed⟩ := ih fun d hd => h d (List.mem_append_left [b] hd)
    obtain ⟨k, hk, rfl⟩ := mem_digits_iff.1 (h b List.mem_concat_self)
    refine ⟨n * 16 + k, ?_, ?_⟩
    · rw [List.length_append, List.length_singleton, pow_succ]
      omega
    · have hfront : (n * 16 + k) / 16 = n := by omega
      have hlast : (n * 16 + k) % 16 = k := by omega
      rw [List.length_append, List.length_singleton, fixed, hfront, hlast, hfixed]

end Hexadecimal

namespace Checksum

open Hexadecimal

theorem toNat_lt_sixteenDigits (v : UInt64) : v.toNat < 16 ^ 16 :=
  v.toNat_lt

/-- Bytes from the most significant one, with two digits each, are the digits of
the number. -/
theorem flatMap_bigEndian (count n : Nat) :
    (bigEndian count n).flatMap (fun b => fixed 2 b.toNat) = fixed (2 * count) n := by
  induction count generalizing n with
  | zero => rfl
  | succ count ih =>
    have hbyte : (UInt8.ofNat (n % 256)).toNat = n % 256 :=
      UInt8.toNat_ofNat_of_lt' (Nat.mod_lt n (by decide))
    rw [bigEndian, List.flatMap_append, ih, List.flatMap_singleton, hbyte, Nat.mul_succ]
    exact (fixed_add_two (2 * count) n).symm

theorem text_eq_fixed (v : UInt64) : text v = fixed 16 v.toNat :=
  flatMap_bigEndian 8 v.toNat

theorem length_text (v : UInt64) : (text v).length = 16 := by
  rw [text_eq_fixed, length_fixed]

theorem mem_digits_of_mem_text {v : UInt64} {b : UInt8} (h : b ∈ text v) : b ∈ digits := by
  rw [text_eq_fixed] at h
  exact mem_digits_of_mem_fixed h

theorem bounds_of_mem_text {v : UInt64} {b : UInt8} (h : b ∈ text v) : 0x30 ≤ b ∧ b < 0x80 :=
  bounds_of_mem_digits (mem_digits_of_mem_text h)

theorem text_inj {v w : UInt64} : text v = text w ↔ v = w := by
  rw [text_eq_fixed, text_eq_fixed,
    fixed_inj (toNat_lt_sixteenDigits v) (toNat_lt_sixteenDigits w), UInt64.toNat_inj]

/-- The texts of sums are the texts of sixteen lower-case digits, one for each sum. -/
theorem existsUnique_text_eq_iff {s : Bytes} :
    (∃! v, text v = s) ↔ s.length = 16 ∧ ∀ b ∈ s, b ∈ digits := by
  constructor
  · rintro ⟨v, rfl, -⟩
    exact ⟨length_text v, fun _ => mem_digits_of_mem_text⟩
  · rintro ⟨hlength, hdigits⟩
    obtain ⟨n, hn, hfixed⟩ := exists_fixed_eq hdigits
    rw [hlength] at hn hfixed
    have htext : text (UInt64.ofNat n) = s := by
      rw [text_eq_fixed, UInt64.toNat_ofNat_of_lt' hn, hfixed]
    exact ⟨UInt64.ofNat n, htext, fun w hw => text_inj.1 (hw.trans htext.symm)⟩

/-- The recorded form of a sum is faithful. It has sixteen lower-case digits,
reads back as the sum, and every such text is the form of one sum; sums and
their forms have the same order. So two contents have one hash exactly if they
have one sum. -/
theorem text_faithful :
    (∀ v, (text v).length = 16 ∧ (∀ b ∈ text v, b ∈ digits) ∧ read? (text v) = some v.toNat) ∧
    (∀ s, (∃! v, text v = s) ↔ s.length = 16 ∧ ∀ b ∈ s, b ∈ digits) ∧
    (∀ v w, v < w ↔ text v < text w) ∧
    ∀ a b, contentHash a = contentHash b ↔ sum64 a = sum64 b := by
  refine ⟨?_, fun _ => existsUnique_text_eq_iff, ?_, fun _ _ => text_inj⟩
  · intro v
    refine ⟨length_text v, fun _ => mem_digits_of_mem_text, ?_⟩
    rw [text_eq_fixed, read?_fixed, Nat.mod_eq_of_lt (toNat_lt_sixteenDigits v)]
  · intro v w
    rw [text_eq_fixed, text_eq_fixed,
      fixed_lt_fixed_iff (toNat_lt_sixteenDigits v) (toNat_lt_sixteenDigits w),
      UInt64.lt_iff_toNat_lt]

end Checksum

end PlaceholderIcons
