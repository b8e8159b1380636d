import Mathlib.Data.List.TakeWhile
import PlaceholderIcons.Json.Literal

/-!
The text of an integer. It is the number's own digits without a leading zero
and at most a minus sign in front, so it reads back as the integer and is a
number by the grammar of JSON.
-/

namespace PlaceholderIcons

namespace Decimal

theorem toNat_digit {n : Nat} (h : n < 10) : (digit n).toNat = 0x30 + n :=
  UInt8.toNat_ofNat_of_lt' (show 0x30 + n < 256 by omega)

theorem isDigit_iff {b : UInt8} : isDigit b = true ↔ 0x30 ≤ b.toNat ∧ b.toNat ≤ 0x39 := by
  simp [isDigit, UInt8.le_iff_toNat_le]

theorem isDigit_digit {n : Nat} (h : n < 10) : isDigit (digit n) = true := by
  rw [isDigit_iff, toNat_digit h]
  omega

theorem value_append_digit (s : Bytes) {n : Nat} (h : n < 10) :
    value (s ++ [digit n]) = 10 * value s + n := by
  have hdigit : (digit n).toNat - 0x30 = n := by
    rw [toNat_digit h]
    omega
  rw [value, List.foldl_append]
  exact congrArg (10 * value s + ·) hdigit

/-- The written form of a natural number: digits only, at least one of them,
and no zero in front of another digit. -/
structure Canonical (s : Bytes) : Prop where
  digits : s.all isDigit = true
  ne_nil : s ≠ []
  leading : s = [0x30] ∨ s.head? ≠ some 0x30

theorem canonical_digit {n : Nat} (h : n < 10) : Canonical [digit n] := by
  refine ⟨by simp [isDigit_digit h], by simp, ?_⟩
  by_cases hzero : n = 0
  · left
    rw [hzero]
    rfl
  · right
    intro hhead
    have hnat : (digit n).toNat = 0x30 := congrArg UInt8.toNat (Option.some.inj hhead)
    rw [toNat_digit h] at hnat
    omega

/-- A digit may be put behind any number but zero. -/
theorem canonical_append_digit {s : Bytes} {n : Nat} (hs : Canonical s) (hpos : value s ≠ 0)
    (h : n < 10) : Canonical (s ++ [digit n]) := by
  refine ⟨?_, by simp, .inr ?_⟩
  · rw [List.all_append, hs.digits]
    simp [isDigit_digit h]
  · rcases hs.leading with hzero | hhead
    · exact absurd (hzero ▸ rfl) hpos
    · obtain ⟨b, rest, rfl⟩ := List.exists_cons_of_ne_nil hs.ne_nil
      exact hhead

theorem digitsBelow_spec {bound n : Nat} (h : n < bound) :
    Canonical (digitsBelow bound n) ∧ value (digitsBelow bound n) = n := by
  induction bound generalizing n with
  | zero => omega
  | succ bound ih =>
    rw [digitsBelow]
    split
    next hsmall =>
      have hvalue := value_append_digit [] hsmall
      exact ⟨canonical_digit hsmall, by simpa [value] using hvalue⟩
    next hlarge =>
      obtain ⟨hcanonical, hvalue⟩ := ih (show n / 10 < bound by omega)
      have hmod : n % 10 < 10 := Nat.mod_lt n (by decide)
      refine ⟨canonical_append_digit hcanonical (by omega) hmod, ?_⟩
      rw [value_append_digit _ hmod, hvalue]
      omega

theorem canonical_ofNat (n : Nat) : Canonical (ofNat n) :=
  (digitsBelow_spec (Nat.lt_succ_self n)).1

theorem value_ofNat (n : Nat) : value (ofNat n) = n :=
  (digitsBelow_spec (Nat.lt_succ_self n)).2

theorem Canonical.not_mem {s : Bytes} (h : Canonical s) {b : UInt8} (hb : isDigit b = false) :
    b ∉ s := by
  intro hmem
  have hdigit := List.all_eq_true.1 h.digits b hmem
  rw [hb] at hdigit
  cases hdigit

/-- The text of an integer holds nothing but digits and the minus sign. -/
theorem not_mem_ofInt {b : UInt8} (hdigit : isDigit b = false) (hminus : b ≠ 0x2D) (n : Int) :
    b ∉ ofInt n := by
  cases n with
  | ofNat k => exact (canonical_ofNat k).not_mem hdigit
  | negSucc k =>
    rw [ofInt, List.mem_cons, not_or]
    exact ⟨hminus, (canonical_ofNat (k + 1)).not_mem hdigit⟩

/-- The first byte of digits is no minus sign. -/
theorem Canonical.exists_cons {s : Bytes} (h : Canonical s) :
    ∃ b rest, s = b :: rest ∧ b ≠ 0x2D := by
  obtain ⟨b, rest, rfl⟩ := List.exists_cons_of_ne_nil h.ne_nil
  refine ⟨b, rest, rfl, ?_⟩
  rintro rfl
  have hdigit := List.all_eq_true.1 h.digits _ List.mem_cons_self
  exact absurd hdigit (by decide)

theorem toInt64?_of_canonical {s : Bytes} (h : Canonical s) : toInt64? s = int64? (value s) := by
  obtain ⟨b, rest, rfl, hminus⟩ := h.exists_cons
  have hdigits := h.digits
  simp only [toInt64?]
  split
  next hcons => exact absurd (List.cons.inj hcons).1 hminus
  next =>
    rw [hdigits]
    rfl

theorem toInt64?_minus {s : Bytes} (h : Canonical s) :
    toInt64? (0x2D :: s) = int64? (-value s) := by
  have hempty : s.isEmpty = false := by simpa using h.ne_nil
  simp [toInt64?, hempty, h.digits]

theorem int64?_toInt (n : Int64) : int64? n.toInt = some n := by
  have hrange : Int64.minValue.toInt ≤ n.toInt ∧ n.toInt ≤ Int64.maxValue.toInt :=
    ⟨n.minValue_le_toInt, n.toInt_le⟩
  rw [int64?, if_pos hrange, Int64.ofInt_toInt]

theorem toInt64?_ofInt64 (n : Int64) : toInt64? (ofInt64 n) = some n := by
  rw [← int64?_toInt n, ofInt64]
  cases n.toInt with
  | ofNat k =>
    rw [ofInt, toInt64?_of_canonical (canonical_ofNat k), value_ofNat]
    rfl
  | negSucc k =>
    rw [ofInt, toInt64?_minus (canonical_ofNat (k + 1)), value_ofNat]
    rfl

theorem ofInt64_injective : Function.Injective ofInt64 := by
  intro a b h
  have hread := congrArg toInt64? h
  rw [toInt64?_ofInt64, toInt64?_ofInt64] at hread
  exact Option.some.inj hread

end Decimal

namespace Json

open Decimal

theorem isNumber_of_canonical {s : Bytes} (h : Canonical s) : isNumber s = true := by
  obtain ⟨b, rest, rfl, hminus⟩ := h.exists_cons
  have hall := List.all_eq_true.1 h.digits
  have htake : (b :: rest).takeWhile isDigit = b :: rest := List.takeWhile_eq_self_iff.2 hall
  have hdrop : (b :: rest).dropWhile isDigit = [] := List.dropWhile_eq_nil_iff.2 hall
  have hleading : (b :: rest == [0x30] || (b :: rest).head? != some 0x30) = true := by
    rcases h.leading with hzero | hhead
    · simp [hzero]
    · rw [bne_iff_ne.2 hhead, Bool.or_true]
  simp only [isNumber]
  split
  next hcons => exact absurd (List.cons.inj hcons).1 hminus
  next =>
    rw [htake, hdrop, hleading]
    rfl

theorem isNumber_minus {s : Bytes} (h : Canonical s) : isNumber (0x2D :: s) = true := by
  obtain ⟨b, rest, rfl, hminus⟩ := h.exists_cons
  have hnumber := isNumber_of_canonical h
  simp only [isNumber] at hnumber ⊢
  split at hnumber
  next hcons => exact absurd (List.cons.inj hcons).1 hminus
  next => exact hnumber

theorem isNumber_ofInt64 (n : Int64) : isNumber (Decimal.ofInt64 n) = true := by
  rw [Decimal.ofInt64]
  cases n.toInt with
  | ofNat k => exact isNumber_of_canonical (canonical_ofNat k)
  | negSucc k => exact isNumber_minus (canonical_ofNat (k + 1))

end Json

end PlaceholderIcons
