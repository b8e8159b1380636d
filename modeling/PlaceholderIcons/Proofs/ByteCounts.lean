import Mathlib.Algebra.Order.Field.Basic
import Mathlib.Tactic.Linarith
import Mathlib.Tactic.Positivity
import Mathlib.Tactic.Ring
import PlaceholderIcons.Decimal.ByteCount
import PlaceholderIcons.Proofs.IntegerText
import PlaceholderIcons.Proofs.PathNames

/-!
Byte counts read back. A count in KB or MB stands for the tenth of its unit that
is nearest to the true count, and of two equally near ones for the even one.
Rounding to tenths of a unit leaves the places where the unit changes alone, so
larger counts never show as smaller ones.
-/

namespace PlaceholderIcons

namespace Decimal

/-- The number that digits stand for, with at most one point among them. -/
def fraction? (s : Bytes) : Option ℚ :=
  let (whole, places) := Bytes.splitFirst 0x2E s
  let digits := whole ++ places.getD []
  if whole.isEmpty || places == some [] || !digits.all isDigit then none
  else some (value digits / 10 ^ (places.getD []).length)

/-- The number that digits stand for, with at most a minus sign in front. -/
def rational? (s : Bytes) : Option ℚ :=
  if s.head? = some 0x2D then (fraction? s.tail).map fun x => -x else fraction? s

theorem Canonical.head?_ne {s : Bytes} (h : Canonical s) (more : Bytes) :
    (s ++ more).head? ≠ some 0x2D := by
  obtain ⟨b, rest, rfl, hminus⟩ := h.exists_cons
  simpa using hminus

theorem fraction?_of_canonical {s : Bytes} (h : Canonical s) : fraction? s = some (value s) := by
  have hempty : s.isEmpty = false := by simpa using h.ne_nil
  simp [fraction?, Bytes.splitFirst_of_not_mem (h.not_mem (show isDigit 0x2E = false by decide)),
    hempty, h.digits]

theorem rational?_ofInt (n : Int) : rational? (ofInt n) = some (n : ℚ) := by
  cases n with
  | ofNat k =>
    have hhead := (canonical_ofNat k).head?_ne []
    rw [List.append_nil] at hhead
    rw [ofInt, rational?, if_neg hhead, fraction?_of_canonical (canonical_ofNat k), value_ofNat]
    simp
  | negSucc k =>
    rw [ofInt, rational?, List.head?_cons, if_pos rfl, List.tail_cons,
      fraction?_of_canonical (canonical_ofNat (k + 1)), value_ofNat]
    simp [Int.negSucc_eq]

theorem rational?_ofTenths (n : Nat) : rational? (ofTenths n) = some ((n : ℚ) / 10) := by
  have hcanonical := canonical_ofNat (n / 10)
  have hmod : n % 10 < 10 := Nat.mod_lt n (by decide)
  have hempty : (ofNat (n / 10)).isEmpty = false := by simpa using hcanonical.ne_nil
  have hpoint := hcanonical.not_mem (show isDigit 0x2E = false by decide)
  have hvalue : value (ofNat (n / 10) ++ [digit (n % 10)]) = n := by
    rw [value_append_digit _ hmod, value_ofNat]
    omega
  rw [ofTenths, rational?, if_neg (hcanonical.head?_ne _), fraction?,
    Bytes.splitFirst_append hpoint]
  simp [hempty, hcanonical.digits, isDigit_digit hmod, hvalue]

/-- Rounding goes down or up by the remainder; on a tie it goes to the even
neighbour. -/
theorem divToEven_cases (numerator denominator : Nat) :
    let quotient := numerator / denominator
    let rest := numerator % denominator
    divToEven numerator denominator = quotient ∧ 2 * rest < denominator ∨
    divToEven numerator denominator = quotient + 1 ∧ denominator < 2 * rest ∨
    2 * rest = denominator ∧ Even (divToEven numerator denominator) ∧
      (divToEven numerator denominator = quotient ∨
        divToEven numerator denominator = quotient + 1) := by
  intro quotient rest
  by_cases hless : 2 * rest < denominator
  · exact .inl ⟨if_pos hless, hless⟩
  · by_cases hmore : denominator < 2 * rest
    · exact .inr (.inl ⟨(if_neg hless).trans (if_pos hmore), hmore⟩)
    · have hvalue : divToEven numerator denominator = quotient + quotient % 2 :=
        (if_neg hless).trans (if_neg hmore)
      refine .inr (.inr ⟨by omega, ?_⟩)
      rw [hvalue, Nat.even_iff]
      omega

/-- Rounding misses by at most half the denominator, and by half of it only to
reach an even number. -/
theorem divToEven_error (numerator : Nat) {denominator : Nat} (h : 0 < denominator) :
    2 * |(numerator : ℤ) - divToEven numerator denominator * denominator| ≤ denominator ∧
      (2 * |(numerator : ℤ) - divToEven numerator denominator * denominator| = denominator →
        Even (divToEven numerator denominator)) := by
  have hrest := Nat.mod_lt numerator h
  have hdiv := Nat.div_add_mod' numerator denominator
  have hdown : (numerator : ℤ) - (numerator / denominator : ℕ) * denominator =
      (numerator % denominator : ℕ) := by
    rw [sub_eq_iff_eq_add']
    exact_mod_cast hdiv.symm
  have hup : (numerator : ℤ) - (numerator / denominator + 1 : ℕ) * denominator =
      (numerator % denominator : ℕ) - denominator := by
    rw [← hdown]
    push_cast
    ring
  obtain ⟨hq, hless⟩ | ⟨hq, hmore⟩ | ⟨htie, heven, hq | hq⟩ :=
    divToEven_cases numerator denominator
  · rw [hq, hdown, abs_of_nonneg (by omega)]
    omega
  · rw [hq, hup, abs_of_neg (by omega)]
    omega
  · refine ⟨?_, fun _ => heven⟩
    rw [hq, hdown, abs_of_nonneg (by omega)]
    omega
  · refine ⟨?_, fun _ => heven⟩
    rw [hq, hup, abs_of_neg (by omega)]
    omega

theorem divToEven_mono {a b denominator : Nat} (h : 0 < denominator) (hab : a ≤ b) :
    divToEven a denominator ≤ divToEven b denominator := by
  by_contra hlt
  have hstep : (divToEven b denominator + 1) * (denominator : ℤ) ≤
      divToEven a denominator * denominator := by
    apply mul_le_mul_of_nonneg_right _ (Int.natCast_nonneg _)
    exact_mod_cast Nat.lt_of_not_le hlt
  have hlow := neg_abs_le ((a : ℤ) - divToEven a denominator * denominator)
  have hhigh := le_abs_self ((b : ℤ) - divToEven b denominator * denominator)
  have ha := (divToEven_error a h).1
  have hb := (divToEven_error b h).1
  -- Both numbers would lie in the middle between the two multiples.
  have heq : a = b := by
    rw [add_mul, one_mul] at hstep
    omega
  exact hlt (heq ▸ le_rfl)

theorem divToEven_mul (count : Nat) {denominator : Nat} (h : 0 < denominator) :
    divToEven (count * denominator) denominator = count := by
  simp [divToEven, h]

theorem toBinary64_of_lt {n : Nat} (h : n < 2 ^ 53) : toBinary64 n = n := by
  have hlog : n.log2 - 52 = 0 := by
    by_cases hn : n = 0
    · simp [hn]
    · have := (Nat.log2_lt hn).2 h
      omega
  have hone := divToEven_mul n Nat.one_pos
  rw [Nat.mul_one] at hone
  simp only [toBinary64, hlog, twoTo]
  change divToEven n 1 * 1 = n
  rw [hone, Nat.mul_one]

end Decimal

open Decimal

/-- The multiple `count * step` is as near to `x` as any multiple of `step`, and if
another one is just as near then `count` is even. -/
structure NearestMultiple (step x : ℚ) (count : ℕ) : Prop where
  nearest : ∀ other : ℤ, |x - count * step| ≤ |x - other * step|
  even_of_tie : ∀ other : ℤ, other ≠ count → |x - other * step| = |x - count * step| → Even count

theorem NearestMultiple.of_error {step x : ℚ} {count : ℕ} (hstep : 0 ≤ step)
    (herror : 2 * |x - count * step| ≤ step)
    (heven : 2 * |x - count * step| = step → Even count) : NearestMultiple step x count := by
  -- Another multiple is a whole step away from this one.
  have hother : ∀ other : ℤ, other ≠ count →
      step ≤ |x - count * step| + |x - other * step| := by
    intro other hne
    have hfar : (1 : ℚ) ≤ |((other - count : ℤ) : ℚ)| := by
      rw [← Int.cast_abs]
      exact_mod_cast Int.one_le_abs (sub_ne_zero.2 hne)
    calc step ≤ |((other - count : ℤ) : ℚ)| * step := le_mul_of_one_le_left hstep hfar
      _ = |((other - count : ℤ) : ℚ) * step| := by rw [abs_mul, abs_of_nonneg hstep]
      _ = |(x - count * step) - (x - other * step)| := by
          congr 1
          push_cast
          ring
      _ ≤ |x - count * step| + |x - other * step| := abs_sub _ _
  refine ⟨fun other => ?_, fun other hne htie => ?_⟩
  · by_cases hne : other = count
    · rw [hne]
      exact le_rfl
    · linarith [hother other hne]
  · apply heven
    linarith [hother other hne]

/-- A number of bytes rounded to tenths of a unit. -/
def roundedTo (unit n : ℕ) : ℚ :=
  divToEven (10 * n) unit * (unit / 10)

theorem nearestMultiple_divToEven {unit : ℕ} (h : 0 < unit) (n : ℕ) :
    NearestMultiple (unit / 10) n (divToEven (10 * n) unit) := by
  obtain ⟨herror, heven⟩ := divToEven_error (10 * n) h
  have hscale : 2 * |(n : ℚ) - divToEven (10 * n) unit * (unit / 10)| =
      ((2 * |((10 * n : ℕ) : ℤ) - divToEven (10 * n) unit * unit| : ℤ) : ℚ) / 10 := by
    have hinner : (n : ℚ) - divToEven (10 * n) unit * (unit / 10) =
        (((10 * n : ℕ) : ℤ) - divToEven (10 * n) unit * unit : ℤ) / 10 := by
      push_cast
      ring
    rw [hinner, abs_div, abs_of_pos (show (0 : ℚ) < 10 by norm_num)]
    push_cast
    ring
  apply NearestMultiple.of_error (by positivity)
  · rw [hscale]
    have hcast : ((2 * |((10 * n : ℕ) : ℤ) - divToEven (10 * n) unit * unit| : ℤ) : ℚ) ≤
        (unit : ℤ) := Int.cast_le.2 herror
    rw [Int.cast_natCast] at hcast
    linarith
  · intro htie
    apply heven
    rw [hscale, div_left_inj' (by norm_num)] at htie
    exact_mod_cast htie

theorem roundedTo_mono {unit a b : ℕ} (h : 0 < unit) (hab : a ≤ b) :
    roundedTo unit a ≤ roundedTo unit b := by
  have hcount : divToEven (10 * a) unit ≤ divToEven (10 * b) unit :=
    divToEven_mono h (Nat.mul_le_mul_left 10 hab)
  apply mul_le_mul_of_nonneg_right _ (by positivity)
  exact_mod_cast hcount

/-- Whole units are not rounded. -/
theorem roundedTo_mul (count : ℕ) {unit : ℕ} (h : 0 < unit) :
    roundedTo unit (count * unit) = count * unit := by
  rw [roundedTo, ← Nat.mul_assoc, divToEven_mul (10 * count) h]
  push_cast
  ring

/-- The unit of the counts that are not in plain bytes. -/
def unitFor (n : ℤ) : ℕ :=
  if n < 2 ^ 20 then 2 ^ 10 else 2 ^ 20

theorem unitFor_pos (n : ℤ) : 0 < unitFor n := by
  unfold unitFor
  split <;> decide

/-- The number of bytes that the count of `n` bytes stands for. -/
def shownBytes (n : ℤ) : ℚ :=
  if n < 2 ^ 10 then n else roundedTo (unitFor n) n.toNat

theorem shownBytes_of_lt {n : ℤ} (h : n < 2 ^ 10) : shownBytes n = n :=
  if_pos h

theorem shownBytes_of_le {n : ℤ} (h : 2 ^ 10 ≤ n) :
    shownBytes n = roundedTo (unitFor n) n.toNat :=
  if_neg (not_lt.2 h)

/-- What is shown in a unit is at least this unit. -/
theorem le_shownBytes {n : ℤ} (h : 2 ^ 10 ≤ n) : (unitFor n : ℚ) ≤ shownBytes n := by
  have hreach : 1 * unitFor n ≤ n.toNat := by
    unfold unitFor
    split <;> omega
  have hexact := roundedTo_mul 1 (unitFor_pos n)
  rw [shownBytes_of_le h]
  calc (unitFor n : ℚ) = roundedTo (unitFor n) (1 * unitFor n) := by rw [hexact]; simp
    _ ≤ roundedTo (unitFor n) n.toNat := roundedTo_mono (unitFor_pos n) hreach

/-- What is shown in the smaller unit does not pass the larger one. -/
theorem shownBytes_le {n : ℤ} (h : 2 ^ 10 ≤ n) (hlt : n < 2 ^ 20) : shownBytes n ≤ 2 ^ 20 := by
  have hunit : unitFor n = 2 ^ 10 := if_pos hlt
  have hreach : n.toNat ≤ 2 ^ 10 * 2 ^ 10 := by omega
  have hexact := roundedTo_mul (2 ^ 10) (show 0 < 2 ^ 10 by decide)
  rw [shownBytes_of_le h, hunit]
  calc roundedTo (2 ^ 10) n.toNat ≤ roundedTo (2 ^ 10) (2 ^ 10 * 2 ^ 10) :=
        roundedTo_mono (by decide) hreach
    _ = 2 ^ 20 := by rw [hexact]; norm_num

theorem shownBytes_mono {a b : ℤ} (hab : a ≤ b) : shownBytes a ≤ shownBytes b := by
  by_cases hb : b < 2 ^ 10
  · rw [shownBytes_of_lt hb, shownBytes_of_lt (lt_of_le_of_lt hab hb)]
    exact_mod_cast hab
  have hb' : 2 ^ 10 ≤ b := not_lt.1 hb
  by_cases ha : a < 2 ^ 10
  · have hunit : (2 ^ 10 : ℚ) ≤ unitFor b := by
      unfold unitFor
      split <;> norm_num
    have hsmall : (a : ℚ) ≤ 2 ^ 10 := by exact_mod_cast ha.le
    rw [shownBytes_of_lt ha]
    exact hsmall.trans (hunit.trans (le_shownBytes hb'))
  have ha' : 2 ^ 10 ≤ a := not_lt.1 ha
  -- On two sides of a change of unit, both are compared with the unit itself.
  by_cases hcross : a < 2 ^ 20 ∧ ¬ b < 2 ^ 20
  · have hunit : (unitFor b : ℚ) = 2 ^ 20 := by
      rw [show unitFor b = 2 ^ 20 from if_neg hcross.2]
      norm_num
    exact (shownBytes_le ha' hcross.1).trans (hunit ▸ le_shownBytes hb')
  · have hunit : unitFor a = unitFor b := by
      unfold unitFor
      split <;> split <;> omega
    rw [shownBytes_of_le ha', shownBytes_of_le hb', hunit]
    exact roundedTo_mono (unitFor_pos b) (Int.toNat_le_toNat hab)

/-- The bytes in a unit. -/
def bytesIn? (unit : Bytes) : Option ℕ :=
  if unit = utf8 "B" then some 1
  else if unit = utf8 "KB" then some (2 ^ 10)
  else if unit = utf8 "MB" then some (2 ^ 20)
  else none

/-- The number in front of the blank. -/
def mantissa (s : Bytes) : Bytes :=
  (Bytes.splitFirst 0x20 s).1

/-- The number of bytes that a text of a number, a blank and a unit stands for. -/
def readByteCount? (s : Bytes) : Option ℚ := do
  let unit ← (Bytes.splitFirst 0x20 s).2
  let bytes ← bytesIn? unit
  let number ← rational? (mantissa s)
  return number * bytes

theorem readByteCount?_of_parts {number unit : Bytes} {x : ℚ} {bytes : ℕ} (hblank : 0x20 ∉ number)
    (hnumber : rational? number = some x) (hunit : bytesIn? unit = some bytes) :
    readByteCount? (number ++ 0x20 :: unit) = some (x * bytes) := by
  simp [readByteCount?, mantissa, Bytes.splitFirst_append hblank, hnumber, hunit]

theorem mantissa_of_parts {number : Bytes} (hblank : 0x20 ∉ number) (unit : Bytes) :
    mantissa (number ++ 0x20 :: unit) = number := by
  rw [mantissa, Bytes.splitFirst_append hblank]

theorem blank_not_mem_ofTenths (n : ℕ) : 0x20 ∉ ofTenths n := by
  have hdigit : isDigit 0x20 = false := by decide
  have hlast := (canonical_digit (Nat.mod_lt n (by decide : 10 > 0))).not_mem hdigit
  rw [ofTenths, List.mem_append, List.mem_cons, not_or, not_or]
  exact ⟨(canonical_ofNat (n / 10)).not_mem hdigit, by decide, hlast⟩

theorem byteCount_of_lt {count : Int64} (h : count.toInt < 2 ^ 10) :
    byteCount count = ofInt count.toInt ++ 0x20 :: utf8 "B" := by
  have hmega : ¬ (megabyte : ℤ) ≤ count.toInt := by
    unfold megabyte
    omega
  have hkilo : ¬ (kilobyte : ℤ) ≤ count.toInt := by
    unfold kilobyte
    omega
  simp only [byteCount, if_neg hmega, if_neg hkilo]
  rfl

/-- The tenths of its unit that a count shows. -/
def tenthsOf (n : ℤ) : ℕ :=
  divToEven (10 * n.toNat) (unitFor n)

theorem byteCount_of_le {count : Int64} (h : 2 ^ 10 ≤ count.toInt) (hlt : count.toInt < 2 ^ 53) :
    ∃ unit, bytesIn? unit = some (unitFor count.toInt) ∧
      byteCount count = ofTenths (tenthsOf count.toInt) ++ 0x20 :: unit := by
  have hexact : toBinary64 count.toInt.toNat = count.toInt.toNat := toBinary64_of_lt (by omega)
  by_cases hmega : (megabyte : ℤ) ≤ count.toInt
  · have hunit : unitFor count.toInt = megabyte :=
      if_neg (show ¬ count.toInt < 2 ^ 20 by unfold megabyte at hmega; omega)
    refine ⟨utf8 "MB", by rw [hunit]; rfl, ?_⟩
    simp only [byteCount, if_pos hmega, byteTenths, hexact, tenthsOf, hunit]
    rfl
  · have hkilo : (kilobyte : ℤ) ≤ count.toInt := by
      unfold kilobyte
      omega
    have hunit : unitFor count.toInt = kilobyte :=
      if_pos (show count.toInt < 2 ^ 20 by unfold megabyte at hmega; omega)
    refine ⟨utf8 "KB", by rw [hunit]; rfl, ?_⟩
    simp only [byteCount, if_neg hmega, if_pos hkilo, byteTenths, hexact, tenthsOf, hunit]
    rfl

theorem readByteCount?_byteCount {count : Int64} (hlt : count.toInt < 2 ^ 53) :
    readByteCount? (byteCount count) = some (shownBytes count.toInt) := by
  by_cases h : count.toInt < 2 ^ 10
  · have hread := readByteCount?_of_parts (not_mem_ofInt (by decide) (by decide) count.toInt)
      (rational?_ofInt count.toInt) (show bytesIn? (utf8 "B") = some 1 from rfl)
    rw [byteCount_of_lt h, hread, shownBytes_of_lt h]
    simp
  · have h' : 2 ^ 10 ≤ count.toInt := not_lt.1 h
    obtain ⟨unit, hunit, htext⟩ := byteCount_of_le h' hlt
    have hread := readByteCount?_of_parts (blank_not_mem_ofTenths (tenthsOf count.toInt))
      (rational?_ofTenths _) hunit
    rw [htext, hread, shownBytes_of_le h', roundedTo, tenthsOf]
    congr 1
    ring

/-- A printed count read back, for every count below `2 ^ 53`. Below one KB it is
the count itself. From there on it is the tenth of the unit nearest to the
count, and in the middle between two tenths the last digit printed is even. A
smaller count never reads as more. -/
theorem byteCount_rounded (count : Int64) (h : count.toInt < 2 ^ 53) :
    ∃ shown, readByteCount? (byteCount count) = some shown ∧
      (count.toInt < 2 ^ 10 → shown = count.toInt) ∧
      (2 ^ 10 ≤ count.toInt → ∃ tenths : ℕ,
        let tenth : ℚ := (if count.toInt < 2 ^ 20 then 2 ^ 10 else 2 ^ 20) / 10
        shown = tenths * tenth ∧ NearestMultiple tenth count.toInt tenths ∧
        (mantissa (byteCount count)).getLast? = some (digit (tenths % 10))) ∧
      ∀ smaller : Int64, smaller ≤ count →
        ∃ less, readByteCount? (byteCount smaller) = some less ∧ less ≤ shown := by
  refine ⟨shownBytes count.toInt, readByteCount?_byteCount h, shownBytes_of_lt, ?_, ?_⟩
  · intro hlarge
    obtain ⟨unit, -, htext⟩ := byteCount_of_le hlarge h
    have htenth : ((if count.toInt < 2 ^ 20 then 2 ^ 10 else 2 ^ 20 : ℚ) / 10) =
        (unitFor count.toInt : ℚ) / 10 := by
      unfold unitFor
      split <;> norm_num
    have hcount : ((count.toInt.toNat : ℕ) : ℚ) = count.toInt := by
      rw [← Int.cast_natCast, Int.toNat_of_nonneg (by omega)]
    refine ⟨tenthsOf count.toInt, ?_⟩
    rw [htenth, ← hcount]
    refine ⟨shownBytes_of_le hlarge, nearestMultiple_divToEven (unitFor_pos _) _, ?_⟩
    rw [htext, mantissa_of_parts (blank_not_mem_ofTenths _)]
    simp [ofTenths]
  · intro smaller hle
    have hle' : smaller.toInt ≤ count.toInt := Int64.le_iff_toInt_le.1 hle
    exact ⟨_, readByteCount?_byteCount (by omega), shownBytes_mono hle'⟩

/-- A count in the middle between two tenths, and one that is rounded up to the
next unit. -/
theorem byteCount_rounded_tie :
    byteCount 1280 = utf8 "1.2 KB" ∧ byteCount 1048575 = utf8 "1024.0 KB" ∧
    ∃ shown less, readByteCount? (byteCount 1048575) = some shown ∧
      readByteCount? (byteCount 1280) = some less ∧ less ≤ shown ∧
      ∃ tenths : ℕ, NearestMultiple (2 ^ 10 / 10) (1280 : Int64).toInt tenths ∧
        (mantissa (byteCount 1280)).getLast? = some (digit (tenths % 10)) := by
  obtain ⟨shown, hshown, -, -, hsmaller⟩ := byteCount_rounded 1048575 (by decide)
  obtain ⟨less, hless, hle⟩ := hsmaller 1280 (by decide)
  obtain ⟨_, -, -, htenths, -⟩ := byteCount_rounded 1280 (by decide)
  obtain ⟨tenths, -, hnearest, hlast⟩ := htenths (by decide)
  refine ⟨by decide +kernel, by decide +kernel, shown, less, hshown, hless, hle, tenths, ?_, hlast⟩
  simpa [show (1280 : Int64).toInt < 2 ^ 20 by decide] using hnearest

end PlaceholderIcons
