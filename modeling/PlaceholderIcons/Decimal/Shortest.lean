import PlaceholderIcons.Decimal.Integer
import PlaceholderIcons.Text.Utf8

/-!
Binary64 numbers in base ten, with the fewest digits that read back as the
same number and always in positional notation. A finite number is taken apart
into an integer times a power of two and all comparisons are exact.
-/

namespace PlaceholderIcons

namespace Decimal

/-- What the 64 bits of a number mean; a finite number has the magnitude
`mantissa * 2 ^ exponent`. -/
inductive Binary64 where
  | nan
  | infinite (negative : Bool)
  | finite (negative : Bool) (mantissa : Nat) (exponent : Int)

def Binary64.ofFloat (x : Float) : Binary64 :=
  let bits := x.toBits.toNat
  let negative := bits / twoTo 63 == 1
  let exponent : Nat := bits / twoTo 52 % 2048
  let fraction := bits % twoTo 52
  if exponent = 2047 then
    if fraction = 0 then .infinite negative else .nan
  else if exponent = 0 then
    .finite negative fraction (-1074)
  else
    .finite negative (twoTo 52 + fraction) (exponent - 1075)

/-- A decimal `digits * 10 ^ exponent`. -/
structure Scaled where
  digits : Nat
  exponent : Int

/-- The reals that round to one binary64 number, as numerators over a common
denominator. The ends belong to the interval if `closed`. -/
structure Interval where
  low : Nat
  value : Nat
  high : Nat
  denominator : Nat
  closed : Bool

/-- The interval of `mantissa * 2 ^ exponent`. The gap below a power of two is
half the gap above it, and a tie goes to the even mantissa. -/
def Interval.around (mantissa : Nat) (exponent : Int) : Interval :=
  let below := if mantissa = twoTo 52 ∧ exponent ≠ -1074 then 1 else 2
  let unit := twoTo (exponent - 2).toNat
  { low := (4 * mantissa - below) * unit
    value := 4 * mantissa * unit
    high := (4 * mantissa + 2) * unit
    denominator := twoTo (2 - exponent).toNat
    closed := mantissa % 2 == 0 }

/-- Whether `n * 10 ^ k` lies in the interval. -/
def Interval.contains (i : Interval) (n : Nat) (k : Int) : Bool :=
  let point := n * tenTo k.toNat * i.denominator
  let scale := tenTo (-k).toNat
  if i.closed then i.low * scale ≤ point && point ≤ i.high * scale
  else i.low * scale < point && point < i.high * scale

/-- The exponent `e` with `10 ^ (e - 1) ≤ value < 10 ^ e`. -/
def Interval.magnitude (i : Interval) : Int :=
  if i.denominator ≤ i.value then
    (ofNat (i.value / i.denominator)).length
  else
    1 - (ofNat ((i.denominator - 1) / i.value)).length

/-- The point of the grid `10 ^ k` in the interval that is nearest to the value;
of two at equal distance, the even one. -/
def Interval.nearest? (i : Interval) (k : Int) : Option Nat :=
  let numerator := i.value * tenTo (-k).toNat
  let grid := i.denominator * tenTo k.toNat
  let floor := numerator / grid
  let below := i.contains floor k
  let above := i.contains (floor + 1) k
  if below && above then
    let twice := 2 * (numerator % grid)
    if twice < grid ∨ (twice = grid ∧ floor % 2 = 0) then some floor else some (floor + 1)
  else if below then some floor
  else if above then some (floor + 1)
  else none

/-- The decimal of fewest digits in the interval; seventeen always suffice. -/
def Interval.shortest (i : Interval) : Scaled :=
  let found := (List.range 17).findSome? fun (fewer : Nat) =>
    let k := i.magnitude - 1 - fewer
    (i.nearest? k).map fun n =>
      if n = tenTo (fewer + 1) then Scaled.mk 1 i.magnitude else Scaled.mk n k
  found.getD ⟨0, 0⟩

/-- The lowest `width` digits of a number. -/
def fixedDigits : (width : Nat) → Nat → Bytes
  | 0, _ => []
  | width + 1, n => fixedDigits width (n / 10) ++ [digit (n % 10)]

/-- Positional notation, with a point only in front of fraction digits. -/
def Scaled.positional (d : Scaled) : Bytes :=
  if 0 ≤ d.exponent then
    ofNat (d.digits * tenTo d.exponent.toNat)
  else
    let places := (-d.exponent).toNat
    ofNat (d.digits / tenTo places) ++ 0x2E :: fixedDigits places (d.digits % tenTo places)

/-- The shortest positional text of a number; zero keeps its sign. -/
def ofFloat (x : Float) : Bytes :=
  match Binary64.ofFloat x with
  | .nan => utf8 "NaN"
  | .infinite false => utf8 "+Inf"
  | .infinite true => utf8 "-Inf"
  | .finite negative mantissa exponent =>
      (if negative then utf8 "-" else []) ++
        if mantissa = 0 then utf8 "0"
        else (Interval.around mantissa exponent).shortest.positional

/-- The nearest integer, a half going away from zero; the sign is kept. -/
def roundInteger (x : Float) : Float :=
  match Binary64.ofFloat x with
  | .finite negative mantissa exponent =>
      if 0 ≤ exponent then
        x
      else
        let unit := twoTo (-exponent).toNat
        let n := Float.ofNat ((2 * mantissa + unit) / (2 * unit))
        if negative then -n else n
  | _ => x

/-- The nearest number of thousandths, as far as binary64 products and
quotients give it. -/
def roundThousandths (x : Float) : Float :=
  roundInteger (x * 1000) / 1000

end Decimal

end PlaceholderIcons
