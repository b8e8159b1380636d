import PlaceholderIcons.Text.Bytes

/-!
The 64-bit xxHash checksum with seed zero. Whole stripes of 32 bytes go through
four lanes of eight bytes each; the lanes are merged, the total length is added
and the bytes left over are mixed in before the bits are spread.
-/

namespace PlaceholderIcons

namespace Checksum

def prime1 : UInt64 := 0x9E3779B185EBCA87
def prime2 : UInt64 := 0xC2B2AE3D27D4EB4F
def prime3 : UInt64 := 0x165667B19E3779F9
def prime4 : UInt64 := 0x85EBCA77C2B2AE63
def prime5 : UInt64 := 0x27D4EB2F165667C5

def rotateLeft (x : UInt64) (count : UInt64) : UInt64 :=
  x <<< count ||| x >>> (64 - count)

/-- The number whose lowest byte comes first. -/
def littleEndian (s : Bytes) : UInt64 :=
  s.foldr (fun b n => n * 256 + b.toUInt64) 0

/-- One lane takes in one word. -/
def mixWord (lane word : UInt64) : UInt64 :=
  rotateLeft (lane + word * prime2) 31 * prime1

/-- The four accumulators. -/
structure Lanes where
  first : UInt64
  second : UInt64
  third : UInt64
  fourth : UInt64
  deriving DecidableEq

def Lanes.start : Lanes :=
  ⟨prime1 + prime2, prime2, 0, 0 - prime1⟩

def stripeLength : Nat := 32

/-- The lanes after one stripe. -/
def Lanes.absorb (lanes : Lanes) (stripe : Bytes) : Lanes :=
  { first := mixWord lanes.first (littleEndian (stripe.take 8))
    second := mixWord lanes.second (littleEndian ((stripe.drop 8).take 8))
    third := mixWord lanes.third (littleEndian ((stripe.drop 16).take 8))
    fourth := mixWord lanes.fourth (littleEndian ((stripe.drop 24).take 8)) }

/-- The lanes after the first `count` stripes of `data`. -/
def Lanes.absorbStripes : (count : Nat) → Lanes → (data : Bytes) → Lanes
  | 0, lanes, _ => lanes
  | count + 1, lanes, data =>
      absorbStripes count (lanes.absorb (data.take stripeLength)) (data.drop stripeLength)

def mergeLane (sum lane : UInt64) : UInt64 :=
  (sum ^^^ mixWord 0 lane) * prime1 + prime4

def Lanes.merge (lanes : Lanes) : UInt64 :=
  let sum := rotateLeft lanes.first 1 + rotateLeft lanes.second 7 +
    rotateLeft lanes.third 12 + rotateLeft lanes.fourth 18
  mergeLane (mergeLane (mergeLane (mergeLane sum lanes.first) lanes.second) lanes.third)
    lanes.fourth

/-- Mixes in the bytes behind the last whole stripe: words of eight bytes, then
at most one of four, then single bytes. -/
def mixRest : UInt64 → Bytes → UInt64
  | sum, b0 :: b1 :: b2 :: b3 :: b4 :: b5 :: b6 :: b7 :: s =>
      let word := mixWord 0 (littleEndian [b0, b1, b2, b3, b4, b5, b6, b7])
      mixRest (rotateLeft (sum ^^^ word) 27 * prime1 + prime4) s
  | sum, b0 :: b1 :: b2 :: b3 :: s =>
      let word := littleEndian [b0, b1, b2, b3] * prime1
      mixRest (rotateLeft (sum ^^^ word) 23 * prime2 + prime3) s
  | sum, b :: s =>
      mixRest (rotateLeft (sum ^^^ b.toUInt64 * prime5) 11 * prime1) s
  | sum, [] => sum

/-- Spreads every bit of the sum over all of it. -/
def spread (sum : UInt64) : UInt64 :=
  let sum := (sum ^^^ sum >>> 33) * prime2
  let sum := (sum ^^^ sum >>> 29) * prime3
  sum ^^^ sum >>> 32

/-- The checksum from the lanes after all whole stripes, the total length and
the bytes left over. Data shorter than a stripe never reached the lanes. -/
def finish (lanes : Lanes) (total : Nat) (rest : Bytes) : UInt64 :=
  let sum := if stripeLength ≤ total then lanes.merge else prime5
  spread (mixRest (sum + UInt64.ofNat total) rest)

end Checksum

open Checksum in
/-- The checksum of data that is at hand as a whole. -/
def sum64 (data : Bytes) : UInt64 :=
  let stripes := data.length / stripeLength
  finish (Lanes.start.absorbStripes stripes data) data.length
    (data.drop (stripes * stripeLength))

end PlaceholderIcons
