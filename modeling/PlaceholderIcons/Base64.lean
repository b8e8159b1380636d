import PlaceholderIcons.Text.Bytes

/-!
Padded base64 over the standard alphabet: three bytes become four symbols, and
a last group of one or two bytes is filled up with `=`.
-/

namespace PlaceholderIcons

namespace Base64

/-- The symbol of a number below 64. -/
def symbol (n : Nat) : UInt8 :=
  if n < 26 then UInt8.ofNat (0x41 + n)
  else if n < 52 then UInt8.ofNat (0x61 + (n - 26))
  else if n < 62 then UInt8.ofNat (0x30 + (n - 52))
  else if n = 62 then 0x2B
  else 0x2F

def padding : UInt8 := 0x3D

def encode : Bytes → Bytes
  | [] => []
  | [a] =>
      [symbol (a.toNat / 4), symbol (a.toNat % 4 * 16), padding, padding]
  | [a, b] =>
      [symbol (a.toNat / 4), symbol (a.toNat % 4 * 16 + b.toNat / 16),
        symbol (b.toNat % 16 * 4), padding]
  | a :: b :: c :: s =>
      symbol (a.toNat / 4) :: symbol (a.toNat % 4 * 16 + b.toNat / 16) ::
        symbol (b.toNat % 16 * 4 + c.toNat / 64) :: symbol (c.toNat % 64) :: encode s

/-- The number of symbols that `length` bytes become. -/
def encodedLength (length : Nat) : Nat :=
  (length + 2) / 3 * 4

end Base64

end PlaceholderIcons
