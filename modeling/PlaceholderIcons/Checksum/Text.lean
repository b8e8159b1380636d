import PlaceholderIcons.Checksum.Incremental
import PlaceholderIcons.Text.Hexadecimal

/-!
Checksums as manifests record them: the eight bytes of the sum, most significant
first, each as two lower-case hexadecimal digits.
-/

namespace PlaceholderIcons

namespace Checksum

/-- The lowest `count` bytes of a number, most significant first. -/
def bigEndian : (count : Nat) → Nat → Bytes
  | 0, _ => []
  | count + 1, n => bigEndian count (n / 256) ++ [UInt8.ofNat (n % 256)]

def text (sum : UInt64) : Bytes :=
  (bigEndian 8 sum.toNat).flatMap fun b => Hexadecimal.fixed 2 b.toNat

end Checksum

/-- The recorded form of the checksum of `data`. -/
def contentHash (data : Bytes) : Bytes :=
  Checksum.text (sum64 data)

/-- The recorded form of the checksum of a source. -/
def sourceHash {ε : Type} (source : Checksum.Source ε) : Except ε Bytes :=
  (sumSource source).map Checksum.text

end PlaceholderIcons
