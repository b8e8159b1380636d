import PlaceholderIcons.Checksum.Sum64

/-!
The checksum of data that arrives in chunks. Between chunks only the lanes, the
length so far and an incomplete stripe are kept.
-/

namespace PlaceholderIcons

namespace Checksum

/-- A checksum under way. -/
structure Progress where
  lanes : Lanes
  total : Nat
  pending : Bytes
  pending_short : pending.length < stripeLength

def Progress.start : Progress :=
  ⟨Lanes.start, 0, [], by decide⟩

/-- Takes in one chunk of any length. -/
def Progress.update (p : Progress) (chunk : Bytes) : Progress :=
  let data := p.pending ++ chunk
  let stripes := data.length / stripeLength
  { lanes := p.lanes.absorbStripes stripes data
    total := p.total + chunk.length
    pending := data.drop (stripes * stripeLength)
    pending_short := by
      simp only [stripes, stripeLength, List.length_drop]
      omega }

def Progress.sum (p : Progress) : UInt64 :=
  finish p.lanes p.total p.pending

/-- A source of data: the chunks of its reads, and how it fails behind them if
it does not end normally. -/
structure Source (ε : Type) where
  chunks : List Bytes
  failure : Option ε

/-- Takes in chunks read by read, up to the end of the source or its failure. -/
def Progress.drain {ε : Type} (failure : Option ε) : Progress → List Bytes → Except ε UInt64
  | p, chunk :: rest => drain failure (p.update chunk) rest
  | p, [] =>
      match failure with
      | some e => .error e
      | none => .ok p.sum

end Checksum

open Checksum in
/-- The checksum of a source, or the failure that ended it. -/
def sumSource {ε : Type} (source : Source ε) : Except ε UInt64 :=
  Progress.start.drain source.failure source.chunks

end PlaceholderIcons
