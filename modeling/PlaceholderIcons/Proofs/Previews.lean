import Mathlib.Algebra.Order.Floor.Div
import PlaceholderIcons.Icon.Preview

/-!
Previews of documents. A base64 text is read back group by group: four symbols
are three bytes, and a last group that is filled up with padding is fewer. A
preview that is cut in the middle of a group still shows every group in front
of the cut, and the dots behind a data URL tell exactly the cut previews.
-/

namespace PlaceholderIcons

namespace Base64

/-- The standard alphabet; the place of a symbol is the number it stands for. -/
def alphabet : Bytes :=
  utf8 "ABCDEFGHIJKLMNOPQRSTUVWXYZabcdefghijklmnopqrstuvwxyz0123456789+/"

def number? (b : UInt8) : Option Nat :=
  alphabet.idxOf? b

/-- The three bytes that four numbers below 64 spell. -/
def unpack (w x y z : Nat) : Bytes :=
  [UInt8.ofNat (w * 4 + x / 16), UInt8.ofNat (x % 16 * 16 + y / 4), UInt8.ofNat (y % 4 * 64 + z)]

/-- Reads four symbols, none of which is padding. -/
def decodeGroup? (a b c d : UInt8) : Option Bytes := do
  let w ← number? a
  let x ← number? b
  let y ← number? c
  let z ← number? d
  return unpack w x y z

/-- Reads the last four symbols. Padding counts as zero, and the bytes that it
reaches into are dropped. -/
def decodeLast? (a b c d : UInt8) : Option Bytes :=
  if d ≠ padding then decodeGroup? a b c d
  else if c ≠ padding then (decodeGroup? a b c 0x41).map (·.take 2)
  else (decodeGroup? a b 0x41 0x41).map (·.take 1)

/-- Reads padded base64 over the standard alphabet. -/
def decode? : Bytes → Option Bytes
  | [] => some []
  | a :: b :: c :: d :: rest =>
      if rest.isEmpty then decodeLast? a b c d
      else do return (← decodeGroup? a b c d) ++ (← decode? rest)
  | _ => none

theorem number?_symbol {n : Nat} (h : n < 64) : number? (symbol n) = some n := by
  have hall : ∀ k : Fin 64, number? (symbol k) = some k.val := by decide +kernel
  exact hall ⟨n, h⟩

theorem symbol_ne_padding {n : Nat} (h : n < 64) : symbol n ≠ padding := by
  have hall : ∀ k : Fin 64, symbol k ≠ padding := by decide +kernel
  exact hall ⟨n, h⟩

/-- The symbols of three bytes are read as these bytes. -/
theorem decodeGroup?_symbols (a b c : UInt8) :
    decodeGroup? (symbol (a.toNat / 4)) (symbol (a.toNat % 4 * 16 + b.toNat / 16))
      (symbol (b.toNat % 16 * 4 + c.toNat / 64)) (symbol (c.toNat % 64)) = some [a, b, c] := by
  have ha := a.toNat_lt
  have hb := b.toNat_lt
  have hc := c.toNat_lt
  have hfirst : a.toNat / 4 * 4 + (a.toNat % 4 * 16 + b.toNat / 16) / 16 = a.toNat := by omega
  have hsecond : (a.toNat % 4 * 16 + b.toNat / 16) % 16 * 16 +
      (b.toNat % 16 * 4 + c.toNat / 64) / 4 = b.toNat := by omega
  have hthird : (b.toNat % 16 * 4 + c.toNat / 64) % 4 * 64 + c.toNat % 64 = c.toNat := by omega
  have hbytes : unpack (a.toNat / 4) (a.toNat % 4 * 16 + b.toNat / 16)
      (b.toNat % 16 * 4 + c.toNat / 64) (c.toNat % 64) = [a, b, c] := by
    rw [unpack, hfirst, hsecond, hthird, UInt8.ofNat_toNat, UInt8.ofNat_toNat, UInt8.ofNat_toNat]
  rw [decodeGroup?, number?_symbol (by omega), number?_symbol (by omega), number?_symbol (by omega),
    number?_symbol (by omega), ← hbytes]
  rfl

/-- A group without padding is read alike in front of others and at the end. -/
theorem decode?_group {a b c d : UInt8} {group tail : Bytes} (hd : d ≠ padding)
    (hgroup : decodeGroup? a b c d = some group) {rest : Bytes} (hrest : decode? rest = some tail) :
    decode? (a :: b :: c :: d :: rest) = some (group ++ tail) := by
  rw [decode?]
  cases rest with
  | nil =>
    obtain rfl : [] = tail := Option.some.inj hrest
    rw [List.isEmpty_nil, if_pos rfl, decodeLast?, if_pos hd, hgroup, List.append_nil]
  | cons e rest =>
    rw [List.isEmpty_cons, if_neg Bool.false_ne_true, hgroup, hrest]
    rfl

/-- Decoding undoes encoding, whatever is left over for the last group. -/
theorem decode?_encode (data : Bytes) : decode? (encode data) = some data := by
  induction data using encode.induct with
  | case1 => rfl
  | case2 a =>
    -- Padding is read as the symbols of two bytes that are zero.
    have hgroup : decodeGroup? (symbol (a.toNat / 4)) (symbol (a.toNat % 4 * 16)) 0x41 0x41 =
        some [a, 0, 0] := decodeGroup?_symbols a 0 0
    rw [encode, decode?, List.isEmpty_nil, if_pos rfl, decodeLast?, if_neg (not_not.2 rfl),
      if_neg (not_not.2 rfl), hgroup]
    rfl
  | case3 a b =>
    have hgroup : decodeGroup? (symbol (a.toNat / 4)) (symbol (a.toNat % 4 * 16 + b.toNat / 16))
        (symbol (b.toNat % 16 * 4)) 0x41 = some [a, b, 0] := decodeGroup?_symbols a b 0
    have hsymbol : symbol (b.toNat % 16 * 4) ≠ padding := symbol_ne_padding (by omega)
    rw [encode, decode?, List.isEmpty_nil, if_pos rfl, decodeLast?, if_neg (not_not.2 rfl),
      if_pos hsymbol, hgroup]
    rfl
  | case4 a b c s ih =>
    rw [encode]
    exact decode?_group (symbol_ne_padding (by omega)) (decodeGroup?_symbols a b c) ih

theorem length_encode (data : Bytes) : (encode data).length = encodedLength data.length := by
  induction data using encode.induct with
  | case1 => rfl
  | case2 a => simp [encode, encodedLength]
  | case3 a b => simp [encode, encodedLength]
  | case4 a b c s ih =>
    simp only [encode, List.length_cons, ih, encodedLength]
    omega

/-- Whole groups at the front are the encoding of the bytes at the front. -/
theorem take_encode {count : Nat} {data : Bytes} (h : 3 * count ≤ data.length) :
    (encode data).take (4 * count) = encode (data.take (3 * count)) := by
  induction count generalizing data with
  | zero => rfl
  | succ count ih =>
    match data, h with
    | a :: b :: c :: s, h =>
      have hs : 3 * count ≤ s.length := by
        simp only [List.length_cons] at h
        omega
      simp only [Nat.mul_succ, encode, List.take_succ_cons, ih hs]

theorem encodedLength_eq_ceilDiv (length : Nat) : encodedLength length = 4 * (length ⌈/⌉ 3) := by
  rw [encodedLength, Nat.ceilDiv_eq_add_pred_div, Nat.mul_comm]
  rfl

end Base64

namespace Preview

theorem encode_of_nonpos {limit : Int64} (h : limit ≤ 0) (document : Bytes) :
    encode document limit = Base64.encode document :=
  if_neg fun hcut => Int64.not_lt.2 h hcut.1

theorem encode_of_pos {limit : Int64} (h : 0 < limit) (document : Bytes) :
    encode document limit = (Base64.encode document).take limit.toInt.toNat := by
  rw [encode]
  split
  next => rfl
  next hwhole =>
    have hall : (Base64.encode document).length ≤ limit.toInt :=
      Int.not_lt.1 fun hlt => hwhole ⟨h, hlt⟩
    rw [List.take_of_length_le (show (Base64.encode document).length ≤ limit.toInt.toNat by omega)]

/-- A preview is cut exactly if its limit is below the length that the formula
gives, which is the length of the symbols. -/
theorem encode_ne_iff {document : Bytes} {limit : Int64} :
    encode document limit ≠ encode document 0 ↔
      0 < limit ∧ limit.toInt < Base64.encodedLength document.length := by
  have hwhole : encode document 0 = Base64.encode document := encode_of_nonpos Int64.le_rfl document
  rw [hwhole, ← Base64.length_encode]
  constructor
  · intro hne
    by_contra hcut
    exact hne (if_neg hcut)
  · rintro ⟨hpos, hlt⟩ heq
    have hlimit : 0 < limit.toInt := by simpa using Int64.lt_iff_toInt_lt.1 hpos
    have hlength := congrArg List.length heq
    rw [encode_of_pos hpos, List.length_take] at hlength
    omega

theorem dataUrl_eq (document : Bytes) (limit : Int64) :
    dataUrl document limit =
      utf8 "data:image/svg+xml;base64," ++ encode document limit ++
        if encode document limit = encode document 0 then [] else utf8 "..." := by
  rw [dataUrl]
  by_cases hcut : 0 < limit ∧ limit.toInt < Base64.encodedLength document.length
  · rw [if_pos hcut, if_neg (encode_ne_iff.2 hcut)]
  · rw [if_neg hcut, if_pos (not_not.1 (mt encode_ne_iff.1 hcut)), List.append_nil]

/-- The whole groups of a cut preview are the bytes at the front of the document. -/
theorem decode?_take_of_cut {document : Bytes} {limit : Int64}
    (h : encode document limit ≠ encode document 0) :
    3 * (limit.toInt.toNat / 4) ≤ document.length ∧
    Base64.decode? ((encode document limit).take (4 * (limit.toInt.toNat / 4))) =
      some (document.take (3 * (limit.toInt.toNat / 4))) := by
  obtain ⟨hpos, hlt⟩ := encode_ne_iff.1 h
  rw [Base64.encodedLength] at hlt
  have hgroups : 3 * (limit.toInt.toNat / 4) ≤ document.length := by omega
  have hfront : min (4 * (limit.toInt.toNat / 4)) limit.toInt.toNat =
      4 * (limit.toInt.toNat / 4) := by omega
  refine ⟨hgroups, ?_⟩
  rw [encode_of_pos hpos, List.take_take, hfront, Base64.take_encode hgroups,
    Base64.decode?_encode]

/-- The previews of a document under every limit. Without a limit the preview is
the base64 text of the document; a limit that is not positive is none, and a
positive one shows as many symbols as there are up to it. The data URL carries
the preview, with dots behind it exactly if something is missing, and of a cut
preview the whole groups decode to the bytes that they stand for. -/
theorem preview_of_document (document : Bytes) (limit : Int64) :
    Base64.decode? (encode document 0) = some document ∧
    (limit ≤ 0 → encode document limit = encode document 0) ∧
    (0 < limit →
      encode document limit =
        (encode document 0).take (min limit.toInt.toNat (4 * (document.length ⌈/⌉ 3))) ∧
      (encode document limit).length = min limit.toInt.toNat (4 * (document.length ⌈/⌉ 3))) ∧
    dataUrl document limit =
      utf8 "data:image/svg+xml;base64," ++ encode document limit ++
        (if encode document limit = encode document 0 then [] else utf8 "...") ∧
    (encode document limit ≠ encode document 0 →
      3 * (limit.toInt.toNat / 4) ≤ document.length ∧
      Base64.decode? ((encode document limit).take (4 * (limit.toInt.toNat / 4))) =
        some (document.take (3 * (limit.toInt.toNat / 4)))) := by
  have hwhole : encode document 0 = Base64.encode document := encode_of_nonpos Int64.le_rfl document
  have hlength : (Base64.encode document).length = 4 * (document.length ⌈/⌉ 3) :=
    (Base64.length_encode document).trans (Base64.encodedLength_eq_ceilDiv document.length)
  refine ⟨?_, ?_, ?_, dataUrl_eq document limit, decode?_take_of_cut⟩
  · rw [hwhole, Base64.decode?_encode]
  · intro hnone
    rw [hwhole, encode_of_nonpos hnone]
  · intro hpos
    rw [hwhole, encode_of_pos hpos, ← hlength, List.length_take]
    exact ⟨List.take_eq_take_min, rfl⟩

/-- Five bytes are eight symbols, one of them padding; six are shown. -/
theorem preview_of_document_cut :
    encode (utf8 "abcde") 6 ≠ encode (utf8 "abcde") 0 ∧
    dataUrl (utf8 "abcde") 6 =
      utf8 "data:image/svg+xml;base64," ++ encode (utf8 "abcde") 6 ++ utf8 "..." ∧
    Base64.decode? ((encode (utf8 "abcde") 6).take 4) = some (utf8 "abc") := by
  have hcut : encode (utf8 "abcde") 6 ≠ encode (utf8 "abcde") 0 := by decide +kernel
  obtain ⟨-, -, -, hurl, hgroups⟩ := preview_of_document (utf8 "abcde") 6
  rw [if_neg hcut] at hurl
  exact ⟨hcut, hurl, (hgroups hcut).2⟩

end Preview

end PlaceholderIcons
