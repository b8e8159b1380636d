import PlaceholderIcons.Icon.Label
import PlaceholderIcons.Proofs.Utf8Decoding

/-!
How wide a label is estimated to be. Characters are counted from left to right,
a byte at which none starts counting as one, and each adds the same advance in
32-bit arithmetic. The sum is right as long as it cannot wrap, and the estimate
depends on the label through the number of its characters only.
-/

namespace PlaceholderIcons

namespace Utf8

/-- No character starts with these bytes. -/
def StartsNone (s : Bytes) : Prop :=
  ∀ c, ¬ encodeChar c <+: s

/-- A text has so many characters: one for each encoded character, and one for
each byte at which none starts. -/
inductive Counted : Bytes → Nat → Prop where
  | nil : Counted [] 0
  | char (c : Char) {s : Bytes} {n : Nat} (rest : Counted s n) : Counted (encodeChar c ++ s) (n + 1)
  | stray {b : UInt8} {s : Bytes} {n : Nat} (alone : StartsNone (b :: s)) (rest : Counted s n) :
      Counted (b :: s) (n + 1)

/-- A byte is taken alone exactly if no character starts with it. -/
theorem decode_stray_iff {b : UInt8} {s : Bytes} :
    decode (b :: s) = .stray b :: decode s ↔ StartsNone (b :: s) := by
  constructor
  · rintro hdecode c ⟨rest, hrest⟩
    rw [← hrest, decode_encodeChar_append] at hdecode
    cases hdecode
  · intro hnone
    rcases decode_cases (b :: s) with hnil | ⟨c, rest, hchar⟩ | ⟨b', rest, hcons, hstray⟩
    · cases hnil
    · exact absurd ⟨rest, hchar.symm⟩ (hnone c)
    · obtain ⟨rfl, rfl⟩ := List.cons.inj hcons
      exact hstray

theorem counted_count (s : Bytes) : Counted s (count s) := by
  rcases decode_cases s with rfl | ⟨c, rest, rfl⟩ | ⟨b, rest, rfl, hstray⟩
  · exact .nil
  · have hshorter : rest.length < (encodeChar c ++ rest).length := by
      have hpos := List.length_pos_of_ne_nil (encodeChar_ne_nil c)
      rw [List.length_append]
      omega
    rw [count, decode_encodeChar_append]
    exact .char c (counted_count rest)
  · rw [count, hstray]
    exact .stray (decode_stray_iff.1 hstray) (counted_count rest)
termination_by s.length

/-- Counting has one result. -/
theorem counted_iff {s : Bytes} {n : Nat} : Counted s n ↔ n = count s := by
  constructor
  · intro h
    induction h with
    | nil => rfl
    | char c _ ih => rw [ih, count, count, decode_encodeChar_append, List.length_cons]
    | stray hnone _ ih => rw [ih, count, count, decode_stray_iff.2 hnone, List.length_cons]
  · rintro rfl
    exact counted_count s

/-- `front` is `label` up to one of its characters. -/
def IsFront (front label : Bytes) : Prop :=
  decode front <+: decode label

theorem IsFront.count_le {front label : Bytes} (h : IsFront front label) :
    count front ≤ count label :=
  h.length_le

/-- The first characters of a text by themselves are decoded as they are in the
text, because bytes that start no character start none if the text ends earlier. -/
theorem exists_decode_eq_take (s : Bytes) (n : Nat) :
    ∃ front, front <+: s ∧ decode front = (decode s).take n := by
  have hcounted := counted_count s
  generalize count s = total at hcounted
  induction hcounted generalizing n with
  | nil => exact ⟨[], List.prefix_rfl, by simp [decode]⟩
  | @char c s _ _ ih =>
    cases n with
    | zero => exact ⟨[], List.nil_prefix, rfl⟩
    | succ n =>
      obtain ⟨front, hfront, htake⟩ := ih n
      refine ⟨encodeChar c ++ front, (List.prefix_append_right_inj _).2 hfront, ?_⟩
      rw [decode_encodeChar_append, decode_encodeChar_append, htake, List.take_succ_cons]
  | @stray b s _ hnone _ ih =>
    cases n with
    | zero => exact ⟨[], List.nil_prefix, rfl⟩
    | succ n =>
      obtain ⟨front, hfront, htake⟩ := ih n
      have hcons : b :: front <+: b :: s := List.cons_prefix_cons.2 ⟨rfl, hfront⟩
      refine ⟨b :: front, hcons, ?_⟩
      rw [decode_stray_iff.2 fun c hc => hnone c (hc.trans hcons), decode_stray_iff.2 hnone, htake,
        List.take_succ_cons]

theorem exists_isFront {label : Bytes} {n : Nat} (h : n ≤ count label) :
    ∃ front, IsFront front label ∧ count front = n := by
  obtain ⟨front, -, htake⟩ := exists_decode_eq_take label n
  refine ⟨front, ?_, ?_⟩
  · rw [IsFront, htake]
    exact List.take_prefix n _
  · rw [count, htake, List.length_take]
    exact Nat.min_eq_left h

/-- A byte that only goes on with a character. -/
def IsContinuation (b : UInt8) : Prop :=
  0x80 ≤ b.toNat ∧ b.toNat < 0xC0

/-- A character has one leading byte and goes on with others. -/
theorem exists_encodeChar_eq (c : Char) :
    ∃ lead rest, encodeChar c = lead :: rest ∧ ¬ IsContinuation lead ∧
      ∀ b ∈ rest, IsContinuation b := by
  have hbound := char_bound c
  have hnext (k : Nat) : IsContinuation (UInt8.ofNat (0x80 + k % 64)) := by
    rw [IsContinuation, toNat_ofNat (by omega)]
    omega
  have hlead {n : Nat} (hn : n < 0x80 ∨ 0xC0 ≤ n ∧ n < 256) : ¬ IsContinuation (UInt8.ofNat n) := by
    rw [IsContinuation, toNat_ofNat (by omega)]
    omega
  unfold encodeChar
  simp only
  split
  next => exact ⟨_, [], rfl, hlead (by omega), by simp⟩
  split
  next => exact ⟨_, _, rfl, hlead (by omega), List.forall_mem_singleton.2 (hnext _)⟩
  split
  next =>
    refine ⟨_, _, rfl, hlead (by omega), List.forall_mem_cons.2 ⟨hnext _, ?_⟩⟩
    exact List.forall_mem_singleton.2 (hnext _)
  next =>
    refine ⟨_, _, rfl, hlead (by omega), List.forall_mem_cons.2 ⟨hnext _, ?_⟩⟩
    exact List.forall_mem_cons.2 ⟨hnext _, List.forall_mem_singleton.2 (hnext _)⟩

/-- A character behind bytes that start none does not make them start one, because
no character goes on with a leading byte. -/
theorem StartsNone.append_encodeChar {b : UInt8} {s : Bytes} (h : StartsNone (b :: s)) (c : Char) :
    StartsNone (b :: (s ++ encodeChar c)) := by
  intro d hd
  apply h d
  obtain ⟨lead, rest, hc, hlead, -⟩ := exists_encodeChar_eq c
  obtain ⟨lead', rest', hd', -, hrest'⟩ := exists_encodeChar_eq d
  rw [hd', hc, List.cons_prefix_cons] at hd
  rw [hd', List.cons_prefix_cons]
  refine ⟨hd.1, ?_⟩
  rcases List.prefix_or_prefix_of_prefix hd.2 (List.prefix_append s _) with hshort | ⟨more, rfl⟩
  · exact hshort
  · cases more with
    | nil => simp
    | cons x more =>
      -- Here `d` would go on with the leading byte of `c`.
      have hmore := (List.prefix_append_right_inj s).1 hd.2
      rw [List.cons_prefix_cons] at hmore
      exact absurd (hrest' lead (by simp [hmore.1])) hlead

/-- A character behind a text is decoded by itself, also if the text ends within
a sequence. -/
theorem decode_append_encodeChar (s : Bytes) (c : Char) :
    decode (s ++ encodeChar c) = decode s ++ [.char c] := by
  have hcounted := counted_count s
  generalize count s = total at hcounted
  induction hcounted with
  | nil => simpa [decode] using decode_encodeChar_append c []
  | char d _ ih =>
    rw [List.append_assoc, decode_encodeChar_append, decode_encodeChar_append, ih,
      List.cons_append]
  | stray hnone _ ih =>
    rw [List.cons_append, decode_stray_iff.2 (hnone.append_encodeChar c), ih,
      decode_stray_iff.2 hnone, List.cons_append]

end Utf8

namespace Label

open Utf8

/-- The most characters whose advances add up without wrapping. -/
def mostCharacters : Nat := 4793490

/-- Each piece adds one advance, whatever it is. -/
theorem foldl_characterAdvance (pieces : List Piece) (sum : Int32) :
    pieces.foldl (fun sum _ => sum + characterAdvance) sum =
      sum + Int32.ofInt (448 * pieces.length) := by
  induction pieces generalizing sum with
  | nil => simp
  | cons piece pieces ih =>
    have hnext : (448 * ((pieces.length + 1 : Nat) : Int)) = 448 + 448 * pieces.length := by omega
    rw [List.foldl_cons, ih, List.length_cons, hnext, Int32.ofInt_add, ← Int32.add_assoc]
    rfl

theorem toInt_advance (label : Bytes) :
    (advance label).toInt = Int.bmod (448 * count label) Int32.size := by
  rw [advance, foldl_characterAdvance, Int32.zero_add, Int32.toInt_ofInt, count]

theorem bmod_eq_iff (n : Nat) : Int.bmod (448 * n) Int32.size = 448 * n ↔ n ≤ mostCharacters := by
  simp only [Int.bmod_def, Int32.size, mostCharacters]
  omega

theorem toInt_advance_eq_iff (label : Bytes) :
    (advance label).toInt = 448 * count label ↔ count label ≤ mostCharacters := by
  rw [toInt_advance, bmod_eq_iff]

/-- One character more than the most, and the sum is negative. -/
theorem advance_neg {label : Bytes} (h : count label = mostCharacters + 1) : advance label < 0 := by
  rw [Int32.lt_iff_toInt_lt, toInt_advance, h]
  decide

theorem advance_nonneg {label : Bytes} (h : count label ≤ mostCharacters) : 0 ≤ advance label := by
  rw [Int32.le_iff_toInt_le, (toInt_advance_eq_iff label).2 h, Int32.toInt_zero]
  omega

theorem advance_lt_advance {label label' : Bytes} (hcount : count label < count label')
    (h : count label' ≤ mostCharacters) : advance label < advance label' := by
  rw [Int32.lt_iff_toInt_lt, (toInt_advance_eq_iff label).2 (by omega),
    (toInt_advance_eq_iff label').2 h]
  omega

/-- A label with more characters than the most has a part whose sum is negative. -/
theorem exists_isFront_advance_neg {label : Bytes} (h : ¬ count label ≤ mostCharacters) :
    ∃ front, IsFront front label ∧ count front = mostCharacters + 1 ∧ advance front < 0 := by
  obtain ⟨front, hfront, hcount⟩ := exists_isFront (Nat.lt_of_not_le h)
  exact ⟨front, hfront, hcount, advance_neg hcount⟩

theorem advance_nonneg_iff (label : Bytes) :
    (∀ front, IsFront front label → 0 ≤ advance front) ↔ count label ≤ mostCharacters := by
  constructor
  · intro hnonneg
    by_contra hmore
    obtain ⟨front, hfront, -, hneg⟩ := exists_isFront_advance_neg hmore
    exact Int32.not_le.2 hneg (hnonneg front hfront)
  · intro h front hfront
    exact advance_nonneg (Nat.le_trans hfront.count_le h)

/-- Each character on the way through the label adds to its advance. -/
def Grows (label : Bytes) : Prop :=
  ∀ front next, IsFront front next → IsFront next label → count front < count next →
    advance front < advance next

theorem grows_iff (label : Bytes) : Grows label ↔ count label ≤ mostCharacters := by
  constructor
  · intro hgrows
    by_contra hmore
    -- The step to the first negative sum goes down.
    obtain ⟨next, hnext, hcount, hneg⟩ := exists_isFront_advance_neg hmore
    have hfewer : mostCharacters ≤ count next := by omega
    obtain ⟨front, hfront, hcount'⟩ := exists_isFront hfewer
    have hlt := hgrows front next hfront hnext (by omega)
    exact Int32.not_le.2 (Int32.lt_trans hlt hneg) (advance_nonneg (by omega))
  · intro h front next _ hnext hlt
    exact advance_lt_advance hlt (Nat.le_trans hnext.count_le h)

/-- The advance of a label by the number of its characters, each stray byte being
one. It is 448 times that number, reduced to 32 bits, and this is what the width
scales. It is the true product exactly as long as there are at most 4793490
characters: just then no sum on the way is negative, and each character on the
way adds to it. A character behind the label adds one to the number, and to the
advance up to that limit. Labels with equally many characters have the same
width and fit the same canvases. -/
theorem advance_of_count (label : Bytes) :
    (∀ n, Counted label n ↔ n = count label) ∧
    (advance label).toInt = Int.bmod (448 * count label) Int32.size ∧
    (∀ fontSize, width label fontSize =
      Float.ofInt (Int.bmod (448 * count label) Int32.size) / 64 * fontSize / faceHeight) ∧
    ((advance label).toInt = 448 * count label ↔ count label ≤ mostCharacters) ∧
    ((∀ front, IsFront front label → 0 ≤ advance front) ↔ count label ≤ mostCharacters) ∧
    (Grows label ↔ count label ≤ mostCharacters) ∧
    (∀ c, count (label ++ encodeChar c) = count label + 1 ∧
      (count (label ++ encodeChar c) ≤ mostCharacters →
        advance label < advance (label ++ encodeChar c))) ∧
    ∀ label', count label' = count label →
      (∀ fontSize, width label' fontSize = width label fontSize) ∧
      ∀ size scale, fits label' size scale = fits label size scale := by
  have hwidth (label : Bytes) (fontSize : Float) : width label fontSize =
      Float.ofInt (Int.bmod (448 * count label) Int32.size) / 64 * fontSize / faceHeight := by
    rw [width, toInt_advance]
  refine ⟨fun _ => counted_iff, toInt_advance label, hwidth label, toInt_advance_eq_iff label,
    advance_nonneg_iff label, grows_iff label, ?_, ?_⟩
  · intro c
    have hcount : count (label ++ encodeChar c) = count label + 1 := by
      rw [count, decode_append_encodeChar, List.length_append]
      rfl
    exact ⟨hcount, advance_lt_advance (by omega)⟩
  · intro label' hcount
    have hsame (fontSize : Float) : width label' fontSize = width label fontSize := by
      rw [hwidth, hwidth, hcount]
    refine ⟨hsame, fun size scale => ?_⟩
    rw [fits, fits, hsame]

end Label

end PlaceholderIcons
