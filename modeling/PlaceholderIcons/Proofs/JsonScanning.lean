import PlaceholderIcons.Proofs.JsonLiterals

/-!
Scanning printed JSON. A word is finished only by the byte behind it, so what a
text amounts to is said of the scanner it leaves behind: the tokens it would
have if the text ended there. Printed values are then scanned piece by piece,
whatever the indentation.
-/

namespace PlaceholderIcons

namespace Json

namespace Scanner

/-- The tokens that a scanner outside a string stands for, an unfinished word
included. They stand in reverse, as in the scanner. -/
inductive Holds : Scanner → List Token → Prop where
  | between (tokens : List Token) : Holds ⟨tokens, .between⟩ tokens
  | word {tokens : List Token} {collected : Bytes} {token : Token}
      (h : wordToken? collected.reverse = some token) :
      Holds ⟨tokens, .word collected⟩ (token :: tokens)

theorem Holds.finish_eq {s : Scanner} {tokens : List Token} (h : s.Holds tokens) :
    s.finish = some tokens.reverse := by
  cases h with
  | between => rfl
  | word hword => simp [finish, hword]

/-- A byte that extends no word is scanned alike behind a word and between tokens. -/
theorem Holds.step_eq {s : Scanner} {tokens : List Token} (h : s.Holds tokens) {b : UInt8}
    (hb : isWordByte b = false) : s.step b = begin tokens b := by
  cases h with
  | between => rfl
  | word hword => simp [step, hb, hword]

/-- Scanning `text` leaves these tokens, the last of which may be a word that
could still go on. -/
def Reads (s : Scanner) (text : Bytes) (tokens : List Token) : Prop :=
  ∃ next, text.foldlM step s = some next ∧ next.Holds tokens

/-- Scanning `text` leaves these tokens and no unfinished word. -/
def Lands (s : Scanner) (text : Bytes) (tokens : List Token) : Prop :=
  text.foldlM step s = some ⟨tokens, .between⟩

theorem Lands.reads {s : Scanner} {text : Bytes} {tokens : List Token} (h : s.Lands text tokens) :
    s.Reads text tokens :=
  ⟨_, h, .between tokens⟩

theorem Reads.append {s : Scanner} {front back : Bytes} {middle tokens : List Token}
    (hfront : s.Reads front middle)
    (hback : ∀ next : Scanner, next.Holds middle → next.Reads back tokens) :
    s.Reads (front ++ back) tokens := by
  obtain ⟨next, hnext, hmiddle⟩ := hfront
  obtain ⟨last, hlast, htokens⟩ := hback next hmiddle
  refine ⟨last, ?_, htokens⟩
  rw [List.foldlM_append, hnext]
  exact hlast

theorem Lands.append_reads {s : Scanner} {front back : Bytes} {middle tokens : List Token}
    (hfront : s.Lands front middle) (hback : Reads ⟨middle, .between⟩ back tokens) :
    s.Reads (front ++ back) tokens := by
  obtain ⟨last, hlast, htokens⟩ := hback
  refine ⟨last, ?_, htokens⟩
  rw [List.foldlM_append, hfront]
  exact hlast

theorem Reads.append_lands {s : Scanner} {front back : Bytes} {middle tokens : List Token}
    (hfront : s.Reads front middle)
    (hback : ∀ next : Scanner, next.Holds middle → next.Lands back tokens) :
    s.Lands (front ++ back) tokens := by
  obtain ⟨next, hnext, hmiddle⟩ := hfront
  rw [Lands, List.foldlM_append, hnext]
  exact hback next hmiddle

theorem Holds.lands_punctuation {s : Scanner} {tokens : List Token} (h : s.Holds tokens)
    {b : UInt8} {token : Token} (hb : punctuation? b = some token) :
    s.Lands [b] (token :: tokens) := by
  have hclass : isWordByte b = false ∧ isBlank b = false ∧ (b == 0x22) = false := by
    unfold punctuation? at hb
    split at hb
    case h_7 => cases hb
    all_goals decide
  obtain ⟨hword, hblank, hquote⟩ := hclass
  simp [Lands, h.step_eq hword, begin, hblank, hquote, hword, hb]

theorem isWordByte_of_isBlank {b : UInt8} (h : isBlank b = true) : isWordByte b = false := by
  simp only [isBlank, Bool.or_eq_true, beq_iff_eq] at h
  rcases h with ((rfl | rfl) | rfl) | rfl <;> decide

theorem Holds.step_blank {s : Scanner} {tokens : List Token} (h : s.Holds tokens) {b : UInt8}
    (hb : isBlank b = true) : s.step b = some ⟨tokens, .between⟩ := by
  rw [h.step_eq (isWordByte_of_isBlank hb), begin, if_pos hb]

/-- Blanks end a word and add nothing. -/
theorem Holds.lands_blanks {s : Scanner} {tokens : List Token} (h : s.Holds tokens) {b : UInt8}
    {blanks : Bytes} (hall : ∀ x ∈ b :: blanks, isBlank x = true) :
    s.Lands (b :: blanks) tokens := by
  induction blanks generalizing s b with
  | nil => simp [Lands, h.step_blank (hall b List.mem_cons_self)]
  | cons x blanks ih =>
    rw [Lands, List.foldlM_cons, h.step_blank (hall b List.mem_cons_self)]
    exact ih (.between tokens) fun y hy => hall y (List.mem_cons_of_mem b hy)

theorem Holds.lands_newline {s : Scanner} {tokens : List Token} (h : s.Holds tokens)
    (level : Nat) : s.Lands (newline level) tokens := by
  apply h.lands_blanks
  intro x hx
  rcases List.mem_cons.1 hx with rfl | hx
  · decide
  · rw [List.eq_of_mem_replicate hx]
    decide

/-- What separates two neighbours. A word in front of it is closed by the comma. -/
theorem Holds.lands_comma {s : Scanner} {tokens : List Token} (h : s.Holds tokens) (level : Nat) :
    s.Lands (utf8 "," ++ newline level) (.comma :: tokens) := by
  have hcomma : s.Lands (utf8 ",") (.comma :: tokens) := h.lands_punctuation rfl
  exact hcomma.reads.append_lands fun next hnext => hnext.lands_newline level

theorem collect_word {w : Bytes} (hw : w.all isWordByte = true) (tokens : List Token)
    (collected : Bytes) : w.foldlM step ⟨tokens, .word collected⟩ =
      some ⟨tokens, .word (w.reverse ++ collected)⟩ := by
  induction w generalizing collected with
  | nil => rfl
  | cons b w ih =>
    obtain ⟨hb, hw⟩ := Bool.and_eq_true_iff.1 (List.all_cons.symm.trans hw)
    have hstep : step ⟨tokens, .word collected⟩ b = some ⟨tokens, .word (b :: collected)⟩ :=
      if_pos hb
    rw [List.foldlM_cons, hstep, List.reverse_cons, List.append_assoc]
    exact ih hw (b :: collected)

theorem reads_word {w : Bytes} {token : Token} (hw : w.all isWordByte = true)
    (h : wordToken? w = some token) (tokens : List Token) :
    Reads ⟨tokens, .between⟩ w (token :: tokens) := by
  cases w with
  | nil => cases h
  | cons b w =>
    obtain ⟨hb, hw⟩ := Bool.and_eq_true_iff.1 (List.all_cons.symm.trans hw)
    have hblank : isBlank b = false := by
      rw [← Bool.not_eq_true]
      intro hblank
      rw [isWordByte_of_isBlank hblank] at hb
      cases hb
    have hquote : (b == 0x22) = false := by
      rw [beq_eq_false_iff_ne]
      rintro rfl
      exact absurd hb (by decide)
    have hstep : step ⟨tokens, .between⟩ b = some ⟨tokens, .word [b]⟩ := by
      simp [step, begin, hblank, hquote, hb]
    refine ⟨⟨tokens, .word (w.reverse ++ [b])⟩, ?_, .word ?_⟩
    · rw [List.foldlM_cons, hstep]
      exact collect_word hw tokens [b]
    · rw [List.reverse_append, List.reverse_reverse]
      exact h

/-- A text that leaves the scanner in the string it is in. -/
def Stays (text : Bytes) : Prop :=
  ∀ tokens collected, text.foldlM step ⟨tokens, .string collected⟩ =
    some ⟨tokens, .string (text.reverse ++ collected)⟩

theorem stays_nil : Stays [] :=
  fun _ _ => rfl

theorem Stays.append {front back : Bytes} (hfront : Stays front) (hback : Stays back) :
    Stays (front ++ back) := by
  intro tokens collected
  rw [List.foldlM_append, hfront, List.reverse_append, List.append_assoc]
  exact hback tokens (front.reverse ++ collected)

theorem stays_byte {b : UInt8} (hvisible : 0x20 ≤ b.toNat) (hquote : b ≠ 0x22)
    (hbackslash : b ≠ 0x5C) : Stays [b] := by
  intro tokens collected
  have hcontrol : ¬ b < 0x20 := by
    rw [UInt8.lt_iff_toNat_lt]
    exact Nat.not_lt.2 hvisible
  simp [step, hquote, hbackslash, hcontrol]

theorem stays_bytes {text : Bytes} (h : ∀ b ∈ text, Stays [b]) : Stays text := by
  induction text with
  | nil => exact stays_nil
  | cons b text ih =>
    exact (h b List.mem_cons_self).append (ih fun x hx => h x (List.mem_cons_of_mem b hx))

theorem stays_plain {c : Char} (h : IsPlain c) : Stays (Utf8.encodeChar c) := by
  have hvisible := h.visible
  have hquote : c.toNat ≠ 0x22 := fun hc => h.ne_quote (Char.ext (UInt32.toNat_inj.1 hc))
  have hbackslash : c.toNat ≠ 0x5C := fun hc => h.ne_backslash (Char.ext (UInt32.toNat_inj.1 hc))
  apply stays_bytes
  intro b hb
  have hbyte := Utf8.toNat_of_mem_encodeChar hb
  apply stays_byte (by omega)
  · rintro rfl
    change 0x22 = _ ∨ 0x80 ≤ 0x22 at hbyte
    omega
  · rintro rfl
    change 0x5C = _ ∨ 0x80 ≤ 0x5C at hbyte
    omega

/-- Behind a backslash any byte is taken. -/
theorem stays_escape (b : UInt8) : Stays [0x5C, b] :=
  fun _ _ => rfl

theorem stays_spelling {c : Char} {spelling : List Char} {element : Element}
    (h : Spells c spelling element) : Stays (Utf8.encode spelling) := by
  cases h with
  | plain hplain =>
    rw [Utf8.encode, List.flatMap_singleton]
    exact stays_plain hplain
  | letter hx hascii hletter =>
    rw [Utf8.encode, List.flatMap_cons, List.flatMap_singleton, Utf8.encodeChar_of_lt hascii]
    exact stays_escape _
  | number hplain hnumber =>
    have hdigits : ∀ digits : List Char, (∀ a ∈ digits, IsPlain a) →
        Stays (Utf8.encode digits) := by
      intro digits hall
      induction digits with
      | nil => exact stays_nil
      | cons a digits ih =>
        exact (stays_plain (hall a List.mem_cons_self)).append
          (ih fun x hx => hall x (List.mem_cons_of_mem a hx))
    exact (stays_escape 0x75).append (hdigits _ hplain)

theorem stays_escaped (cs : List Char) : Stays (cs.flatMap escapeChar) := by
  induction cs with
  | nil => exact stays_nil
  | cons c cs ih =>
    obtain ⟨spelling, element, htext, hspells⟩ := exists_spells c
    rw [List.flatMap_cons, htext]
    exact (stays_spelling hspells).append ih

theorem Holds.lands_stringLiteral {s : Scanner} {tokens : List Token} (h : s.Holds tokens)
    (x : Bytes) : s.Lands (stringLiteral x) (.string (Utf8.clean x) :: tokens) := by
  have hopen : s.step 0x22 = some ⟨tokens, .string []⟩ := h.step_eq (by decide)
  have hbody : (Utf8.decode x).flatMap (fun p => escapeChar p.shown) =
      ((Utf8.decode x).map Utf8.Piece.shown).flatMap escapeChar := by
    rw [List.flatMap_map]
  have hvalue := stringValue?_escaped ((Utf8.decode x).map Utf8.Piece.shown)
  change (0x22 :: ((Utf8.decode x).flatMap (fun p => escapeChar p.shown) ++ [0x22])).foldlM step s =
    some ⟨.string (Utf8.clean x) :: tokens, .between⟩
  rw [hbody, List.foldlM_cons, hopen, Option.bind_eq_bind, Option.bind_some, List.foldlM_append,
    stays_escaped]
  simp [step, hvalue, Utf8.clean]

end Scanner

mutual

/-- The tokens of a value. -/
def tokens : Json → List Token
  | .null => [.null]
  | .bool b => [.bool b]
  | .number literal => [.number literal]
  | .string s => [.string s]
  | .array [] => [.openArray, .closeArray]
  | .array (item :: items) => .openArray :: item.tokens ++ itemTokens items ++ [.closeArray]
  | .object [] => [.openObject, .closeObject]
  | .object ((name, value) :: members) =>
      .openObject :: .string name :: .colon :: value.tokens ++ memberTokens members ++
        [.closeObject]

/-- The tokens of the items behind the first one. -/
def itemTokens : List Json → List Token
  | [] => []
  | item :: items => .comma :: item.tokens ++ itemTokens items

/-- The tokens of the members behind the first one. -/
def memberTokens : List (Bytes × Json) → List Token
  | [] => []
  | (name, value) :: members =>
      .comma :: .string name :: .colon :: value.tokens ++ memberTokens members

end

mutual

/-- The value with every stray byte in its texts replaced. -/
def cleaned : Json → Json
  | .null => .null
  | .bool b => .bool b
  | .number literal => .number literal
  | .string s => .string (Utf8.clean s)
  | .array items => .array (cleanedItems items)
  | .object members => .object (cleanedMembers members)

def cleanedItems : List Json → List Json
  | [] => []
  | item :: items => item.cleaned :: cleanedItems items

def cleanedMembers : List (Bytes × Json) → List (Bytes × Json)
  | [] => []
  | (name, value) :: members => (Utf8.clean name, value.cleaned) :: cleanedMembers members

end

/-- The value is nested at most `depth` deep and its numbers are numbers. -/
inductive Fits : (depth : Nat) → Json → Prop where
  | null {depth : Nat} : Fits depth .null
  | bool {depth : Nat} (b : Bool) : Fits depth (.bool b)
  | number {depth : Nat} {literal : Bytes} (h : isNumber literal = true) :
      Fits depth (.number literal)
  | string {depth : Nat} (s : Bytes) : Fits depth (.string s)
  | array {depth : Nat} {items : List Json} (h : ∀ item ∈ items, Fits depth item) :
      Fits (depth + 1) (.array items)
  | object {depth : Nat} {members : List (Bytes × Json)}
      (h : ∀ member ∈ members, Fits depth member.2) : Fits (depth + 1) (.object members)

/-- Behind a blank, the text of the value is scanned to the tokens of the
cleaned value. -/
def Scans (value : Json) : Prop :=
  ∀ level before, Scanner.Reads ⟨before, .between⟩ (print level value)
    (value.cleaned.tokens.reverse ++ before)

open Scanner

theorem reads_member {value : Json} (h : Scans value) (level : Nat) (name : Bytes)
    {s : Scanner} {before : List Token} (hs : s.Holds before) :
    s.Reads (stringLiteral name ++ utf8 ": " ++ print level value)
      (value.cleaned.tokens.reverse ++ .colon :: .string (Utf8.clean name) :: before) := by
  have hname := hs.lands_stringLiteral name
  have hcolon : Lands ⟨.string (Utf8.clean name) :: before, .between⟩ (utf8 ": ")
      (.colon :: .string (Utf8.clean name) :: before) := rfl
  have hfront : s.Lands (stringLiteral name ++ utf8 ": ")
      (.colon :: .string (Utf8.clean name) :: before) := by
    rw [Lands, List.foldlM_append, hname]
    exact hcolon
  exact hfront.append_reads (h level _)

theorem reads_items {items : List Json} (h : ∀ item ∈ items, Scans item) (level : Nat)
    {s : Scanner} {before : List Token} (hs : s.Holds before) :
    s.Reads (printItems level items) ((itemTokens (cleanedItems items)).reverse ++ before) := by
  induction items generalizing s before with
  | nil => exact ⟨s, rfl, hs⟩
  | cons item items ih =>
    have hitem := (hs.lands_comma level).append_reads (h item List.mem_cons_self level (.comma :: before))
    have hitems := hitem.append fun next hnext =>
      ih (fun x hx => h x (List.mem_cons_of_mem item hx)) hnext
    simpa [printItems, itemTokens, cleanedItems] using hitems

theorem reads_members {members : List (Bytes × Json)} (h : ∀ member ∈ members, Scans member.2)
    (level : Nat) {s : Scanner} {before : List Token} (hs : s.Holds before) :
    s.Reads (printMembers level members)
      ((memberTokens (cleanedMembers members)).reverse ++ before) := by
  induction members generalizing s before with
  | nil => exact ⟨s, rfl, hs⟩
  | cons member members ih =>
    obtain ⟨name, value⟩ := member
    have hmember := (hs.lands_comma level).append_reads
      (reads_member (h _ List.mem_cons_self) level name (.between (.comma :: before)))
    have hmembers := hmember.append fun next hnext =>
      ih (fun x hx => h x (List.mem_cons_of_mem _ hx)) hnext
    simpa [printMembers, memberTokens, cleanedMembers] using hmembers

theorem scans_array {items : List Json} (h : ∀ item ∈ items, Scans item) : Scans (.array items) := by
  intro level before
  have hopen : Lands ⟨before, .between⟩ (utf8 "[") (.openArray :: before) := rfl
  cases items with
  | nil => exact ⟨_, rfl, .between _⟩
  | cons item items =>
    have hline := hopen.reads.append_lands fun next hnext => hnext.lands_newline (level + 1)
    have hitem := hline.append_reads (h item List.mem_cons_self (level + 1) _)
    have hitems := hitem.append fun next hnext =>
      reads_items (fun x hx => h x (List.mem_cons_of_mem item hx)) (level + 1) hnext
    have hlast := hitems.append_lands fun next hnext => hnext.lands_newline level
    have hclose := hlast.reads.append_lands fun next hnext =>
      hnext.lands_punctuation (show punctuation? 0x5D = some .closeArray from rfl)
    have htext : utf8 "]" = [0x5D] := rfl
    simpa [print, tokens, cleaned, cleanedItems, htext] using hclose.reads

theorem scans_object {members : List (Bytes × Json)} (h : ∀ member ∈ members, Scans member.2) :
    Scans (.object members) := by
  intro level before
  have hopen : Lands ⟨before, .between⟩ (utf8 "\x7b") (.openObject :: before) := rfl
  cases members with
  | nil => exact ⟨_, rfl, .between _⟩
  | cons member members =>
    obtain ⟨name, value⟩ := member
    have hline := hopen.reads.append_lands fun next hnext => hnext.lands_newline (level + 1)
    have hmember := hline.append_reads
      (reads_member (h _ List.mem_cons_self) (level + 1) name (.between (.openObject :: before)))
    have hmembers := hmember.append fun next hnext =>
      reads_members (fun x hx => h x (List.mem_cons_of_mem _ hx)) (level + 1) hnext
    have hlast := hmembers.append_lands fun next hnext => hnext.lands_newline level
    have hclose := hlast.reads.append_lands fun next hnext =>
      hnext.lands_punctuation (show punctuation? 0x7D = some .closeObject from rfl)
    have htext : utf8 "\x7d" = [0x7D] := rfl
    simpa [print, tokens, cleaned, cleanedMembers, htext] using hclose.reads

theorem scans_of_fits {depth : Nat} {value : Json} (h : Fits depth value) : Scans value := by
  induction h with
  | null =>
    have hword : (utf8 "null").all isWordByte = true := by decide
    exact fun _ before => reads_word hword rfl before
  | bool b =>
    have hfalse : (utf8 "false").all isWordByte = true := by decide
    have htrue : (utf8 "true").all isWordByte = true := by decide
    cases b with
    | false => exact fun _ before => reads_word hfalse rfl before
    | true => exact fun _ before => reads_word htrue rfl before
  | number hnumber =>
    exact fun _ before =>
      reads_word (all_isWordByte_of_isNumber hnumber) (wordToken?_of_isNumber hnumber) before
  | string s => exact fun _ before => ((Holds.between before).lands_stringLiteral s).reads
  | array _ ih => exact scans_array ih
  | object _ ih => exact scans_object ih

theorem tokens?_of_reads {text : Bytes} {tokens : List Token} (h : start.Reads text tokens) :
    tokens? text = some tokens.reverse := by
  obtain ⟨last, hlast, htokens⟩ := h
  rw [tokens?, hlast]
  exact htokens.finish_eq

/-- The text of a value consists of the tokens of the cleaned value. -/
theorem reads_render {depth : Nat} {value : Json} (h : Fits depth value) :
    start.Reads value.render value.cleaned.tokens.reverse := by
  have hvalue := scans_of_fits h 0 []
  rwa [List.append_nil] at hvalue

theorem tokens?_render {depth : Nat} {value : Json} (h : Fits depth value) :
    tokens? value.render = some value.cleaned.tokens := by
  rw [tokens?_of_reads (reads_render h), List.reverse_reverse]

/-- A line of its own adds nothing to the text of a value. -/
theorem tokens?_render_line {depth : Nat} {value : Json} (h : Fits depth value) :
    tokens? (value.render ++ utf8 "\n") = some value.cleaned.tokens := by
  have hline : Lands start (value.render ++ utf8 "\n") value.cleaned.tokens.reverse :=
    (reads_render h).append_lands fun next hnext => hnext.lands_newline 0
  rw [tokens?_of_reads hline.reads, List.reverse_reverse]

end Json

end PlaceholderIcons
