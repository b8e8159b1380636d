import Mathlib.Data.List.Forall2
import PlaceholderIcons.Proofs.JsonGrammar
import PlaceholderIcons.Proofs.JsonReading
import PlaceholderIcons.Proofs.PathNames

/-!
What counts as a JSON text. The grammar of values is given over texts alone,
and the reader accepts exactly its texts: a text of the grammar is scanned and
built piece by piece, and conversely whatever the scanner and the builder have
taken so far is the front of a text of the grammar.
-/

namespace PlaceholderIcons

namespace Json

def quoted (body : Bytes) : Bytes :=
  0x22 :: (body ++ [0x22])

/-- Texts with commas between them, or blanks if there are none. -/
def listed (blanks : Bytes) : List Bytes → Bytes
  | [] => blanks
  | texts => Bytes.joinWith 0x2C texts

def arrayText (blanks : Bytes) (items : List Bytes) : Bytes :=
  0x5B :: (listed blanks items ++ [0x5D])

/-- A member as it is written: blanks, what stands between the quotes of its
name, blanks, and behind the colon its value. -/
structure MemberText where
  lead : Bytes
  body : Bytes
  gap : Bytes
  value : Bytes

namespace MemberText

/-- The member up to its colon. -/
def naming (m : MemberText) : Bytes :=
  m.lead ++ (quoted m.body ++ (m.gap ++ [0x3A]))

def text (m : MemberText) : Bytes :=
  m.naming ++ m.value

structure IsNamed (m : MemberText) : Prop where
  lead : Blank m.lead
  body : StringBody m.body
  gap : Blank m.gap

end MemberText

def objectText (blanks : Bytes) (members : List MemberText) : Bytes :=
  0x7B :: (listed blanks (members.map MemberText.text) ++ [0x7D])

/-- The texts of values that are nested at most `depth` deep. -/
inductive Valid : (depth : Nat) → Bytes → Prop where
  | null {depth : Nat} : Valid depth (utf8 "null")
  | false {depth : Nat} : Valid depth (utf8 "false")
  | true {depth : Nat} : Valid depth (utf8 "true")
  | number {depth : Nat} {literal : Bytes} (h : NumberText literal) : Valid depth literal
  | string {depth : Nat} {body : Bytes} (h : StringBody body) : Valid depth (quoted body)
  | array {depth : Nat} {blanks : Bytes} {items : List Bytes} (hblanks : Blank blanks)
      (hitems : ∀ item ∈ items, Valid depth item) : Valid (depth + 1) (arrayText blanks items)
  | object {depth : Nat} {blanks : Bytes} {members : List MemberText} (hblanks : Blank blanks)
      (hnames : ∀ m ∈ members, m.IsNamed) (hvalues : ∀ m ∈ members, Valid depth m.value) :
      Valid (depth + 1) (objectText blanks members)
  | padded {depth : Nat} {lead text trail : Bytes} (hlead : Blank lead) (htrail : Blank trail)
      (h : Valid depth text) : Valid depth (lead ++ (text ++ trail))

section Accepting

open Scanner

/-- Behind a finished token, the text is scanned to these tokens. -/
def Yields (text : Bytes) (tokens : List Token) : Prop :=
  ∀ before, Reads ⟨before, .between⟩ text (tokens.reverse ++ before)

theorem lands_blank {blanks : Bytes} (h : Blank blanks) (tokens : List Token) :
    Lands ⟨tokens, .between⟩ blanks tokens := by
  cases blanks with
  | nil => rfl
  | cons b blanks => exact (Holds.between tokens).lands_blanks h

theorem reads_blank {blanks : Bytes} (h : Blank blanks) {s : Scanner} {tokens : List Token}
    (hs : s.Holds tokens) : s.Reads blanks tokens := by
  cases blanks with
  | nil => exact ⟨s, rfl, hs⟩
  | cons b blanks => exact (hs.lands_blanks h).reads

theorem yields_blank {blanks : Bytes} (h : Blank blanks) : Yields blanks [] :=
  fun before => (lands_blank h before).reads

theorem Yields.padded {lead text trail : Bytes} {tokens : List Token} (hlead : Blank lead)
    (htrail : Blank trail) (h : Yields text tokens) : Yields (lead ++ (text ++ trail)) tokens := by
  intro before
  refine (lands_blank hlead before).append_reads ((h before).append ?_)
  exact fun next hnext => reads_blank htrail hnext

/-- Texts that each follow a comma. -/
theorem reads_behind_commas {texts : List Bytes} {pieces : List (List Token)}
    (h : List.Forall₂ Yields texts pieces) {s : Scanner} {before : List Token}
    (hs : s.Holds before) :
    s.Reads (texts.flatMap (0x2C :: ·)) ((pieces.flatMap (Token.comma :: ·)).reverse ++ before) := by
  induction h generalizing s before with
  | nil => exact ⟨s, rfl, hs⟩
  | @cons text piece texts pieces hpiece _ ih =>
    have hcomma : s.Lands [0x2C] (.comma :: before) := hs.lands_punctuation rfl
    have htext := hcomma.append_reads (hpiece (.comma :: before))
    have hrest := htext.append fun next hnext => ih hnext
    simpa using hrest

/-- Token lists with commas between them. -/
def listedTokens : List (List Token) → List Token
  | [] => []
  | piece :: pieces => piece ++ pieces.flatMap (Token.comma :: ·)

theorem yields_listed {blanks : Bytes} (hblanks : Blank blanks) {texts : List Bytes}
    {pieces : List (List Token)} (h : List.Forall₂ Yields texts pieces) :
    Yields (listed blanks texts) (listedTokens pieces) := by
  cases h with
  | nil => exact yields_blank hblanks
  | cons hpiece hrest =>
    intro before
    have hall := (hpiece before).append fun next hnext => reads_behind_commas hrest hnext
    rw [listed, Bytes.joinWith_cons, listedTokens, List.reverse_append, List.append_assoc]
    · exact hall
    · exact List.cons_ne_nil _ _

theorem Yields.bracketed {text : Bytes} {tokens : List Token} (h : Yields text tokens)
    {left right : UInt8} {opening closing : Token} (hopen : punctuation? left = some opening)
    (hclose : punctuation? right = some closing) :
    Yields (left :: (text ++ [right])) (opening :: (tokens ++ [closing])) := by
  intro before
  have hleft := (Holds.between before).lands_punctuation hopen
  have htext := (h (opening :: before)).append_lands fun next hnext =>
    hnext.lands_punctuation hclose
  have hall := hleft.append_reads htext.reads
  simpa using hall

theorem Unclosed.stays {body : Bytes} (h : Unclosed body) : Stays body := by
  induction h with
  | nil => exact stays_nil
  | plain hb _ ih => exact (stays_byte hb.visible hb.ne_quote hb.ne_backslash).append ih
  | escape b _ ih => exact (stays_escape b).append ih

theorem yields_quoted {body value : Bytes} (hbody : StringBody body)
    (hvalue : stringValue? body = some value) : Yields (quoted body) [.string value] := by
  intro before
  have hopen : step ⟨before, .between⟩ 0x22 = some ⟨before, .string []⟩ := rfl
  have hinside := hbody.unclosed.stays before []
  have hclose : step ⟨before, .string (body.reverse ++ [])⟩ 0x22 =
      some ⟨.string value :: before, .between⟩ := by
    simp [step, hvalue]
  refine Lands.reads ?_
  rw [Lands, quoted, foldlM_cons_some hopen, foldlM_append_some hinside, foldlM_cons_some hclose]
  rfl

theorem itemTokens_eq (items : List Json) :
    itemTokens items = (items.map tokens).flatMap (Token.comma :: ·) := by
  induction items with
  | nil => rfl
  | cons item items ih => simp [itemTokens, ih]

theorem tokens_array (items : List Json) :
    tokens (.array items) = .openArray :: (listedTokens (items.map tokens) ++ [.closeArray]) := by
  cases items with
  | nil => rfl
  | cons item items => simp [tokens, listedTokens, itemTokens_eq]

/-- The tokens of one member. -/
def entryTokens (entry : Bytes × Json) : List Token :=
  .string entry.1 :: .colon :: entry.2.tokens

theorem memberTokens_eq (members : List (Bytes × Json)) :
    memberTokens members = (members.map entryTokens).flatMap (Token.comma :: ·) := by
  induction members with
  | nil => rfl
  | cons member members ih => simp [memberTokens, entryTokens, ih]

theorem tokens_object (members : List (Bytes × Json)) :
    tokens (.object members) =
      .openObject :: (listedTokens (members.map entryTokens) ++ [.closeObject]) := by
  cases members with
  | nil => rfl
  | cons member members => simp [tokens, listedTokens, entryTokens, memberTokens_eq]

/-- The text is read as this value wherever `depth` more levels are allowed. -/
structure Means (depth : Nat) (text : Bytes) (value : Json) : Prop where
  fits : Fits depth value
  yields : Yields text value.tokens

theorem Means.padded {depth : Nat} {lead text trail : Bytes} {value : Json} (hlead : Blank lead)
    (htrail : Blank trail) (h : Means depth text value) :
    Means depth (lead ++ (text ++ trail)) value :=
  ⟨h.fits, h.yields.padded hlead htrail⟩

theorem Means.parse?_eq {text : Bytes} {value : Json} (h : Means maxDepth text value) :
    parse? text = some value := by
  rw [parse?, tokens?_of_reads (h.yields []), List.append_nil, List.reverse_reverse]
  exact ofTokens?_tokens h.fits

theorem forall_right_of_forall₂ {α β : Type} {R : α → β → Prop} {P : β → Prop} {xs : List α}
    {ys : List β} (h : List.Forall₂ R xs ys) (himp : ∀ x y, R x y → P y) : ∀ y ∈ ys, P y := by
  induction h with
  | nil => exact List.forall_mem_nil P
  | cons hxy _ ih => exact List.forall_mem_cons.2 ⟨himp _ _ hxy, ih⟩

theorem exists_forall₂ {α β : Type} {R : α → β → Prop} {xs : List α}
    (h : ∀ x ∈ xs, ∃ y, R x y) : ∃ ys, List.Forall₂ R xs ys := by
  induction xs with
  | nil => exact ⟨[], .nil⟩
  | cons x xs ih =>
    obtain ⟨hx, hxs⟩ := List.forall_mem_cons.1 h
    obtain ⟨y, hy⟩ := hx
    obtain ⟨ys, hys⟩ := ih hxs
    exact ⟨y :: ys, .cons hy hys⟩

theorem means_array {depth : Nat} {blanks : Bytes} (hblanks : Blank blanks) {texts : List Bytes}
    {items : List Json} (h : List.Forall₂ (Means depth) texts items) :
    Means (depth + 1) (arrayText blanks texts) (.array items) := by
  refine ⟨.array (forall_right_of_forall₂ h fun _ _ hmeans => hmeans.fits), ?_⟩
  have hpieces : List.Forall₂ Yields texts (items.map tokens) :=
    List.forall₂_map_right_iff.2 (h.imp fun _ _ hmeans => hmeans.yields)
  rw [tokens_array]
  exact (yields_listed hblanks hpieces).bracketed rfl rfl

/-- The member is read as this name and this value. -/
structure MemberText.Means (depth : Nat) (m : MemberText) (entry : Bytes × Json) : Prop where
  named : m.IsNamed
  name : stringValue? m.body = some entry.1
  value : Json.Means depth m.value entry.2

theorem MemberText.Means.yields {depth : Nat} {m : MemberText} {entry : Bytes × Json}
    (h : m.Means depth entry) : Yields m.text (entryTokens entry) := by
  intro before
  have hname := ((yields_quoted h.named.body h.name).padded h.named.lead h.named.gap) before
  have hcolon := hname.append_lands fun next hnext =>
    hnext.lands_punctuation (show punctuation? 0x3A = some .colon from rfl)
  have hvalue := hcolon.append_reads (h.value.yields _)
  simpa [text, naming, entryTokens] using hvalue

theorem means_object {depth : Nat} {blanks : Bytes} (hblanks : Blank blanks)
    {members : List MemberText} {entries : List (Bytes × Json)}
    (h : List.Forall₂ (MemberText.Means depth) members entries) :
    Means (depth + 1) (objectText blanks members) (.object entries) := by
  refine ⟨.object (forall_right_of_forall₂ h fun _ _ hmeans => hmeans.value.fits), ?_⟩
  have hpieces : List.Forall₂ Yields (members.map MemberText.text) (entries.map entryTokens) := by
    rw [List.forall₂_map_left_iff, List.forall₂_map_right_iff]
    exact h.imp fun _ _ hmeans => hmeans.yields
  rw [tokens_object]
  exact (yields_listed hblanks hpieces).bracketed rfl rfl

/-- A member of the grammar has a name. -/
theorem MemberText.exists_means {depth : Nat} {m : MemberText} (hnamed : m.IsNamed)
    (hvalue : ∃ value, Json.Means depth m.value value) : ∃ entry, m.Means depth entry := by
  obtain ⟨name, hname⟩ := (exists_stringValue?_iff hnamed.body.unclosed).2 hnamed.body
  obtain ⟨value, hvalue⟩ := hvalue
  exact ⟨(name, value), hnamed, hname, hvalue⟩

theorem means_word {depth : Nat} {word : Bytes} {token : Token} {value : Json}
    (hword : word.all isWordByte = true) (htoken : wordToken? word = some token)
    (hfits : Fits depth value) (hvalue : value.tokens = [token]) : Means depth word value := by
  refine ⟨hfits, ?_⟩
  rw [hvalue]
  exact reads_word hword htoken

/-- Every text of the grammar is read as some value. -/
theorem Valid.exists_means {depth : Nat} {text : Bytes} (h : Valid depth text) :
    ∃ value, Means depth text value := by
  induction h with
  | null => exact ⟨.null, means_word (by decide) rfl .null rfl⟩
  | false => exact ⟨.bool .false, means_word (by decide) rfl (.bool .false) rfl⟩
  | true => exact ⟨.bool .true, means_word (by decide) rfl (.bool .true) rfl⟩
  | @number _ literal h =>
    have hnumber := isNumber_iff.2 h
    exact ⟨.number literal, means_word (all_isWordByte_of_isNumber hnumber)
      (wordToken?_of_isNumber hnumber) (.number hnumber) rfl⟩
  | string h =>
    obtain ⟨value, hvalue⟩ := (exists_stringValue?_iff h.unclosed).2 h
    exact ⟨.string value, .string value, yields_quoted h hvalue⟩
  | array hblanks _ ih =>
    obtain ⟨items, hitems⟩ := exists_forall₂ ih
    exact ⟨.array items, means_array hblanks hitems⟩
  | object hblanks hnames _ ih =>
    obtain ⟨entries, hentries⟩ := exists_forall₂ fun m hm =>
      MemberText.exists_means (hnames m hm) (ih m hm)
    exact ⟨.object entries, means_object hblanks hentries⟩
  | padded hlead htrail _ ih =>
    obtain ⟨value, hvalue⟩ := ih
    exact ⟨value, hvalue.padded hlead htrail⟩

end Accepting

section Accepted

/-- How a token is spelled. -/
inductive TokenText : Token → Bytes → Prop where
  | punctuation {b : UInt8} {token : Token} (h : punctuation? b = some token) : TokenText token [b]
  | word {word : Bytes} {token : Token} (h : wordToken? word = some token) : TokenText token word
  | string {body value : Bytes} (h : StringBody body) : TokenText (.string value) (quoted body)

/-- A text that consists of these tokens, the last one first, with blanks
between them. -/
inductive Lexed : List Token → Bytes → Prop where
  | blanks {blanks : Bytes} (h : Blank blanks) : Lexed [] blanks
  | token {tokens : List Token} {text : Bytes} {token : Token} {spelling blanks : Bytes}
      (htext : Lexed tokens text) (htoken : TokenText token spelling) (hblanks : Blank blanks) :
      Lexed (token :: tokens) (text ++ (spelling ++ blanks))

theorem Blank.snoc {blanks : Bytes} (h : Blank blanks) {b : UInt8} (hb : isBlank b = true) :
    Blank (blanks ++ [b]) := by
  intro x hx
  rcases List.mem_append.1 hx with hx | hx
  · exact h x hx
  · exact List.mem_singleton.1 hx ▸ hb

theorem blank_nil : Blank [] :=
  List.forall_mem_nil _

theorem Lexed.snoc_blank {tokens : List Token} {text : Bytes} (h : Lexed tokens text) {b : UInt8}
    (hb : isBlank b = true) : Lexed tokens (text ++ [b]) := by
  cases h with
  | blanks h => exact .blanks (h.snoc hb)
  | token htext htoken hblanks =>
    rw [List.append_assoc, List.append_assoc]
    exact .token htext htoken (hblanks.snoc hb)

theorem Lexed.snoc_token {tokens : List Token} {text spelling : Bytes} {token : Token}
    (h : Lexed tokens text) (htoken : TokenText token spelling) :
    Lexed (token :: tokens) (text ++ spelling) := by
  have hall := Lexed.token h htoken blank_nil
  rwa [List.append_nil] at hall

/-- What the scanner stands for behind `text`: finished tokens, and the front of
the token it is in. -/
inductive Scanned : Scanner → Bytes → Prop where
  | between {tokens : List Token} {text : Bytes} (h : Lexed tokens text) :
      Scanned ⟨tokens, .between⟩ text
  | word {tokens : List Token} {text collected : Bytes} (h : Lexed tokens text) :
      Scanned ⟨tokens, .word collected⟩ (text ++ collected.reverse)
  | string {tokens : List Token} {text collected : Bytes} (h : Lexed tokens text)
      (hbody : Unclosed collected.reverse) :
      Scanned ⟨tokens, .string collected⟩ (text ++ 0x22 :: collected.reverse)
  | escape {tokens : List Token} {text collected : Bytes} (h : Lexed tokens text)
      (hbody : Unclosed collected.reverse) :
      Scanned ⟨tokens, .escape (0x5C :: collected)⟩ (text ++ 0x22 :: (collected.reverse ++ [0x5C]))

theorem Lexed.begin {tokens : List Token} {text : Bytes} (h : Lexed tokens text) {b : UInt8}
    {next : Scanner} (hnext : Scanner.begin tokens b = some next) : Scanned next (text ++ [b]) := by
  unfold Scanner.begin at hnext
  split at hnext
  next hblank =>
    cases hnext
    exact .between (h.snoc_blank hblank)
  next =>
    split at hnext
    next hquote =>
      cases hnext
      rw [eq_of_beq hquote]
      exact .string h .nil
    next =>
      split at hnext
      next =>
        cases hnext
        exact (Scanned.word h : Scanned ⟨tokens, .word [b]⟩ (text ++ [b].reverse))
      next =>
        obtain ⟨token, htoken, rfl⟩ := Option.map_eq_some_iff.1 hnext
        exact .between (h.snoc_token (.punctuation htoken))

theorem Scanned.step {s next : Scanner} {text : Bytes} (h : Scanned s text) {b : UInt8}
    (hnext : s.step b = some next) : Scanned next (text ++ [b]) := by
  cases h with
  | between h => exact h.begin hnext
  | @word tokens text collected h =>
    simp only [Scanner.step] at hnext
    split at hnext
    next =>
      cases hnext
      rw [List.append_assoc, ← List.reverse_cons]
      exact .word h
    next =>
      obtain ⟨token, htoken, hbegin⟩ := Option.bind_eq_some_iff.1 hnext
      exact (h.snoc_token (.word htoken)).begin hbegin
  | @string tokens text collected h hbody =>
    simp only [Scanner.step] at hnext
    split at hnext
    next hquote =>
      obtain ⟨value, hvalue, hfinished⟩ := Option.bind_eq_some_iff.1 hnext
      cases hfinished
      have hstring : StringBody collected.reverse := (exists_stringValue?_iff hbody).1 ⟨value, hvalue⟩
      rw [eq_of_beq hquote, List.append_assoc]
      exact .between (h.snoc_token (.string hstring))
    next hquote =>
      split at hnext
      next hbackslash =>
        cases hnext
        rw [eq_of_beq hbackslash, List.append_assoc]
        exact .escape h hbody
      next hbackslash =>
        split at hnext
        next => cases hnext
        next hcontrol =>
          cases hnext
          have hplain : IsPlainByte b := by
            refine ⟨?_, by simpa using hquote, by simpa using hbackslash⟩
            rw [UInt8.lt_iff_toNat_lt] at hcontrol
            exact Nat.le_of_not_lt hcontrol
          have hlonger : Unclosed (b :: collected).reverse := by
            rw [List.reverse_cons]
            exact hbody.append (.plain hplain .nil)
          have hnext := Scanned.string h hlonger
          rw [List.reverse_cons] at hnext
          rw [List.append_assoc]
          exact hnext
  | @escape tokens text collected h hbody =>
    cases hnext
    have hlonger : Unclosed (b :: 0x5C :: collected).reverse := by
      rw [List.reverse_cons, List.reverse_cons, List.append_assoc]
      exact hbody.append (.escape b .nil)
    have hnext := Scanned.string h hlonger
    rw [List.reverse_cons, List.reverse_cons] at hnext
    rw [List.append_assoc]
    exact hnext

theorem Scanned.run {s next : Scanner} {seen text : Bytes} (h : Scanned s seen)
    (hnext : text.foldlM Scanner.step s = some next) : Scanned next (seen ++ text) := by
  induction text generalizing s seen with
  | nil =>
    cases hnext
    rw [List.append_nil]
    exact h
  | cons b text ih =>
    rw [List.foldlM_cons] at hnext
    obtain ⟨middle, hmiddle, hrest⟩ := Option.bind_eq_some_iff.1 hnext
    have hall := ih (h.step hmiddle) hrest
    rwa [List.append_assoc] at hall

theorem lexed_of_tokens? {text : Bytes} {tokens : List Token} (h : tokens? text = some tokens) :
    Lexed tokens.reverse text := by
  obtain ⟨last, hlast, hfinish⟩ := Option.bind_eq_some_iff.1 h
  have hscanned : Scanned last text := (Scanned.between (.blanks blank_nil)).run hlast
  cases hscanned with
  | between hlexed =>
    cases hfinish
    rw [List.reverse_reverse]
    exact hlexed
  | word hlexed =>
    obtain ⟨token, htoken, heq⟩ := Option.bind_eq_some_iff.1 hfinish
    cases heq
    rw [List.reverse_reverse]
    exact hlexed.snoc_token (.word htoken)
  | string _ _ => cases hfinish
  | escape _ _ => cases hfinish

/-- Texts that each have a comma behind them. -/
def ahead (texts : List Bytes) : Bytes :=
  texts.flatMap (· ++ [0x2C])

theorem ahead_snoc (texts : List Bytes) (last : Bytes) :
    ahead (texts ++ [last]) = ahead texts ++ (last ++ [0x2C]) := by
  simp [ahead]

theorem listed_snoc (blanks : Bytes) (texts : List Bytes) (last : Bytes) :
    listed blanks (texts ++ [last]) = ahead texts ++ last := by
  have hjoin : listed blanks (texts ++ [last]) = Bytes.joinWith 0x2C (texts ++ [last]) := by
    cases texts <;> rfl
  rw [hjoin]
  induction texts with
  | nil => rfl
  | cons text texts ih =>
    have hrest : Bytes.joinWith 0x2C (text :: (texts ++ [last])) =
        text ++ 0x2C :: Bytes.joinWith 0x2C (texts ++ [last]) := by
      cases texts <;> rfl
    rw [List.cons_append, hrest, ih (by cases texts <;> rfl)]
    simp [ahead]

/-- The byte of a punctuation mark. -/
def Token.mark? : Token → Option UInt8
  | .openObject => some 0x7B
  | .closeObject => some 0x7D
  | .openArray => some 0x5B
  | .closeArray => some 0x5D
  | .colon => some 0x3A
  | .comma => some 0x2C
  | _ => none

theorem mark?_of_punctuation? {b : UInt8} {token : Token} (h : punctuation? b = some token) :
    token.mark? = some b := by
  unfold punctuation? at h
  split at h <;> cases h <;> rfl

/-- A word is a value of its own. -/
theorem wordToken?_sound {word : Bytes} {token : Token} (h : wordToken? word = some token)
    (depth : Nat) : token.mark? = none ∧ (∀ s, token ≠ .string s) ∧ Valid depth word := by
  unfold wordToken? at h
  split at h
  next hword =>
    cases h
    exact ⟨rfl, nofun, hword ▸ .null⟩
  next =>
    split at h
    next hword =>
      cases h
      exact ⟨rfl, nofun, hword ▸ .true⟩
    next =>
      split at h
      next hword =>
        cases h
        exact ⟨rfl, nofun, hword ▸ .false⟩
      next =>
        split at h
        next hnumber =>
          cases h
          exact ⟨rfl, nofun, .number (isNumber_iff.1 hnumber)⟩
        next => cases h

theorem TokenText.eq_of_mark? {token : Token} {spelling : Bytes} (h : TokenText token spelling)
    {b : UInt8} (hb : token.mark? = some b) : spelling = [b] := by
  cases h with
  | punctuation h =>
    have heq := (mark?_of_punctuation? h).symm.trans hb
    rw [Option.some.inj heq]
  | word h => cases (wordToken?_sound h 0).1.symm.trans hb
  | string _ => cases hb

theorem TokenText.valid {token : Token} {spelling : Bytes} (h : TokenText token spelling)
    (hmark : token.mark? = none) (depth : Nat) : Valid depth spelling := by
  cases h with
  | punctuation h => cases (mark?_of_punctuation? h).symm.trans hmark
  | word h => exact (wordToken?_sound h depth).2.2
  | string h => exact .string h

theorem TokenText.exists_body {value spelling : Bytes} (h : TokenText (.string value) spelling) :
    ∃ body, StringBody body ∧ spelling = quoted body := by
  generalize htoken : Token.string value = token at h
  cases h with
  | punctuation h => cases htoken ▸ mark?_of_punctuation? h
  | word h => exact absurd htoken.symm ((wordToken?_sound h 0).2.1 value)
  | string h => exact ⟨_, h, rfl⟩

theorem Valid.lead {depth : Nat} {lead text : Bytes} (hlead : Blank lead) (h : Valid depth text) :
    Valid depth (lead ++ text) := by
  have hpadded := Valid.padded hlead blank_nil h
  rwa [List.append_nil] at hpadded

theorem Valid.trail {depth : Nat} {text trail : Bytes} (h : Valid depth text)
    (htrail : Blank trail) : Valid depth (text ++ trail) :=
  .padded blank_nil htrail h

theorem Blank.append {front back : Bytes} (hfront : Blank front) (hback : Blank back) :
    Blank (front ++ back) := by
  intro b hb
  exact (List.mem_append.1 hb).elim (hfront b) (hback b)

def ValidMembers (depth : Nat) (members : List MemberText) : Prop :=
  ∀ m ∈ members, m.IsNamed ∧ Valid depth m.value

theorem ValidMembers.snoc {depth : Nat} {members : List MemberText} (h : ValidMembers depth members)
    {m : MemberText} (hm : m.IsNamed) (hvalue : Valid depth m.value) :
    ValidMembers depth (members ++ [m]) := by
  intro x hx
  rcases List.mem_append.1 hx with hx | hx
  · exact h x hx
  · exact List.mem_singleton.1 hx ▸ ⟨hm, hvalue⟩

theorem ValidMembers.valid {depth : Nat} {members : List MemberText}
    (h : ValidMembers depth members) {blanks : Bytes} (hblanks : Blank blanks) :
    Valid (depth + 1) (objectText blanks members) :=
  .object hblanks (fun m hm => (h m hm).1) fun m hm => (h m hm).2

/-- The text in front of the value being read, with the containers around it
begun and none of them ended; `depth` more levels are allowed. -/
inductive Opened : List Frame → (depth : Nat) → Bytes → Prop where
  | nil : Opened [] maxDepth []
  | array {outer : List Frame} {depth : Nat} {front lead : Bytes} {items : List Json}
      {texts : List Bytes} (houter : Opened outer (depth + 1) front) (hlead : Blank lead)
      (htexts : ∀ text ∈ texts, Valid depth text) (hlength : texts.length = items.length) :
      Opened (.array items :: outer) depth (front ++ (lead ++ 0x5B :: ahead texts))
  | object {outer : List Frame} {depth : Nat} {front lead : Bytes}
      {entries : List (Bytes × Json)} {name : Bytes} {members : List MemberText} {m : MemberText}
      (houter : Opened outer (depth + 1) front) (hlead : Blank lead)
      (hmembers : ValidMembers depth members) (hm : m.IsNamed) :
      Opened (.object entries name :: outer) depth
        (front ++ (lead ++ 0x7B :: (ahead (members.map MemberText.text) ++ m.naming)))

theorem Opened.length_add {context : List Frame} {depth : Nat} {front : Bytes}
    (h : Opened context depth front) : context.length + depth = maxDepth := by
  induction h with
  | nil => exact Nat.zero_add maxDepth
  | array _ _ _ _ ih =>
    rw [List.length_cons]
    omega
  | object _ _ _ _ ih =>
    rw [List.length_cons]
    omega

/-- What the reader stands for behind a text. -/
inductive Reached : Builder → Bytes → Prop where
  | value {context : List Frame} {depth : Nat} {front blanks : Bytes} {mayClose : Bool}
      (h : Opened context depth front) (hblanks : Blank blanks) :
      Reached ⟨context, .value mayClose⟩ (front ++ blanks)
  | name {context : List Frame} {depth : Nat} {front lead blanks : Bytes}
      {entries : List (Bytes × Json)} {members : List MemberText} {mayClose : Bool}
      (h : Opened context (depth + 1) front) (hlead : Blank lead)
      (hmembers : ValidMembers depth members) (hfirst : mayClose = true → members = [])
      (hblanks : Blank blanks) :
      Reached ⟨context, .name entries mayClose⟩
        (front ++ (lead ++ 0x7B :: (ahead (members.map MemberText.text) ++ blanks)))
  | colon {context : List Frame} {depth : Nat} {front lead : Bytes}
      {entries : List (Bytes × Json)} {name : Bytes} {members : List MemberText} {m : MemberText}
      (h : Opened context (depth + 1) front) (hlead : Blank lead)
      (hmembers : ValidMembers depth members) (hm : m.IsNamed) :
      Reached ⟨context, .colon entries name⟩
        (front ++ (lead ++ 0x7B :: (ahead (members.map MemberText.text) ++
          (m.lead ++ (quoted m.body ++ m.gap)))))
  | after {context : List Frame} {depth : Nat} {front text : Bytes} {value : Json}
      (h : Opened context depth front) (htext : Valid depth text) :
      Reached ⟨context, .after value⟩ (front ++ text)

theorem Reached.blanks {b : Builder} {text blanks : Bytes} (h : Reached b text)
    (hblanks : Blank blanks) : Reached b (text ++ blanks) := by
  cases h with
  | value h hbefore =>
    rw [List.append_assoc]
    exact .value h (hbefore.append hblanks)
  | name h hlead hmembers hfirst hbefore =>
    simp only [List.append_assoc, List.cons_append]
    exact .name h hlead hmembers hfirst (hbefore.append hblanks)
  | @colon context depth front lead entries name members m h hlead hmembers hm =>
    have hgap : MemberText.IsNamed { m with gap := m.gap ++ blanks } :=
      ⟨hm.lead, hm.body, hm.gap.append hblanks⟩
    simp only [List.append_assoc, List.cons_append]
    exact .colon h hlead hmembers hgap
  | after h htext =>
    rw [List.append_assoc]
    exact .after h (htext.trail hblanks)

/-- A token where a value may begin. -/
theorem Opened.beginValue {context : List Frame} {depth : Nat} {front blanks spelling : Bytes}
    (h : Opened context depth front) (hblanks : Blank blanks) {mayClose : Bool} {token : Token}
    {next : Builder} (hnext : Builder.beginValue context mayClose token = some next)
    (htoken : TokenText token spelling) : Reached next (front ++ (blanks ++ spelling)) := by
  have hroom (hlt : context.length < maxDepth) : ∃ rest, depth = rest + 1 := by
    have hsum := h.length_add
    exact Nat.exists_eq_add_one_of_ne_zero (by omega)
  cases token with
  | null | bool _ | number _ | string _ =>
    cases hnext
    exact .after h ((htoken.valid rfl depth).lead hblanks)
  | openArray =>
    obtain ⟨hlt, hnext⟩ := Option.ite_none_right_eq_some.1 hnext
    obtain ⟨rest, rfl⟩ := hroom hlt
    cases hnext
    rw [htoken.eq_of_mark? rfl, ← List.append_nil (front ++ (blanks ++ [0x5B]))]
    exact .value (.array h hblanks (List.forall_mem_nil _) rfl) blank_nil
  | openObject =>
    obtain ⟨hlt, hnext⟩ := Option.ite_none_right_eq_some.1 hnext
    obtain ⟨rest, rfl⟩ := hroom hlt
    cases hnext
    rw [htoken.eq_of_mark? rfl]
    exact .name h hblanks (List.forall_mem_nil _) (fun _ => rfl) blank_nil
  | closeArray =>
    simp only [Builder.beginValue] at hnext
    split at hnext
    next outer =>
      obtain ⟨-, hnext⟩ := Option.ite_none_right_eq_some.1 hnext
      cases hnext
      cases h with
      | array houter hlead htexts hlength =>
        -- Only an array that has just begun may end here, so there is no item in front.
        obtain rfl := List.eq_nil_of_length_eq_zero hlength
        have harray := (Valid.array hblanks htexts).lead hlead
        rw [htoken.eq_of_mark? rfl, List.append_assoc, List.append_assoc]
        exact .after houter harray
    next => cases hnext
  | closeObject | colon | comma => cases hnext

/-- A token behind a finished value. -/
theorem Opened.endValue {context : List Frame} {depth : Nat} {front text spelling : Bytes}
    (h : Opened context depth front) (htext : Valid depth text) {value : Json} {token : Token}
    {next : Builder} (hnext : Builder.endValue context value token = some next)
    (htoken : TokenText token spelling) : Reached next (front ++ (text ++ spelling)) := by
  unfold Builder.endValue at hnext
  split at hnext
  next items outer =>
    cases hnext
    cases h with
    | @array _ _ front lead _ texts houter hlead htexts hlength =>
      have hopened : Opened (.array (value :: items) :: outer) depth
          (front ++ (lead ++ 0x5B :: ahead (texts ++ [text]))) :=
        .array houter hlead (List.forall_mem_append.2 ⟨htexts, List.forall_mem_singleton.2 htext⟩)
          (by simp [hlength])
      have hreached : Reached ⟨.array (value :: items) :: outer, .value false⟩ _ :=
        .value hopened blank_nil
      rw [htoken.eq_of_mark? rfl]
      simpa [ahead_snoc] using hreached
  next items outer =>
    cases hnext
    cases h with
    | @array _ _ front lead _ texts houter hlead htexts hlength =>
      have harray : Valid (depth + 1) (arrayText [] (texts ++ [text])) :=
        .array blank_nil (List.forall_mem_append.2 ⟨htexts, List.forall_mem_singleton.2 htext⟩)
      have hreached : Reached ⟨outer, .after (.array (value :: items).reverse)⟩ _ :=
        .after houter (harray.lead hlead)
      rw [htoken.eq_of_mark? rfl]
      simpa [arrayText, listed_snoc] using hreached
  next entries name outer =>
    cases hnext
    cases h with
    | @object _ _ front lead _ _ members m houter hlead hmembers hm =>
      -- The member whose name stands in front of the value is now complete.
      have hlonger : ValidMembers depth (members ++ [{ m with value := text }]) :=
        hmembers.snoc ⟨hm.lead, hm.body, hm.gap⟩ htext
      have hreached : Reached ⟨outer, .name ((name, value) :: entries) false⟩ _ :=
        .name houter hlead hlonger nofun blank_nil
      rw [htoken.eq_of_mark? rfl]
      simpa [ahead_snoc, MemberText.text, MemberText.naming] using hreached
  next entries name outer =>
    cases hnext
    cases h with
    | @object _ _ front lead _ _ members m houter hlead hmembers hm =>
      have hlonger : ValidMembers depth (members ++ [{ m with value := text }]) :=
        hmembers.snoc ⟨hm.lead, hm.body, hm.gap⟩ htext
      have hreached : Reached ⟨outer, .after (.object ((name, value) :: entries).reverse)⟩ _ :=
        .after houter ((hlonger.valid blank_nil).lead hlead)
      rw [htoken.eq_of_mark? rfl]
      simpa [objectText, listed_snoc, MemberText.text, MemberText.naming] using hreached
  next => cases hnext

/-- One token leads from the front of a text of the grammar to a longer one. -/
theorem Reached.step {b next : Builder} {text spelling : Bytes} {token : Token}
    (h : Reached b text) (hnext : b.step token = some next) (htoken : TokenText token spelling) :
    Reached next (text ++ spelling) := by
  cases h with
  | value h hblanks =>
    rw [List.append_assoc]
    exact h.beginValue hblanks hnext htoken
  | @name context depth front lead blanks entries members mayClose h hlead hmembers hfirst hblanks =>
    simp only [List.append_assoc, List.cons_append]
    cases token with
    | string name =>
      cases hnext
      obtain ⟨body, hbody, rfl⟩ := htoken.exists_body
      have hm : MemberText.IsNamed ⟨blanks, body, [], []⟩ := ⟨hblanks, hbody, blank_nil⟩
      have hreached : Reached ⟨context, .colon entries name⟩ _ := .colon h hlead hmembers hm
      simpa using hreached
    | closeObject =>
      cases mayClose with
      | false => cases hnext
      | true =>
        cases hnext
        obtain rfl := hfirst rfl
        rw [htoken.eq_of_mark? rfl]
        exact .after h ((hmembers.valid hblanks).lead hlead)
    | _ => cases hnext
  | @colon context depth front lead entries name members m h hlead hmembers hm =>
    cases token with
    | colon =>
      cases hnext
      have hopened : Opened (.object entries name :: context) depth _ :=
        .object h hlead hmembers hm
      have hreached : Reached ⟨.object entries name :: context, .value false⟩ _ :=
        .value hopened blank_nil
      rw [htoken.eq_of_mark? rfl]
      simpa [MemberText.naming] using hreached
    | _ => cases hnext
  | after h htext =>
    rw [List.append_assoc]
    exact h.endValue htext hnext htoken

theorem reached_of_lexed {tokens : List Token} {text : Bytes} (h : Lexed tokens text) {b : Builder}
    (hb : tokens.reverse.foldlM Builder.step Builder.start = some b) : Reached b text := by
  induction h generalizing b with
  | blanks hblanks =>
    cases hb
    exact .value .nil hblanks
  | token _ htoken hblanks ih =>
    rw [List.reverse_cons, List.foldlM_append] at hb
    obtain ⟨middle, hmiddle, hlast⟩ := Option.bind_eq_some_iff.1 hb
    rw [List.foldlM_cons] at hlast
    obtain ⟨last, hstep, hend⟩ := Option.bind_eq_some_iff.1 hlast
    cases hend
    rw [← List.append_assoc]
    exact ((ih hmiddle).step hstep htoken).blanks hblanks

theorem Reached.valid {b : Builder} {text : Bytes} (h : Reached b text) {value : Json}
    (hvalue : b.finish = some value) : Valid maxDepth text := by
  obtain ⟨context, phase⟩ := b
  cases context with
  | cons frame context => cases hvalue
  | nil =>
    cases h with
    | after h htext =>
      cases h
      exact htext
    | _ => cases hvalue

/-- The reader accepts exactly the texts of the grammar. -/
theorem exists_parse?_iff_valid {text : Bytes} :
    (∃ value, parse? text = some value) ↔ Valid maxDepth text := by
  constructor
  · rintro ⟨value, hvalue⟩
    obtain ⟨tokens, htokens, hbuilt⟩ := Option.bind_eq_some_iff.1 hvalue
    obtain ⟨b, hb, hfinish⟩ := Option.bind_eq_some_iff.1 hbuilt
    have hlexed := lexed_of_tokens? htokens
    rw [← List.reverse_reverse tokens] at hb
    exact (reached_of_lexed hlexed hb).valid hfinish
  · intro h
    obtain ⟨value, hvalue⟩ := h.exists_means
    exact ⟨value, hvalue.parse?_eq⟩

end Accepted

end Json

end PlaceholderIcons
