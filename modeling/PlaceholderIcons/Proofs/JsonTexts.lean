import PlaceholderIcons.Json.Reader
import PlaceholderIcons.Proofs.Utf8Decoding

/-!
The texts that reading JSON yields. A string literal is read as characters and
encoded anew, so whatever its bytes and escapes are, its value is well-formed
UTF-8. Neither scanner nor reader makes a text in any other way, hence every
text in an accepted value is well-formed, member names included.
-/

namespace PlaceholderIcons

namespace Json

/-- What every step keeps, the whole fold keeps. -/
theorem foldlM_induction {α β : Type} {f : β → α → Option β} {P : β → Prop} {Q : α → Prop}
    (hstep : ∀ {b a c}, P b → Q a → f b a = some c → P c) {items : List α}
    (hitems : ∀ a ∈ items, Q a) {b c : β} (hb : P b) (h : items.foldlM f b = some c) : P c := by
  induction items generalizing b with
  | nil =>
    rw [← Option.some.inj h]
    exact hb
  | cons a items ih =>
    rw [List.foldlM_cons] at h
    obtain ⟨middle, hmiddle, hrest⟩ := Option.bind_eq_some_iff.1 h
    apply ih (fun x hx => hitems x (List.mem_cons_of_mem a hx)) _ hrest
    exact hstep hb (hitems a List.mem_cons_self) hmiddle

/-- The text of a string token is well-formed. -/
def Token.WellFormed : Token → Prop
  | .string s => Utf8.wellFormed s = true
  | _ => True

/-- The value of a literal is encoded from characters, whatever the literal is. -/
theorem wellFormed_stringValue? {body value : Bytes} (h : stringValue? body = some value) :
    Utf8.wellFormed value = true := by
  obtain ⟨elements, -, hvalue⟩ := Option.bind_eq_some_iff.1 h
  rw [← Option.some.inj hvalue]
  exact Utf8.wellFormed_encode _

theorem wellFormed_wordToken? {word : Bytes} {token : Token} (h : wordToken? word = some token) :
    token.WellFormed := by
  unfold wordToken? at h
  repeat' split at h
  all_goals cases h
  all_goals trivial

theorem wellFormed_punctuation? {b : UInt8} {token : Token} (h : punctuation? b = some token) :
    token.WellFormed := by
  unfold punctuation? at h
  split at h <;> cases h
  all_goals trivial

namespace Scanner

/-- All tokens that the scanner has finished are well-formed. -/
def WellFormed (s : Scanner) : Prop :=
  ∀ token ∈ s.tokens, token.WellFormed

theorem wellFormed_cons {tokens : List Token} {token : Token} {scan scan' : Scan}
    (h : WellFormed ⟨tokens, scan⟩) (htoken : token.WellFormed) :
    WellFormed ⟨token :: tokens, scan'⟩ := by
  intro x hx
  rcases List.mem_cons.1 hx with rfl | hx
  · exact htoken
  · exact h x hx

theorem wellFormed_begin {tokens : List Token} {scan : Scan} {b : UInt8} {next : Scanner}
    (h : WellFormed ⟨tokens, scan⟩) (hbegin : begin tokens b = some next) : next.WellFormed := by
  unfold begin at hbegin
  split at hbegin
  · cases hbegin
    exact h
  split at hbegin
  · cases hbegin
    exact h
  split at hbegin
  · cases hbegin
    exact h
  · obtain ⟨token, htoken, rfl⟩ := Option.map_eq_some_iff.1 hbegin
    exact wellFormed_cons h (wellFormed_punctuation? htoken)

theorem wellFormed_step {s next : Scanner} {b : UInt8} (h : s.WellFormed)
    (hstep : s.step b = some next) : next.WellFormed := by
  obtain ⟨tokens, scan⟩ := s
  cases scan with
  | between => exact wellFormed_begin h hstep
  | word collected =>
    simp only [step] at hstep
    split at hstep
    · cases hstep
      exact h
    · obtain ⟨token, htoken, hbegin⟩ := Option.bind_eq_some_iff.1 hstep
      have hcons : WellFormed ⟨token :: tokens, .between⟩ :=
        wellFormed_cons h (wellFormed_wordToken? htoken)
      exact wellFormed_begin hcons hbegin
  | string collected =>
    simp only [step] at hstep
    split at hstep
    · obtain ⟨value, hvalue, hnext⟩ := Option.bind_eq_some_iff.1 hstep
      cases hnext
      exact wellFormed_cons h (wellFormed_stringValue? hvalue)
    split at hstep
    · cases hstep
      exact h
    split at hstep <;> cases hstep
    exact h
  | escape collected =>
    cases hstep
    exact h

theorem wellFormed_finish {s : Scanner} {tokens : List Token} (h : s.WellFormed)
    (hfinish : s.finish = some tokens) : ∀ token ∈ tokens, token.WellFormed := by
  obtain ⟨before, scan⟩ := s
  cases scan with
  | between =>
    cases hfinish
    intro token htoken
    exact h token (List.mem_reverse.1 htoken)
  | word collected =>
    obtain ⟨word, hword, htokens⟩ := Option.bind_eq_some_iff.1 hfinish
    cases htokens
    have hcons : WellFormed ⟨word :: before, .between⟩ :=
      wellFormed_cons h (wellFormed_wordToken? hword)
    intro token htoken
    exact hcons token (List.mem_reverse.1 htoken)
  | string collected => cases hfinish
  | escape collected => cases hfinish

end Scanner

theorem wellFormed_tokens? {text : Bytes} {tokens : List Token} (h : tokens? text = some tokens) :
    ∀ token ∈ tokens, token.WellFormed := by
  obtain ⟨last, hlast, hfinish⟩ := Option.bind_eq_some_iff.1 h
  have hstart : Scanner.start.WellFormed := fun token htoken => absurd htoken List.not_mem_nil
  have hscanner : last.WellFormed :=
    foldlM_induction (Q := fun _ => True) (fun hb _ => Scanner.wellFormed_step hb)
      (fun _ _ => trivial) hstart hlast
  exact Scanner.wellFormed_finish hscanner hfinish

/-- Every text in the value is well-formed, the names of members included. -/
inductive WellFormed : Json → Prop where
  | null : WellFormed .null
  | bool (b : Bool) : WellFormed (.bool b)
  | number (literal : Bytes) : WellFormed (.number literal)
  | string {s : Bytes} (h : Utf8.wellFormed s = true) : WellFormed (.string s)
  | array {items : List Json} (h : ∀ item ∈ items, WellFormed item) : WellFormed (.array items)
  | object {members : List (Bytes × Json)}
      (hnames : ∀ member ∈ members, Utf8.wellFormed member.1 = true)
      (hvalues : ∀ member ∈ members, WellFormed member.2) : WellFormed (.object members)

/-- Names and values of members are well-formed. -/
structure MembersWellFormed (members : List (Bytes × Json)) : Prop where
  names : ∀ member ∈ members, Utf8.wellFormed member.1 = true
  values : ∀ member ∈ members, member.2.WellFormed

theorem MembersWellFormed.nil : MembersWellFormed [] :=
  ⟨by simp, by simp⟩

theorem MembersWellFormed.cons {members : List (Bytes × Json)} (h : MembersWellFormed members)
    {name : Bytes} {value : Json} (hname : Utf8.wellFormed name = true)
    (hvalue : value.WellFormed) : MembersWellFormed ((name, value) :: members) := by
  constructor
  · rintro member (_ | ⟨_, hmember⟩)
    · exact hname
    · exact h.names member hmember
  · rintro member (_ | ⟨_, hmember⟩)
    · exact hvalue
    · exact h.values member hmember

theorem MembersWellFormed.object_reverse {members : List (Bytes × Json)}
    (h : MembersWellFormed members) : WellFormed (.object members.reverse) := by
  apply WellFormed.object
  · intro member hmember
    exact h.names member (List.mem_reverse.1 hmember)
  · intro member hmember
    exact h.values member (List.mem_reverse.1 hmember)

/-- What a container holds so far is well-formed. -/
def Frame.WellFormed : Frame → Prop
  | .array items => ∀ item ∈ items, item.WellFormed
  | .object members name => MembersWellFormed members ∧ Utf8.wellFormed name = true

/-- What the reader carries beside the containers is well-formed. -/
def Phase.WellFormed : Phase → Prop
  | .value _ => True
  | .name members _ => MembersWellFormed members
  | .colon members member => MembersWellFormed members ∧ Utf8.wellFormed member = true
  | .after finished => finished.WellFormed

namespace Builder

/-- Everything that the reader has read is well-formed. -/
structure WellFormed (b : Builder) : Prop where
  context : ∀ frame ∈ b.context, frame.WellFormed
  phase : b.phase.WellFormed

theorem wellFormed_beginValue {context : List Frame} {mayClose : Bool} {token : Token}
    {next : Builder} (hcontext : ∀ frame ∈ context, frame.WellFormed) (htoken : token.WellFormed)
    (h : beginValue context mayClose token = some next) : next.WellFormed := by
  cases token with
  | null =>
    cases h
    exact ⟨hcontext, .null⟩
  | bool b =>
    cases h
    exact ⟨hcontext, .bool b⟩
  | number literal =>
    cases h
    exact ⟨hcontext, .number literal⟩
  | string s =>
    cases h
    exact ⟨hcontext, .string htoken⟩
  | openArray =>
    simp only [beginValue] at h
    split at h <;> cases h
    refine ⟨?_, trivial⟩
    rintro frame (_ | ⟨_, hframe⟩)
    · exact fun item hitem => absurd hitem List.not_mem_nil
    · exact hcontext frame hframe
  | openObject =>
    simp only [beginValue] at h
    split at h <;> cases h
    exact ⟨hcontext, MembersWellFormed.nil⟩
  | closeArray =>
    simp only [beginValue] at h
    split at h
    · split at h <;> cases h
      refine ⟨fun frame hframe => hcontext frame (List.mem_cons_of_mem _ hframe), ?_⟩
      exact .array fun item hitem => absurd hitem List.not_mem_nil
    · cases h
  | closeObject => cases h
  | colon => cases h
  | comma => cases h

theorem wellFormed_endValue {context : List Frame} {value : Json} {token : Token} {next : Builder}
    (hcontext : ∀ frame ∈ context, frame.WellFormed) (hvalue : value.WellFormed)
    (h : endValue context value token = some next) : next.WellFormed := by
  unfold endValue at h
  split at h
  case h_5 => cases h
  all_goals
    cases h
    rename_i outer
    have houter : ∀ frame ∈ outer, frame.WellFormed :=
      fun frame hframe => hcontext frame (List.mem_cons_of_mem _ hframe)
    have hframe := hcontext _ List.mem_cons_self
  case h_1 items =>
    refine ⟨?_, trivial⟩
    rintro frame (_ | ⟨_, hmem⟩)
    · exact List.forall_mem_cons.2 ⟨hvalue, hframe⟩
    · exact houter frame hmem
  case h_2 items =>
    refine ⟨houter, .array ?_⟩
    intro item hitem
    exact List.forall_mem_cons.2 ⟨hvalue, hframe⟩ item (List.mem_reverse.1 hitem)
  case h_3 members name => exact ⟨houter, hframe.1.cons hframe.2 hvalue⟩
  case h_4 members name => exact ⟨houter, (hframe.1.cons hframe.2 hvalue).object_reverse⟩

theorem wellFormed_step {b next : Builder} {token : Token} (h : b.WellFormed)
    (htoken : token.WellFormed) (hstep : b.step token = some next) : next.WellFormed := by
  obtain ⟨context, phase⟩ := b
  obtain ⟨hcontext, hphase⟩ := h
  unfold step at hstep
  split at hstep
  case h_1 => exact wellFormed_beginValue hcontext htoken hstep
  case h_2 hname =>
    cases hname
    cases hstep
    exact ⟨hcontext, hphase, htoken⟩
  case h_3 =>
    cases hstep
    exact ⟨hcontext, MembersWellFormed.nil.object_reverse⟩
  case h_4 hcolon =>
    cases hcolon
    cases hstep
    refine ⟨?_, trivial⟩
    rintro frame (_ | ⟨_, hframe⟩)
    · exact hphase
    · exact hcontext frame hframe
  case h_5 hafter =>
    cases hafter
    exact wellFormed_endValue hcontext hphase hstep
  case h_6 => cases hstep

end Builder

/-- Whatever text is accepted, all texts in its value are well-formed. -/
theorem wellFormed_parse? {text : Bytes} {value : Json} (h : parse? text = some value) :
    value.WellFormed := by
  obtain ⟨tokens, htokens, hvalue⟩ := Option.bind_eq_some_iff.1 h
  obtain ⟨last, hlast, hfinish⟩ := Option.bind_eq_some_iff.1 hvalue
  have hstart : Builder.start.WellFormed :=
    ⟨fun frame hframe => absurd hframe List.not_mem_nil, trivial⟩
  have hbuilder : last.WellFormed :=
    foldlM_induction Builder.wellFormed_step (wellFormed_tokens? htokens) hstart hlast
  obtain ⟨context, phase⟩ := last
  unfold Builder.finish at hfinish
  split at hfinish
  next hphase =>
    cases hfinish
    cases hphase
    exact hbuilder.phase
  next => cases hfinish

end Json

end PlaceholderIcons
