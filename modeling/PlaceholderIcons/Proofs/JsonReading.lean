import PlaceholderIcons.Json.Reader
import PlaceholderIcons.Proofs.JsonScanning

/-!
Reading printed JSON. The tokens of a value lead the reader from wherever a
value may stand to the point behind it, with the containers around it
untouched. With the scanner's half, a printed value reads back as the cleaned
value.
-/

namespace PlaceholderIcons

namespace Json

/-- Wherever a value may stand and `depth` more levels are allowed, the tokens
of the value are read as that value. -/
def Builds (depth : Nat) (value : Json) : Prop :=
  ∀ (context : List Frame) (mayClose : Bool), context.length + depth ≤ maxDepth →
    value.tokens.foldlM Builder.step ⟨context, .value mayClose⟩ = some ⟨context, .after value⟩

theorem foldlM_append_some {α β : Type} {f : β → α → Option β} {front back : List α} {a b : β}
    (h : front.foldlM f a = some b) : (front ++ back).foldlM f a = back.foldlM f b := by
  rw [List.foldlM_append, h]
  rfl

theorem foldlM_cons_some {α β : Type} {f : β → α → Option β} {x : α} {back : List α} {a b : β}
    (h : f a x = some b) : (x :: back).foldlM f a = back.foldlM f b := by
  rw [List.foldlM_cons, h]
  rfl

/-- The items behind the first one and the closing bracket. -/
theorem build_items {depth : Nat} {items : List Json} (h : ∀ item ∈ items, Builds depth item)
    {outer : List Frame} (hdepth : outer.length + 1 + depth ≤ maxDepth) (before : List Json)
    (value : Json) :
    (itemTokens items ++ [Token.closeArray]).foldlM Builder.step ⟨.array before :: outer, .after value⟩ =
      some ⟨outer, .after (.array ((value :: before).reverse ++ items))⟩ := by
  -- The frame grows by one item a round, so the induction is over every frame.
  induction items generalizing before value with
  | nil =>
    rw [List.append_nil]
    rfl
  | cons item items ih =>
    have hitem := h item List.mem_cons_self (.array (value :: before) :: outer) false hdepth
    have hrest := ih (fun x hx => h x (List.mem_cons_of_mem item hx)) (value :: before) item
    calc (itemTokens (item :: items) ++ [Token.closeArray]).foldlM Builder.step
          ⟨.array before :: outer, .after value⟩
        = (item.tokens ++ (itemTokens items ++ [Token.closeArray])).foldlM Builder.step
            ⟨.array (value :: before) :: outer, .value false⟩ := by
          rw [itemTokens, List.cons_append, List.cons_append, List.append_assoc]
          exact foldlM_cons_some rfl
      _ = some ⟨outer, .after (.array ((item :: value :: before).reverse ++ items))⟩ :=
          (foldlM_append_some hitem).trans hrest
      _ = _ := by simp

/-- The members behind the first one and the closing brace. -/
theorem build_members {depth : Nat} {members : List (Bytes × Json)}
    (h : ∀ member ∈ members, Builds depth member.2) {outer : List Frame}
    (hdepth : outer.length + 1 + depth ≤ maxDepth) (before : List (Bytes × Json)) (name : Bytes)
    (value : Json) :
    (memberTokens members ++ [Token.closeObject]).foldlM Builder.step
        ⟨.object before name :: outer, .after value⟩ =
      some ⟨outer, .after (.object (((name, value) :: before).reverse ++ members))⟩ := by
  induction members generalizing before name value with
  | nil =>
    rw [List.append_nil]
    rfl
  | cons member members ih =>
    obtain ⟨next, item⟩ := member
    have hitem := h (next, item) List.mem_cons_self (.object ((name, value) :: before) next :: outer)
      false hdepth
    have hrest := ih (fun x hx => h x (List.mem_cons_of_mem _ hx)) ((name, value) :: before) next item
    calc (memberTokens ((next, item) :: members) ++ [Token.closeObject]).foldlM Builder.step
          ⟨.object before name :: outer, .after value⟩
        = (item.tokens ++ (memberTokens members ++ [Token.closeObject])).foldlM Builder.step
            ⟨.object ((name, value) :: before) next :: outer, .value false⟩ := by
          simp only [memberTokens, List.cons_append, List.append_assoc]
          exact (foldlM_cons_some rfl).trans ((foldlM_cons_some rfl).trans (foldlM_cons_some rfl))
      _ = some ⟨outer, .after
            (.object (((next, item) :: (name, value) :: before).reverse ++ members))⟩ :=
          (foldlM_append_some hitem).trans hrest
      _ = _ := by simp

theorem builds_array {depth : Nat} {items : List Json} (h : ∀ item ∈ items, Builds depth item) :
    Builds (depth + 1) (.array items) := by
  intro context mayClose hdepth
  have hroom : context.length < maxDepth := by omega
  have hopen : Builder.step ⟨context, .value mayClose⟩ .openArray =
      some ⟨.array [] :: context, .value true⟩ := if_pos hroom
  cases items with
  | nil =>
    rw [tokens]
    exact foldlM_cons_some hopen
  | cons item items =>
    have hlength : (Frame.array [] :: context).length + depth ≤ maxDepth := by
      rw [List.length_cons]
      omega
    have hitem := h item List.mem_cons_self (.array [] :: context) true hlength
    have hrest := build_items (fun x hx => h x (List.mem_cons_of_mem item hx))
      (show context.length + 1 + depth ≤ maxDepth by omega) [] item
    rw [tokens, List.cons_append, List.cons_append, List.append_assoc, foldlM_cons_some hopen,
      foldlM_append_some hitem, hrest]
    rfl

theorem builds_object {depth : Nat} {members : List (Bytes × Json)}
    (h : ∀ member ∈ members, Builds depth member.2) : Builds (depth + 1) (.object members) := by
  intro context mayClose hdepth
  have hroom : context.length < maxDepth := by omega
  have hopen : Builder.step ⟨context, .value mayClose⟩ .openObject =
      some ⟨context, .name [] true⟩ := if_pos hroom
  cases members with
  | nil =>
    rw [tokens]
    exact foldlM_cons_some hopen
  | cons member members =>
    obtain ⟨name, value⟩ := member
    have hlength : (Frame.object [] name :: context).length + depth ≤ maxDepth := by
      rw [List.length_cons]
      omega
    have hvalue := h (name, value) List.mem_cons_self (.object [] name :: context) false hlength
    have hrest := build_members (fun x hx => h x (List.mem_cons_of_mem _ hx))
      (show context.length + 1 + depth ≤ maxDepth by omega) [] name value
    simp only [tokens, List.cons_append, List.append_assoc]
    rw [foldlM_cons_some hopen, foldlM_cons_some rfl, foldlM_cons_some rfl,
      foldlM_append_some hvalue, hrest]
    rfl

theorem builds_of_fits {depth : Nat} {value : Json} (h : Fits depth value) :
    Builds depth value := by
  induction h with
  | null => exact fun _ _ _ => rfl
  | bool b => exact fun _ _ _ => rfl
  | number _ => exact fun _ _ _ => rfl
  | string s => exact fun _ _ _ => rfl
  | array _ ih => exact builds_array ih
  | object _ ih => exact builds_object ih

theorem ofTokens?_tokens {value : Json} (h : Fits maxDepth value) :
    ofTokens? value.tokens = some value := by
  have hvalue := builds_of_fits h [] false (by simp)
  rw [ofTokens?, Builder.start, hvalue]
  rfl

theorem cleanedItems_eq_map (items : List Json) : cleanedItems items = items.map cleaned := by
  induction items with
  | nil => rfl
  | cons item items ih => rw [cleanedItems, ih, List.map_cons]

theorem cleanedMembers_eq_map (members : List (Bytes × Json)) :
    cleanedMembers members = members.map fun (name, value) => (Utf8.clean name, value.cleaned) := by
  induction members with
  | nil => rfl
  | cons member members ih => rw [cleanedMembers, ih, List.map_cons]

theorem Fits.cleaned {depth : Nat} {value : Json} (h : Fits depth value) :
    Fits depth value.cleaned := by
  induction h with
  | null => exact .null
  | bool b => exact .bool b
  | number h => exact .number h
  | string s => exact .string _
  | array _ ih =>
    rw [Json.cleaned, cleanedItems_eq_map]
    apply Fits.array
    intro item hitem
    obtain ⟨x, hx, rfl⟩ := List.mem_map.1 hitem
    exact ih x hx
  | object _ ih =>
    rw [Json.cleaned, cleanedMembers_eq_map]
    apply Fits.object
    intro member hmember
    obtain ⟨x, hx, rfl⟩ := List.mem_map.1 hmember
    exact ih x hx

/-- A printed value reads back as the value with its texts cleaned. -/
theorem parse?_render {value : Json} (h : Fits maxDepth value) :
    parse? value.render = some value.cleaned := by
  rw [parse?, tokens?_render h]
  exact ofTokens?_tokens h.cleaned

theorem parse?_render_line {value : Json} (h : Fits maxDepth value) :
    parse? (value.render ++ utf8 "\n") = some value.cleaned := by
  rw [parse?, tokens?_render_line h]
  exact ofTokens?_tokens h.cleaned

end Json

end PlaceholderIcons
