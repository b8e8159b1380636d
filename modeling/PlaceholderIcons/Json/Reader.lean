import PlaceholderIcons.Json.Token
import PlaceholderIcons.Json.Value

/-!
JSON values from tokens. The values around the one being read stand on an
explicit stack, so depth costs no recursion; a text nested deeper than
`maxDepth` is refused like any other malformed text.
-/

namespace PlaceholderIcons

namespace Json

/-- A container around the value being read. What it holds so far stands in
reverse. -/
inductive Frame where
  | array (items : List Json)
  | object (members : List (Bytes × Json)) (name : Bytes)

/-- What the text has to go on with. -/
inductive Phase where
  /-- A value, or the end of an array that has just begun. -/
  | value (mayClose : Bool)
  /-- A member name, or the end of an object that has just begun. -/
  | name (members : List (Bytes × Json)) (mayClose : Bool)
  /-- The colon behind a name. -/
  | colon (members : List (Bytes × Json)) (name : Bytes)
  /-- What may follow a finished value. -/
  | after (value : Json)

/-- The reader between two tokens. -/
structure Builder where
  context : List Frame
  phase : Phase

/-- The deepest nesting, the outermost value counting as one. -/
def maxDepth : Nat := 10000

def Builder.start : Builder :=
  ⟨[], .value false⟩

/-- The first token of a value. -/
def Builder.beginValue (context : List Frame) (mayClose : Bool) (token : Token) :
    Option Builder :=
  match token with
  | .null => some ⟨context, .after .null⟩
  | .bool b => some ⟨context, .after (.bool b)⟩
  | .number literal => some ⟨context, .after (.number literal)⟩
  | .string s => some ⟨context, .after (.string s)⟩
  | .openArray =>
      if context.length < maxDepth then some ⟨.array [] :: context, .value true⟩ else none
  | .openObject =>
      if context.length < maxDepth then some ⟨context, .name [] true⟩ else none
  | .closeArray =>
      match context with
      | .array [] :: outer => if mayClose then some ⟨outer, .after (.array [])⟩ else none
      | _ => none
  | _ => none

/-- The token behind a finished value. -/
def Builder.endValue (context : List Frame) (value : Json) (token : Token) : Option Builder :=
  match context, token with
  | .array items :: outer, .comma => some ⟨.array (value :: items) :: outer, .value false⟩
  | .array items :: outer, .closeArray =>
      some ⟨outer, .after (.array (value :: items).reverse)⟩
  | .object members name :: outer, .comma =>
      some ⟨outer, .name ((name, value) :: members) false⟩
  | .object members name :: outer, .closeObject =>
      some ⟨outer, .after (.object ((name, value) :: members).reverse)⟩
  | _, _ => none

def Builder.step (b : Builder) (token : Token) : Option Builder :=
  match b.phase, token with
  | .value mayClose, token => beginValue b.context mayClose token
  | .name members _, .string name => some { b with phase := .colon members name }
  | .name _ true, .closeObject => some { b with phase := .after (.object []) }
  | .colon members name, .colon => some ⟨.object members name :: b.context, .value false⟩
  | .after value, token => endValue b.context value token
  | _, _ => none

/-- The value of a finished text. -/
def Builder.finish (b : Builder) : Option Json :=
  match b.context, b.phase with
  | [], .after value => some value
  | _, _ => none

def ofTokens? (tokens : List Token) : Option Json := do
  (← tokens.foldlM Builder.step Builder.start).finish

/-- The value that a text writes, if it is JSON. -/
def parse? (text : Bytes) : Option Json := do
  ofTokens? (← tokens? text)

end Json

end PlaceholderIcons
