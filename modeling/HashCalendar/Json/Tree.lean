/-
**JSON documents.**

A document is a tree of lists and of members under keys.  Numerals and strings stay as they are
written: a tree says how a document is built, and what its parts denote is asked part by part.
Nesting has no limit here.

The reader is a machine with a stack of unfinished lists and objects that takes one token at a time;
the writer puts no blanks between tokens.

Main definitions:

* `HashCalendar.Json` — documents;
* `HashCalendar.Json.tokens`, `HashCalendar.Json.render` — a document as tokens and as bytes;
* `HashCalendar.Json.Parse.step` — one token;
* `HashCalendar.Json.read?` — the document that bytes denote.
-/

import HashCalendar.Json.Token

set_option relaxedAutoImplicit false
set_option autoImplicit false

namespace HashCalendar

/-- A document. -/
inductive Json where
  | null
  | bool (value : Bool)
  | number (numeral : Json.Numeral)
  /-- A string, as it stands between its quotes. -/
  | string (body : Bytes)
  | array (items : List Json)
  /-- Members under keys; keys are as they stand between their quotes. -/
  | object (members : List (Bytes × Json))

namespace Json

instance : Inhabited Json := ⟨.null⟩

/-- The string that denotes a text. -/
def ofText (s : String) : Json := .string (escape (Text.encode s))

/-- The numeral of a natural number. -/
def ofNat (n : Nat) : Json := .number (.ofNat n)

/-- The object with members under the given keys. -/
def ofMembers (members : List (String × Json)) : Json :=
  .object (members.map fun m => (escape (Text.encode m.1), m.2))

/-! ### Writing -/

mutual

/-- The tokens of a document. -/
def tokens : Json → List Token
  | .null => [.null]
  | .bool b => [.bool b]
  | .number n => [.number n]
  | .string body => [.string body]
  | .array items => .openBracket :: (itemTokens items ++ [.closeBracket])
  | .object members => .openBrace :: (memberTokens members ++ [.closeBrace])

/-- The tokens of the items of a list, with commas between them. -/
def itemTokens : List Json → List Token
  | [] => []
  | [item] => tokens item
  | item :: next :: rest => tokens item ++ .comma :: itemTokens (next :: rest)

/-- The tokens of the members of an object, with commas between them. -/
def memberTokens : List (Bytes × Json) → List Token
  | [] => []
  | [(key, value)] => .string key :: .colon :: tokens value
  | (key, value) :: next :: rest =>
    .string key :: .colon :: (tokens value ++ .comma :: memberTokens (next :: rest))

end

/-- A document as bytes, without blanks. -/
def render (document : Json) : Bytes := document.tokens.flatMap Token.bytes

/-- A document as text. -/
def renderText (document : Json) : String := (Text.decode? document.render).getD ""

/-! ### Reading -/

namespace Parse

/-- A list or an object whose end has not been reached, with what has been read of it, the last
part first. -/
inductive Frame where
  | items (read : List Json)
  /-- An object in which the value under `key` is being read. -/
  | member (read : List (Bytes × Json)) (key : Bytes)

/-- What may come next. -/
inductive State where
  /-- A value. -/
  | value (frames : List Frame)
  /-- The first item of a list, or its end. -/
  | firstItem (frames : List Frame)
  /-- The first key of an object, or its end. -/
  | firstKey (frames : List Frame)
  /-- A further key. -/
  | key (read : List (Bytes × Json)) (frames : List Frame)
  /-- The colon after a key. -/
  | colon (read : List (Bytes × Json)) (key : Bytes) (frames : List Frame)
  /-- What follows a complete value. -/
  | after (value : Json) (frames : List Frame)

/-- A token where a value is expected. -/
def startValue (frames : List Frame) : Token → Option State
  | .null => some (.after .null frames)
  | .bool b => some (.after (.bool b) frames)
  | .number n => some (.after (.number n) frames)
  | .string body => some (.after (.string body) frames)
  | .openBracket => some (.firstItem frames)
  | .openBrace => some (.firstKey frames)
  | _ => none

/-- One token. -/
def step : State → Token → Option State
  | .value frames, t => startValue frames t
  | .firstItem frames, .closeBracket => some (.after (.array []) frames)
  | .firstItem frames, t => startValue (.items [] :: frames) t
  | .firstKey frames, .closeBrace => some (.after (.object []) frames)
  | .firstKey frames, .string key => some (.colon [] key frames)
  | .key read frames, .string key => some (.colon read key frames)
  | .colon read key frames, .colon => some (.value (.member read key :: frames))
  | .after v (.items read :: frames), .comma => some (.value (.items (v :: read) :: frames))
  | .after v (.items read :: frames), .closeBracket =>
    some (.after (.array (v :: read).reverse) frames)
  | .after v (.member read key :: frames), .comma => some (.key ((key, v) :: read) frames)
  | .after v (.member read key :: frames), .closeBrace =>
    some (.after (.object ((key, v) :: read).reverse) frames)
  | _, _ => none

/-- The document at the end of the tokens. -/
def finish : State → Option Json
  | .after v [] => some v
  | _ => none

end Parse

/-- The document that tokens denote. -/
def ofTokens? (ts : List Token) : Option Json :=
  (ts.foldlM Parse.step (.value [])).bind Parse.finish

/-- The document that bytes denote. -/
def read? (bs : Bytes) : Option Json := (scan? bs).bind ofTokens?

end Json

end HashCalendar
