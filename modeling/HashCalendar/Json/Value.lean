/-
**Values of JSON documents.**

Where a document is taken as it comes, all of it is looked at: numerals denote numbers, strings
denote texts, and an object holds one value under each key, the last one given.  Lists and objects
may be nested 127 deep.  Written out, the members of an object are in the order of their keys.

Main definitions:

* `HashCalendar.Json.Value` — values;
* `HashCalendar.Json.value?` — the value that a document denotes;
* `HashCalendar.Json.Value.document` — the written form of a value.
-/

import HashCalendar.Json.Tree

set_option relaxedAutoImplicit false
set_option autoImplicit false

namespace HashCalendar.Json

/-- The value of a document. -/
inductive Value where
  | null
  | bool (value : Bool)
  | number (value : Number)
  | string (text : String)
  | array (items : List Value)
  /-- Members in the order of their keys. -/
  | object (members : List (String × Value))

/-- How deep lists and objects may be nested. -/
def maxNesting : Nat := 127

/-- Puts a value under a key into members that are in the order of their keys; it takes the place of
a value already there. -/
def insertMember (key : String) (v : Value) : List (String × Value) → List (String × Value)
  | [] => [(key, v)]
  | (k, w) :: rest =>
    if key < k then (key, v) :: (k, w) :: rest
    else if key = k then (key, v) :: rest
    else (k, w) :: insertMember key v rest

/-- The value that a document denotes, where `depth` further levels may be opened. -/
def valueIn? (depth : Nat) : Json → Option Value
  | .null => some .null
  | .bool b => some (.bool b)
  | .number n => n.number?.map .number
  | .string body => (text? body).map .string
  | .array items =>
    match depth with
    | 0 => none
    | depth + 1 => (items.mapM (valueIn? depth)).map .array
  | .object members =>
    match depth with
    | 0 => none
    | depth + 1 =>
      (members.foldlM (fun (done : List (String × Value)) (m : Bytes × Json) => do
        let key ← text? m.1
        let v ← valueIn? depth m.2
        some (insertMember key v done)) []).map .object

/-- The value that a document denotes. -/
def value? (document : Json) : Option Value := valueIn? maxNesting document

mutual

/-- The written form of a value. -/
def Value.document : Value → Json
  | .null => .null
  | .bool b => .bool b
  | .number n => .number n.numeral
  | .string s => Json.ofText s
  | .array items => .array (documents items)
  | .object members => .object (memberDocuments members)

/-- The written forms of the items of a list. -/
def documents : List Value → List Json
  | [] => []
  | v :: rest => v.document :: documents rest

/-- The written forms of the members of an object. -/
def memberDocuments : List (String × Value) → List (Bytes × Json)
  | [] => []
  | (key, v) :: rest => (escape (Text.encode key), v.document) :: memberDocuments rest

end

end HashCalendar.Json
