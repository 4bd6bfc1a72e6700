/-
**Records in JSON documents.**

A record is an object that holds its fields under their names, in any order and among other members,
or a list that holds them in their declared order.  A field may be missing; whether that is allowed
is for the field to say.  A field given twice makes the object no record, and so does a key that is
no text, even if no field is asked for under it.

Main definitions:

* `HashCalendar.Json.record?` — the fields of a record that are present, under their names;
* `HashCalendar.Json.textOf?`, `HashCalendar.Json.countOf?`, `HashCalendar.Json.boolOf?`,
  `HashCalendar.Json.listOf?`, `HashCalendar.Json.optionOf?` — what the common kinds of field hold;
* `HashCalendar.Json.variant?` — an object with a single member.
-/

import HashCalendar.Json.Tree

set_option relaxedAutoImplicit false
set_option autoImplicit false

namespace HashCalendar.Json

/-- Members with their keys as texts. -/
def namedMembers? (members : List (Bytes × Json)) : Option (List (String × Json)) :=
  members.mapM fun m => (text? m.1).map fun key => (key, m.2)

/-- Whether no name occurs twice. -/
def distinct : List String → Bool
  | [] => true
  | name :: rest => !rest.contains name && distinct rest

/-- The fields of a record that are present, under their names. -/
def record? (names : List String) : Json → Option (List (String × Json))
  | .object members => do
    let fields := (← namedMembers? members).filter fun m => names.contains m.1
    if distinct (fields.map Prod.fst) then some fields else none
  | .array items => if items.length ≤ names.length then some (names.zip items) else none
  | _ => none

/-- The text that a string denotes. -/
def textOf? : Json → Option String
  | .string body => text? body
  | _ => none

/-- The count that a numeral denotes. -/
def countOf? : Json → Option Nat
  | .number n => n.count?
  | _ => none

/-- The truth value of a word. -/
def boolOf? : Json → Option Bool
  | .bool b => some b
  | _ => none

/-- The items of a list, each read in the same way. -/
def listOf? {α : Type} (item? : Json → Option α) : Json → Option (List α)
  | .array items => items.mapM item?
  | _ => none

/-- A value that may be null. -/
def optionOf? {α : Type} (value? : Json → Option α) : Json → Option (Option α)
  | .null => some none
  | j => (value? j).map some

/-- The key and the value of an object with a single member. -/
def variant? : Json → Option (String × Json)
  | .object [(key, value)] => (text? key).map fun name => (name, value)
  | _ => none

/-- A field that has to be present. -/
def field? {α : Type} (fields : List (String × Json)) (name : String) (value? : Json → Option α) :
    Option α :=
  (fields.lookup name).bind value?

/-- A field with a value for its absence. -/
def fieldOr? {α : Type} (fields : List (String × Json)) (name : String) (absent : α)
    (value? : Json → Option α) : Option α :=
  match fields.lookup name with
  | none => some absent
  | some j => value? j

end HashCalendar.Json
