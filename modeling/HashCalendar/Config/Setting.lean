/-
**Settings.**

A configuration is read from documents of two formats.  What matters of either is a tree of
settings: truth values, whole numbers, texts, lists and records.  A part of the configuration is a
record of its fields or a list of them in their declared order; fields may be missing.  The formats
differ in how a choice without further data is marked, and in whether a list may be longer than the
fields that it gives.

Main definitions:

* `HashCalendar.Setting` — trees of settings;
* `HashCalendar.Setting.ofValue`, `HashCalendar.Setting.ofToml` — the settings in a document;
* `HashCalendar.Setting.Format`, `HashCalendar.Setting.json`, `HashCalendar.Setting.toml` — how the
  formats differ;
* `HashCalendar.Setting.record?`, `HashCalendar.Setting.fieldOr?` — the fields of a part.
-/

import HashCalendar.Json.Value
import HashCalendar.Toml.Value
import HashCalendar.Hash.Function

set_option relaxedAutoImplicit false
set_option autoImplicit false

namespace HashCalendar

/-- A tree of settings. -/
inductive Setting where
  /-- The mark of absence. -/
  | nothing
  | flag (value : Bool)
  | whole (value : Int)
  | text (value : String)
  | list (items : List Setting)
  | record (members : List (String × Setting))
  /-- A point in time, which no field holds; as a record it has no fields. -/
  | time
  /-- A number that is not whole. -/
  | other

namespace Setting

instance : Inhabited Setting := ⟨.nothing⟩

mutual

/-- The settings in the value of a JSON document. -/
def ofValue : Json.Value → Setting
  | .null => .nothing
  | .bool b => .flag b
  | .number (.natural n) => .whole n
  | .number (.negative n) => .whole (-(n : Int))
  | .number (.float _) => .other
  | .string s => .text s
  | .array items => .list (ofValues items)
  | .object members => .record (ofMembers members)

/-- The settings in the items of a list. -/
def ofValues : List Json.Value → List Setting
  | [] => []
  | v :: rest => ofValue v :: ofValues rest

/-- The settings in the members of an object. -/
def ofMembers : List (String × Json.Value) → List (String × Setting)
  | [] => []
  | (key, v) :: rest => (key, ofValue v) :: ofMembers rest

end

mutual

/-- The settings in a value of a TOML file. -/
def ofToml : Toml → Setting
  | .text s => .text s
  | .integer n => .whole n
  | .boolean b => .flag b
  | .float _ => .other
  | .time _ => .time
  | .array items => .list (ofTomls items)
  | .table members => .record (ofTomlMembers members)

/-- The settings in the items of a list. -/
def ofTomls : List Toml → List Setting
  | [] => []
  | v :: rest => ofToml v :: ofTomls rest

/-- The settings in the members of a table. -/
def ofTomlMembers : List (String × Toml) → List (String × Setting)
  | [] => []
  | (key, v) :: rest => (key, ofToml v) :: ofTomlMembers rest

end

/-! ### The two formats -/

/-- How a format writes parts and choices. -/
structure Format where
  /-- Whether a list may have more items than there are fields; the further ones do not count. -/
  takesSpareItems : Bool
  /-- What stands under the name of a choice that has no data. -/
  isNoData : Setting → Bool

/-- The habits of JSON documents. -/
def json : Format where
  takesSpareItems := false
  isNoData
    | .nothing => true
    | _ => false

/-- The habits of TOML files. -/
def toml : Format where
  takesSpareItems := true
  isNoData
    | .list [] => true
    | .record [] => true
    | _ => false

/-! ### What fields hold -/

/-- The fields of a part that are present, under their names. -/
def record? (format : Format) (names : List String) : Setting → Option (List (String × Setting))
  | .record members => some members
  | .list items =>
    if items.length ≤ names.length || format.takesSpareItems then some (names.zip items) else none
  | .time => some []
  | _ => none

/-- A field, or the value for its absence. -/
def fieldOr? {α : Type} (fields : List (String × Setting)) (name : String) (absent : α)
    (value? : Setting → Option α) : Option α :=
  match fields.lookup name with
  | none => some absent
  | some s => value? s

/-- A text. -/
def text? : Setting → Option String
  | .text s => some s
  | _ => none

/-- A truth value. -/
def flag? : Setting → Option Bool
  | .flag b => some b
  | _ => none

/-- A whole number below a bound. -/
def below? (bound : Nat) : Setting → Option Nat
  | .whole n => if 0 ≤ n ∧ n < bound then some n.toNat else none
  | _ => none

/-- A word of 16 bits. -/
def word16? (s : Setting) : Option UInt16 := (s.below? UInt16.size).map UInt16.ofNat

/-- A word of 64 bits. -/
def word64? (s : Setting) : Option UInt64 := (s.below? UInt64.size).map UInt64.ofNat

/-- A text that may be absent. -/
def optionalText? : Setting → Option (Option String)
  | .nothing => some none
  | s => s.text?.map some

/-- A hash function: its tag, or a record with its tag alone. -/
def hashFunction? (format : Format) : Setting → Option HashFunction
  | .text tag => (HashFunction.ofTag tag).toOption
  | .record [(tag, s)] => if format.isNoData s then (HashFunction.ofTag tag).toOption else none
  | _ => none

end Setting

end HashCalendar
