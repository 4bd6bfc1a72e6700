/-
**How the tables of a TOML file come together.**

The members of a table may stand under its header, under dotted keys of another table, or under the
headers of its subtables, and no table may be defined in two of these ways, or twice.  While a file
is read, every table therefore remembers how it came about.

Main definitions:

* `HashCalendar.Toml.Node` — a table or value under construction;
* `HashCalendar.Toml.Node.insertPair` — one more pair of a dotted key and a value;
* `HashCalendar.Toml.Node.openTable`, `HashCalendar.Toml.Node.openElement` — what a header does;
* `HashCalendar.Toml.Node.values` — the finished values.
-/

import HashCalendar.Toml.Value

set_option relaxedAutoImplicit false
set_option autoImplicit false

namespace HashCalendar.Toml

/-- How a table came about. -/
inductive Origin where
  /-- By its own header, or as an element of a list of tables. -/
  | header
  /-- By the header of a table inside it. -/
  | subtable
  /-- By a dotted key. -/
  | dotted
  deriving DecidableEq, Repr

/-- What stands under a key while a file is read. -/
inductive Node where
  | value (v : Toml)
  | table (origin : Origin) (members : List (String × Node))
  /-- A list of tables, each with its own header. -/
  | tables (elements : List (List (String × Node)))

namespace Node

/-- Changes what stands under a key; `none` stands for its absence, and an absent key is added at
the end. -/
def alter (change : Option Node → Option Node) (key : String) :
    List (String × Node) → Option (List (String × Node))
  | [] => (change none).map fun n => [(key, n)]
  | (k, n) :: rest =>
    if k = key then (change (some n)).map fun n => (k, n) :: rest
    else (alter change key rest).map ((k, n) :: ·)

/-- Changes the table at the end of a path.  Tables missing on the way are created with the given
origin, a list of tables is entered at its last element, and a dotted key does not lead into a table
that has a header. -/
def alterAt (origin : Origin)
    (change : Origin → List (String × Node) → Option (List (String × Node))) :
    List String → Origin → List (String × Node) → Option (List (String × Node))
  | [], here, members => change here members
  | key :: path, _, members =>
    alter (fun
      | none => (alterAt origin change path origin []).map (.table origin)
      | some (.value _) => none
      | some (.tables elements) =>
        match elements.getLast? with
        | none => none
        | some last => (alterAt origin change path .header last).map fun last =>
            .tables (elements.dropLast ++ [last])
      | some (.table there inner) =>
        if origin = .dotted && there = .header then none
        else (alterAt origin change path there inner).map (.table there)) key members

/-- Puts a value under a new key. -/
def addValue (key : String) (v : Toml) : List (String × Node) → Option (List (String × Node)) :=
  alter (fun | none => some (.value v) | some _ => none) key

/-- Adds a pair of a dotted key and a value to the members of a table.  The table that the front of
the key leads to has to be one that dotted keys made. -/
def insertPair (front : List String) (last : String) (v : Toml) (members : List (String × Node)) :
    Option (List (String × Node)) :=
  alterAt .dotted
    (fun here inner =>
      if here = .dotted ↔ front = [] then none else addValue last v inner)
    front .header members

/-- Opens the table of a header, which must be new or have come about by its subtables only. -/
def openTable (front : List String) (last : String) (root : List (String × Node)) :
    Option (List (String × Node)) :=
  alterAt .subtable
    (fun _ => alter (fun
      | none => some (.table .header [])
      | some (.table .subtable inner) => some (.table .header inner)
      | some _ => none) last)
    front .header root

/-- Opens a further element of a list of tables. -/
def openElement (front : List String) (last : String) (root : List (String × Node)) :
    Option (List (String × Node)) :=
  alterAt .subtable
    (fun _ => alter (fun
      | none => some (.tables [[]])
      | some (.tables elements) => some (.tables (elements ++ [[]]))
      | some _ => none) last)
    front .header root

/-- Changes the table that the last header opened. -/
def alterOpen (path : List String)
    (change : List (String × Node) → Option (List (String × Node)))
    (root : List (String × Node)) : Option (List (String × Node)) :=
  alterAt .subtable (fun _ => change) path .header root

mutual

/-- A finished value. -/
def finish : Node → Toml
  | .value v => v
  | .table _ members => .table (values members)
  | .tables elements => .array (tableValues elements)

/-- The finished members of a table. -/
def values : List (String × Node) → List (String × Toml)
  | [] => []
  | (key, n) :: rest => (key, n.finish) :: values rest

/-- The finished elements of a list of tables. -/
def tableValues : List (List (String × Node)) → List Toml
  | [] => []
  | members :: rest => .table (values members) :: tableValues rest

end

end Node

end HashCalendar.Toml
