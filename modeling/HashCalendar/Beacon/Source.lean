/-
**Beacon values in a directory.**

An outside process keeps the latest value of each beacon in a file named by the key of the beacon.
Keys are restricted so that no key leads out of the directory.

Main definitions:

* `HashCalendar.Directory` — files by name, and the names taken by subdirectories;
* `HashCalendar.Directory.latest` — the value stored under a key, if there is one;
* `HashCalendar.BeaconError` — why there is no answer.
-/

import HashCalendar.Wire.Basic

set_option relaxedAutoImplicit false
set_option autoImplicit false

namespace HashCalendar

/-- Why a beacon value cannot be told. -/
inductive BeaconError where
  /-- The file cannot be read. -/
  | unreadable
  /-- The file is no document of the right form. -/
  | document
  /-- The value in the file is none. -/
  | invalid (cause : Malformed)
  /-- The key is not allowed. -/
  | key (key : String)
  deriving DecidableEq, Repr

/-- The wording of an error, where it has one. -/
def BeaconError.message? : BeaconError → Option String
  | .unreadable | .document => none
  | .invalid cause => cause.message?.map ("Invalid beacon value: " ++ ·)
  | .key k => some s!"Invalid beacon key: {Text.quoted k}"

/-- The contents of a directory: files by name, and the names of subdirectories. -/
structure Directory where
  files : List (String × Bytes) := []
  folders : List String := []

namespace Directory

/-- The longest name that a file can have, in bytes. -/
def maxNameLength : Nat := 255

/-- What a name leads to: nothing, or the content of a file. -/
def read (dir : Directory) (name : String) : Except BeaconError (Option Bytes) :=
  if name.toList.any (·.toNat = 0) || maxNameLength < (Text.encode name).length then
    .error .unreadable
  else if dir.folders.contains name then .error .unreadable
  else .ok (dir.files.lookup name)

/-- Puts a file into the directory, in place of one with the same name. -/
def write (dir : Directory) (name : String) (content : Bytes) : Directory :=
  { dir with files := (name, content) :: dir.files.filter fun f => f.1 ≠ name }

/-- Whether a key may name a file: it is not empty, and holds neither a slash of either kind nor two
dots in a row. -/
def isKey (key : String) : Bool :=
  let cs := key.toList
  cs ≠ [] && !cs.contains '/' && !cs.contains '\\' &&
    !(cs.zip cs.tail).any fun p => p.1 = '.' && p.2 = '.'

/-- The beacon value stored under a key. -/
def latest (dir : Directory) (key : String) : Except BeaconError (Option BeaconValue) :=
  if !isKey key then .error (.key key)
  else match dir.read (key ++ ".json") with
    | .error e => .error e
    | .ok none => .ok none
    | .ok (some content) =>
      match Json.decode? BeaconValue.ofJson? content with
      | none => .error .document
      | some raw =>
        match BeaconValue.of raw.timestamp raw.value with
        | .error e => .error (.invalid e)
        | .ok v => .ok (some v)

end Directory

end HashCalendar
