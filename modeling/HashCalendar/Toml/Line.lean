/-
**TOML files.**

A file is a list of lines, though a value may run over several of them: the header of a table, the
header of a further element of a list of tables, or a pair of a key and a value.  Blank lines and
comments do not count.  The file as a whole denotes the table that its lines build.

Main definitions:

* `HashCalendar.Toml.Line` — a line;
* `HashCalendar.Toml.value?` — a value at the head of a list of characters;
* `HashCalendar.Toml.lines?` — the lines of a file;
* `HashCalendar.Toml.read?` — the members of the table that a file denotes.
-/

import HashCalendar.Toml.Scalar
import HashCalendar.Toml.Table

set_option relaxedAutoImplicit false
set_option autoImplicit false

namespace HashCalendar.Toml

/-- A line of a file; keys and headers are split at their dots, with the last part apart. -/
inductive Line where
  | table (front : List String) (last : String)
  /-- A further element of a list of tables. -/
  | element (front : List String) (last : String)
  | pair (front : List String) (last : String) (value : Toml)

/-! ### Blanks, comments and line breaks -/

/-- A text from its first character that is no blank on. -/
def skipBlanks (cs : List Char) : List Char := cs.dropWhile fun c => c = ' ' || c = '\t'

/-- What follows the rest of a line, which may hold blanks and a comment. -/
def endLine? (cs : List Char) : Option (List Char) :=
  let cs := match skipBlanks cs with
    | '#' :: rest => rest.dropWhile Quoted.isPlain
    | cs => cs
  match cs with
  | [] => some []
  | '\n' :: rest => some rest
  | '\r' :: '\n' :: rest => some rest
  | _ => none

/-- A text from its first character on that is neither blank nor line break nor in a comment. -/
def skipLines : (comment : Bool) → List Char → List Char
  | _, '\n' :: rest => skipLines false rest
  | _, '\r' :: '\n' :: rest => skipLines false rest
  | true, c :: rest => if Quoted.isPlain c then skipLines true rest else c :: rest
  | false, '#' :: rest => skipLines true rest
  | false, ' ' :: rest => skipLines false rest
  | false, '\t' :: rest => skipLines false rest
  | _, cs => cs

/-! ### Keys -/

/-- Whether a character may stand in a key without quotes. -/
def isKeyChar (c : Char) : Bool := c.isAlphanum || c = '_' || c = '-'

/-- One part of a key, and what follows. -/
def keyPart? (cs : List Char) : Option (String × List Char) :=
  match Quoted.readLine? cs with
  | some (part, rest) => some (String.ofList part, rest)
  | none =>
    match cs.takeWhile isKeyChar with
    | [] => none
    | part => some (String.ofList part, cs.dropWhile isKeyChar)

/-- A key of at most `parts` parts, with the last part apart, and what follows the blanks after
it. -/
def key? : (parts : Nat) → List Char → Option ((List String × String) × List Char)
  | 0, _ => none
  | parts + 1, cs => do
    let (part, rest) ← keyPart? (skipBlanks cs)
    match skipBlanks rest with
    | '.' :: rest => do
      let ((front, last), rest) ← key? parts rest
      some ((part :: front, last), rest)
    | rest => some (([], part), rest)

/-! ### Values -/

/-- The value of pairs that stand between braces. -/
def inline? (pairs : List ((List String × String) × Toml)) : Option Toml :=
  (pairs.foldlM (fun (members : List (String × Node)) p =>
    Node.insertPair p.1.1 p.1.2 p.2 members) []).map fun members => .table (Node.values members)

mutual

/-- A value, and what follows; `depth` further levels may be opened.  Every part that is read takes
up some of `fuel`. -/
def valueWithin? : (fuel depth : Nat) → List Char → Option (Toml × List Char)
  | 0, _, _ => none
  | fuel + 1, depth, cs =>
    match depth, cs with
    | 0, '[' :: _ => none
    | 0, '\x7b' :: _ => none
    | depth + 1, '[' :: rest =>
      (itemsWithin? fuel depth (skipLines false rest)).map fun r => (.array r.1, r.2)
    | depth + 1, '\x7b' :: rest =>
      match skipBlanks rest with
      | '\x7d' :: rest => some (.table [], rest)
      | rest =>
        (pairsWithin? fuel depth rest).bind fun r => (inline? r.1).map fun v => (v, r.2)
    | _, '"' :: rest => (Quoted.read? ('"' :: rest)).map fun r => (.text (String.ofList r.1), r.2)
    | _, '\'' :: rest => (Quoted.read? ('\'' :: rest)).map fun r => (.text (String.ofList r.1), r.2)
    | _, cs => scalar? cs

/-- The items of a list up to the closing bracket, and what follows. -/
def itemsWithin? : (fuel depth : Nat) → List Char → Option (List Toml × List Char)
  | 0, _, _ => none
  | fuel + 1, depth, cs =>
    match cs with
    | ']' :: rest => some ([], rest)
    | cs => do
      let (v, rest) ← valueWithin? fuel depth cs
      match skipLines false rest with
      | ',' :: rest => (itemsWithin? fuel depth (skipLines false rest)).map fun r => (v :: r.1, r.2)
      | ']' :: rest => some ([v], rest)
      | _ => none

/-- Pairs up to the closing brace, and what follows. -/
def pairsWithin? :
    (fuel depth : Nat) → List Char → Option (List ((List String × String) × Toml) × List Char)
  | 0, _, _ => none
  | fuel + 1, depth, cs => do
    let (key, rest) ← key? maxNesting cs
    match rest with
    | '=' :: rest => do
      let (v, rest) ← valueWithin? fuel depth (skipBlanks rest)
      match skipBlanks rest with
      | ',' :: rest => (pairsWithin? fuel depth rest).map fun r => ((key, v) :: r.1, r.2)
      | '\x7d' :: rest => some ([(key, v)], rest)
      | _ => none
    | _ => none

end

/-- A value at the head of a text, and what follows. -/
def value? (cs : List Char) : Option (Toml × List Char) :=
  valueWithin? (2 * cs.length + 1) maxNesting cs

/-! ### Lines -/

/-- The line at the head of a text, which is not empty, and what follows.  Blank lines and comments
are no lines. -/
def line? (cs : List Char) : Option (Option Line × List Char) :=
  match skipBlanks cs with
  | '[' :: '[' :: rest => do
    let ((front, last), rest) ← key? maxNesting rest
    match rest with
    | ']' :: ']' :: rest => (endLine? rest).map fun rest => (some (.element front last), rest)
    | _ => none
  | '[' :: rest => do
    let ((front, last), rest) ← key? maxNesting rest
    match rest with
    | ']' :: rest => (endLine? rest).map fun rest => (some (.table front last), rest)
    | _ => none
  | cs =>
    match endLine? cs with
    | some rest => some (none, rest)
    | none => do
      let ((front, last), rest) ← key? maxNesting cs
      match rest with
      | '=' :: rest => do
        let (v, rest) ← value? (skipBlanks rest)
        (endLine? rest).map fun rest => (some (.pair front last v), rest)
      | _ => none

/-- The lines of a text; every line takes up some of `fuel`. -/
def linesWithin? : (fuel : Nat) → List Char → Option (List Line)
  | _, [] => some []
  | 0, _ => none
  | fuel + 1, cs => do
    let (line, rest) ← line? cs
    (linesWithin? fuel rest).map fun lines => line.toList ++ lines

/-- The lines of a file, which may begin with a byte order mark. -/
def lines? (cs : List Char) : Option (List Line) :=
  match cs with
  | '\ufeff' :: rest => linesWithin? rest.length rest
  | cs => linesWithin? cs.length cs

/-! ### The table that lines build -/

/-- What has been built of a file: its root, and the path of the table that the last header
opened. -/
structure Draft where
  root : List (String × Node) := []
  path : List String := []

/-- One more line. -/
def Draft.add (d : Draft) : Line → Option Draft
  | .table front last => (Node.openTable front last d.root).map fun root => ⟨root, front ++ [last]⟩
  | .element front last =>
    (Node.openElement front last d.root).map fun root => ⟨root, front ++ [last]⟩
  | .pair front last v =>
    (Node.alterOpen d.path (Node.insertPair front last v) d.root).map fun root => { d with root }

/-- The members of the table that lines build. -/
def build? (lines : List Line) : Option (List (String × Toml)) :=
  (lines.foldlM Draft.add {}).map fun d => Node.values d.root

/-- The members of the table that a file denotes. -/
def read? (cs : List Char) : Option (List (String × Toml)) := (lines? cs).bind build?

end HashCalendar.Toml
