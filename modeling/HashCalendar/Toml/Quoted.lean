/-
**Quoted texts in TOML files.**

A text stands between double quotes, inside of which a backslash starts an escape, or between single
quotes, inside of which every character stands for itself.  Between three quotes of either kind a
text may run over several lines; a line break right after the opening quotes does not count, and one
or two quotes may stand inside.

A text is written in the first form in which it needs no escape, tabs aside: between double quotes,
between single quotes, between three double quotes, between three single quotes.  If there is none,
it stands between double quotes, three of them when there is a line break in it.

Main definitions:

* `HashCalendar.Toml.Quoted.read?` — a quoted text at the head of a list of characters;
* `HashCalendar.Toml.Quoted.readLine?` — one that may not run over several lines;
* `HashCalendar.Toml.Quoted.formOf` — the form that a text is written in;
* `HashCalendar.Toml.Quoted.write` — the written form of a text.
-/

import HashCalendar.Text.Hex

set_option relaxedAutoImplicit false
set_option autoImplicit false

namespace HashCalendar.Toml.Quoted

/-! ### Characters -/

/-- Whether a character may stand for itself in a line: a tab, or any that is no control
character. -/
def isPlain (c : Char) : Bool := c = '\t' || (32 ≤ c.toNat && c.toNat ≠ 127)

/-- The value of a hexadecimal digit. -/
def hexValue? (c : Char) : Option Nat :=
  if c.toNat < 128 then Hex.digitValue? (UInt8.ofNat c.toNat) else none

/-- The character with the given number in hexadecimal digits. -/
def numbered? (ds : List Char) : Option Char := do
  let vs ← ds.mapM hexValue?
  let n := vs.foldl (fun n v => 16 * n + v) 0
  if h : n.isValidChar then some (Char.ofNatAux n h) else none

/-- The character that a single letter after a backslash stands for. -/
def lettered? (c : Char) : Option Char :=
  if c = 'b' then some '\x08'
  else if c = 't' then some '\t'
  else if c = 'n' then some '\n'
  else if c = 'f' then some '\x0c'
  else if c = 'r' then some '\r'
  else if c = '"' then some '"'
  else if c = '\\' then some '\\'
  else none

/-- One more character ahead of what has been read. -/
def before (c : Char) (rest : Option (List Char × List Char)) : Option (List Char × List Char) :=
  rest.map fun r => (c :: r.1, r.2)

/-! ### Reading -/

/-- A text up to its closing double quote, and what follows. -/
def basic? : List Char → Option (List Char × List Char)
  | '"' :: rest => some ([], rest)
  | '\\' :: 'u' :: a :: b :: c :: d :: rest =>
    (numbered? [a, b, c, d]).bind fun x => before x (basic? rest)
  | '\\' :: 'U' :: a :: b :: c :: d :: e :: f :: g :: h :: rest =>
    (numbered? [a, b, c, d, e, f, g, h]).bind fun x => before x (basic? rest)
  | '\\' :: c :: rest => (lettered? c).bind fun x => before x (basic? rest)
  | c :: rest => if isPlain c && c ≠ '\\' then before c (basic? rest) else none
  | [] => none

/-- A text up to its closing single quote, and what follows. -/
def literal? : List Char → Option (List Char × List Char)
  | '\'' :: rest => some ([], rest)
  | c :: rest => if isPlain c then before c (literal? rest) else none
  | [] => none

/-- The end of a text between three quotes, after these: up to two more quotes belong to the
text. -/
def closing (mark : Char) : List Char → List Char × List Char
  | a :: b :: rest =>
    if a = mark then if b = mark then ([mark, mark], rest) else ([mark], b :: rest)
    else ([], a :: b :: rest)
  | [a] => if a = mark then ([mark], []) else ([], [a])
  | [] => ([], [])

/-- Whether nothing but blanks stands before the next line break. -/
def endsLine : List Char → Bool
  | '\n' :: _ => true
  | '\r' :: '\n' :: _ => true
  | ' ' :: rest => endsLine rest
  | '\t' :: rest => endsLine rest
  | _ => false

/-- A text up to three closing double quotes, and what follows.  A backslash at the end of a line
folds: blanks and line breaks are passed over up to the next other character. -/
def basicLines? : (folding : Bool) → List Char → Option (List Char × List Char)
  | true, ' ' :: rest => basicLines? true rest
  | true, '\t' :: rest => basicLines? true rest
  | true, '\n' :: rest => basicLines? true rest
  | true, '\r' :: '\n' :: rest => basicLines? true rest
  | _, '"' :: '"' :: '"' :: rest => some (closing '"' rest)
  | _, '\n' :: rest => before '\n' (basicLines? false rest)
  | _, '\r' :: '\n' :: rest => before '\n' (basicLines? false rest)
  | _, '\\' :: 'u' :: a :: b :: c :: d :: rest =>
    (numbered? [a, b, c, d]).bind fun x => before x (basicLines? false rest)
  | _, '\\' :: 'U' :: a :: b :: c :: d :: e :: f :: g :: h :: rest =>
    (numbered? [a, b, c, d, e, f, g, h]).bind fun x => before x (basicLines? false rest)
  | _, '\\' :: c :: rest =>
    if endsLine (c :: rest) then basicLines? true (c :: rest)
    else (lettered? c).bind fun x => before x (basicLines? false rest)
  | _, c :: rest => if isPlain c && c ≠ '\\' then before c (basicLines? false rest) else none
  | _, [] => none

/-- A text up to three closing single quotes, and what follows. -/
def literalLines? : List Char → Option (List Char × List Char)
  | '\'' :: '\'' :: '\'' :: rest => some (closing '\'' rest)
  | '\n' :: rest => before '\n' (literalLines? rest)
  | '\r' :: '\n' :: rest => before '\n' (literalLines? rest)
  | c :: rest => if isPlain c then before c (literalLines? rest) else none
  | [] => none

/-- A text without the line break at its head. -/
def dropBreak : List Char → List Char
  | '\n' :: rest => rest
  | '\r' :: '\n' :: rest => rest
  | cs => cs

/-- A quoted text within a line, and what follows. -/
def readLine? : List Char → Option (List Char × List Char)
  | '"' :: rest => basic? rest
  | '\'' :: rest => literal? rest
  | _ => none

/-- A quoted text, and what follows. -/
def read? : List Char → Option (List Char × List Char)
  | '"' :: '"' :: '"' :: rest => basicLines? false (dropBreak rest)
  | '\'' :: '\'' :: '\'' :: rest => literalLines? (dropBreak rest)
  | cs => readLine? cs

/-! ### Writing -/

/-- The four ways of quoting a text. -/
inductive Form where
  /-- Between double quotes. -/
  | basic
  /-- Between single quotes. -/
  | literal
  /-- Between three double quotes. -/
  | basicLines
  /-- Between three single quotes. -/
  | literalLines
  deriving DecidableEq, Repr

/-- The length of the longest run of a character, where `run` of them stand right before. -/
def longestRun (mark : Char) (run : Nat) : List Char → Nat
  | [] => run
  | c :: rest =>
    if c = mark then longestRun mark (run + 1) rest else max run (longestRun mark 0 rest)

/-- Whether a character has to be written by an escape wherever it stands. -/
def isControl (c : Char) : Bool := !isPlain c && c ≠ '\n'

/-- How a text is written: in the first form in which it needs no escape, and between double quotes
if there is none.  Tabs do not count, though they are escaped between double quotes. -/
def formOf (cs : List Char) : Form :=
  let lines := cs.contains '\n'
  let clear := !cs.any isControl
  let unescaped := clear && !cs.contains '\\'
  if unescaped && !lines && longestRun '"' 0 cs = 0 then .basic
  else if clear && !lines && longestRun '\'' 0 cs = 0 then .literal
  else if unescaped && longestRun '"' 0 cs ≤ 2 then .basicLines
  else if clear && longestRun '\'' 0 cs ≤ 2 then .literalLines
  else if lines then .basicLines
  else .basic

/-- A character other than a double quote between double quotes; `lines` tells whether there are
three of them. -/
def escape (lines : Bool) (c : Char) : List Char :=
  if c = '\x08' then ['\\', 'b']
  else if c = '\t' then ['\\', 't']
  else if c = '\n' then if lines then ['\n'] else ['\\', 'n']
  else if c = '\x0c' then ['\\', 'f']
  else if c = '\r' then ['\\', 'r']
  else if c = '\\' then ['\\', '\\']
  else if c.toNat < 32 || c.toNat = 127 then
    ['\\', 'u', '0', '0', Hex.digit (c.toNat / 16), (Hex.digit (c.toNat % 16)).toUpper]
  else [c]

/-- A text between double quotes.  Between three of them two more may stand side by side; `room` is
the number of those that may follow now. -/
def escapeAll (lines : Bool) : (room : Nat) → List Char → List Char
  | _, [] => []
  | room, '"' :: rest =>
    match room with
    | 0 => '\\' :: '"' :: escapeAll lines (if lines then 2 else 0) rest
    | room + 1 => '"' :: escapeAll lines room rest
  | _, c :: rest => escape lines c ++ escapeAll lines (if lines then 2 else 0) rest

/-- A text between three quotes; if it has a line break, one more comes before it. -/
def writeLines (mark : Char) (cs written : List Char) : List Char :=
  let opening := [mark, mark, mark] ++ if cs.contains '\n' then ['\n'] else []
  opening ++ written ++ [mark, mark, mark]

/-- The written form of a text. -/
def write (cs : List Char) : List Char :=
  match formOf cs with
  | .basic => '"' :: escapeAll false 0 cs ++ ['"']
  | .literal => '\'' :: cs ++ ['\'']
  | .basicLines => writeLines '"' cs (escapeAll true 2 cs)
  | .literalLines => writeLines '\'' cs cs

end HashCalendar.Toml.Quoted
