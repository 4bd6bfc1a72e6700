/-
**Tokens of JSON documents.**

A document is read byte by byte.  Outside of a token blanks are passed over; inside a string every
escape is checked for its form, but what the string denotes is not looked at, so that a part of a
document that nobody asks for is only passed over.

Main definitions:

* `HashCalendar.Json.Token` — brackets, marks, words, numerals and strings;
* `HashCalendar.Json.Token.bytes` — a token as it is written;
* `HashCalendar.Json.Scan.step` — one byte;
* `HashCalendar.Json.scan?` — the tokens of a document.
-/

import HashCalendar.Json.Numeral
import HashCalendar.Json.Text

set_option relaxedAutoImplicit false
set_option autoImplicit false

namespace HashCalendar.Json

/-- A token of a document. -/
inductive Token where
  | openBrace
  | closeBrace
  | openBracket
  | closeBracket
  | comma
  | colon
  | null
  | bool (value : Bool)
  | number (numeral : Numeral)
  /-- A string, as it stands between its quotes. -/
  | string (body : Bytes)
  deriving DecidableEq, Repr

/-- A token as it is written. -/
def Token.bytes : Token → Bytes
  | .openBrace => [0x7b]
  | .closeBrace => [0x7d]
  | .openBracket => [0x5b]
  | .closeBracket => [0x5d]
  | .comma => [0x2c]
  | .colon => [0x3a]
  | .null => [0x6e, 0x75, 0x6c, 0x6c]
  | .bool true => [0x74, 0x72, 0x75, 0x65]
  | .bool false => [0x66, 0x61, 0x6c, 0x73, 0x65]
  | .number n => n.bytes
  | .string body => 0x22 :: body ++ [0x22]

namespace Scan

/-- Where in a string the scan stands. -/
inductive Escape where
  /-- Between characters. -/
  | none
  /-- After a backslash. -/
  | letter
  /-- Before this many digits of a number. -/
  | digits (left : Nat)
  deriving DecidableEq, Repr

/-- What the scan is inside of. -/
inductive Mode where
  | between
  /-- A word of which these bytes are still to come. -/
  | word (left : Bytes) (token : Token)
  /-- A numeral of which these bytes have been read, the last one first. -/
  | number (read : Bytes)
  /-- A string of which these bytes have been read, the last one first. -/
  | string (read : Bytes) (escape : Escape)
  deriving DecidableEq, Repr

/-- The state of a scan: its mode, and the tokens found, the last one first. -/
structure State where
  mode : Mode
  found : List Token
  deriving DecidableEq, Repr

/-- Bytes that may stand between tokens. -/
def isBlank (b : UInt8) : Bool := b = 0x20 || b = 0x09 || b = 0x0a || b = 0x0d

/-- Bytes that a numeral may hold. -/
def isNumeric (b : UInt8) : Bool :=
  (Decimal.ofByte? b).isSome || b = 0x2b || b = 0x2d || b = 0x2e || b = 0x65 || b = 0x45

/-- The token that a single byte makes up. -/
def single? (b : UInt8) : Option Token :=
  if b = 0x7b then some .openBrace
  else if b = 0x7d then some .closeBrace
  else if b = 0x5b then some .openBracket
  else if b = 0x5d then some .closeBracket
  else if b = 0x2c then some .comma
  else if b = 0x3a then some .colon
  else none

/-- A byte outside of a token. -/
def start (found : List Token) (b : UInt8) : Option State :=
  if isBlank b then some ⟨.between, found⟩
  else match single? b with
    | some token => some ⟨.between, token :: found⟩
    | none =>
      if b = 0x22 then some ⟨.string [] .none, found⟩
      else if b = 0x6e then some ⟨.word [0x75, 0x6c, 0x6c] .null, found⟩
      else if b = 0x74 then some ⟨.word [0x72, 0x75, 0x65] (.bool true), found⟩
      else if b = 0x66 then some ⟨.word [0x61, 0x6c, 0x73, 0x65] (.bool false), found⟩
      else if isNumeric b then some ⟨.number [b], found⟩
      else none

/-- A byte inside a string. -/
def inString (read : Bytes) (escape : Escape) (found : List Token) (b : UInt8) : Option State :=
  match escape with
  | .none =>
    if b = 0x22 then some ⟨.between, .string read.reverse :: found⟩
    else if b = 0x5c then some ⟨.string (b :: read) .letter, found⟩
    else if b < 0x20 then none
    else some ⟨.string (b :: read) .none, found⟩
  | .letter =>
    if b = 0x75 then some ⟨.string (b :: read) (.digits 4), found⟩
    else if (escaped? b).isSome then some ⟨.string (b :: read) .none, found⟩
    else none
  | .digits left =>
    if Hex.isDigit b then
      some ⟨.string (b :: read) (if left ≤ 1 then .none else .digits (left - 1)), found⟩
    else none

/-- One byte. -/
def step (s : State) (b : UInt8) : Option State :=
  match s.mode with
  | .between => start s.found b
  | .word [] token => start (token :: s.found) b
  | .word (c :: left) token =>
    if b = c then
      some (if left = [] then ⟨.between, token :: s.found⟩ else ⟨.word left token, s.found⟩)
    else none
  | .number read =>
    if isNumeric b then some ⟨.number (b :: read), s.found⟩
    else (Numeral.ofBytes? read.reverse).bind fun n => start (.number n :: s.found) b
  | .string read escape => inString read escape s.found b

/-- The tokens at the end of the document, the last one first. -/
def finish (s : State) : Option (List Token) :=
  match s.mode with
  | .between => some s.found
  | .number read => (Numeral.ofBytes? read.reverse).map fun n => .number n :: s.found
  | _ => none

end Scan

/-- The tokens of a document. -/
def scan? (document : Bytes) : Option (List Token) :=
  ((document.foldlM Scan.step ⟨.between, []⟩).bind Scan.finish).map List.reverse

end HashCalendar.Json
