/-
**Quoted texts and characters.**

Error messages name the text or the character at fault between quotes.  Inside them the quote and
the backslash are escaped by a backslash, tab, carriage return, newline and the zero character have
a letter of their own, and every other character that does not show is written by its number in
lower-case hexadecimal digits.

Main definitions:

* `HashCalendar.Text.escapeFor` — how one character is written inside a given kind of quote;
* `HashCalendar.Text.quoted` — a text between double quotes;
* `HashCalendar.Text.quotedChar` — a character between single quotes.
-/

import HashCalendar.Text.Invisible

set_option relaxedAutoImplicit false
set_option autoImplicit false

namespace HashCalendar.Text

/-- A character between quotes of the kind `mark`. -/
def escapeFor (mark c : Char) : List Char :=
  if c = mark || c = '\\' then ['\\', c]
  else if c = '\t' then ['\\', 't']
  else if c = '\r' then ['\\', 'r']
  else if c = '\n' then ['\\', 'n']
  else if c.toNat = 0 then ['\\', '0']
  else if isInvisible c then
    ['\\', 'u', '\x7b'] ++ Nat.toDigits 16 c.toNat ++ ['\x7d']
  else [c]

/-- A text between double quotes. -/
def quoted (s : String) : String :=
  String.ofList ('"' :: s.toList.flatMap (escapeFor '"') ++ ['"'])

/-- A character between single quotes. -/
def quotedChar (c : Char) : String :=
  String.ofList ('\'' :: escapeFor '\'' c ++ ['\''])

end HashCalendar.Text
