import Lexis.Text.Unprintable

/-!
# Quoted text

A message shows a text or a character between quotes, so that every character of it can be told:
the usual short escapes, the enclosing quote escaped, and unprintable characters by their code
point in hexadecimal.

* `quoted`: a text between quotes.
* `spelled`: a character by its printable ASCII form.
-/

namespace Lexis.Text

/-- The quotes around a text are double, those around a character are single. -/
inductive Quote where
  | single
  | double
deriving DecidableEq, Repr

/-- The character that opens and closes a quotation. -/
def Quote.mark : Quote → Char
  | single => '\''
  | double => '"'

/-- A character by its code point: lower case hexadecimal without leading zeros, in braces. -/
def codePoint (c : Char) : List Char :=
  ['\\', 'u', '\x7b'] ++ Nat.toDigits 16 c.toNat ++ ['\x7d']

/-- How a character is written between quotes. -/
def escape (quote : Quote) (c : Char) : List Char :=
  if c = '\x00' then ['\\', '0']
  else if c = '\t' then ['\\', 't']
  else if c = '\r' then ['\\', 'r']
  else if c = '\n' then ['\\', 'n']
  else if c = '\\' ∨ c = quote.mark then ['\\', c]
  else if isUnprintable c then codePoint c
  else [c]

/-- A text between quotes. -/
def quoted (quote : Quote) (text : List Char) : List Char :=
  quote.mark :: text.flatMap (escape quote) ++ [quote.mark]

/-- A character in printable ASCII: the three short escapes of blanks, both quotes and the
backslash escaped, and all that is not printable ASCII by its code point. -/
def spelled (c : Char) : List Char :=
  if c = '\t' then ['\\', 't']
  else if c = '\r' then ['\\', 'r']
  else if c = '\n' then ['\\', 'n']
  else if c = '\'' ∨ c = '"' ∨ c = '\\' then ['\\', c]
  else if 0x20 ≤ c.toNat ∧ c.toNat ≤ 0x7E then [c]
  else codePoint c

end Lexis.Text
