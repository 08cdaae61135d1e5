import Lexis.Text.Quoted
import Lexis.Token

/-!
# Errors

A fault is what can go wrong, an error a fault at a position.

* `Fault.text`: what went wrong, with the offending text quoted.
* `Fault.tip?`: advice, for the faults that have some.
* `Error.message`: the fault and where it stands.
-/

namespace Lexis

/-- What can go wrong between a file and its tokens. -/
inductive Fault where
  /-- The file at `path` cannot be read as text. -/
  | inputUnavailable (path reason : String)
  /-- The text has a character that is not ASCII. -/
  | nonAscii (character : Char)
  /-- No rule accepts a word. -/
  | unrecognized (lexeme : String)
  /-- A word is longer than `limit`; its first `limit + 1` characters are `lexeme`. -/
  | tooLong (lexeme : String) (limit : Nat)
deriving DecidableEq, Repr

/-- The name of a sort of fault. -/
def Fault.name : Fault → String
  | inputUnavailable .. => "InputUnavailable"
  | nonAscii _ => "NonAsciiInput"
  | unrecognized _ => "UnrecognizedLexeme"
  | tooLong .. => "MaxLengthExceeded"

/-- A string between double quotes. -/
def quote (s : String) : String := String.ofList (Text.quoted .double s.toList)

/-- What went wrong. -/
def Fault.text : Fault → String
  | inputUnavailable path reason => s!"input unavailable: {quote path} ({reason})"
  | nonAscii c =>
    let character := String.ofList (Text.quoted .single [c])
    s!"non-ASCII character in input: {character}"
  | unrecognized lexeme => s!"unrecognized lexeme: {quote lexeme}"
  | tooLong lexeme limit => s!"lexeme exceeds {limit} characters: {quote lexeme}"

/-- Advice on a fault. A word that no rule accepts is left without. -/
def Fault.tip? : Fault → Option String
  | inputUnavailable path reason => some s!"Could not read `{path}`: {reason}"
  | nonAscii c =>
    let character := String.ofList (Text.spelled c)
    some s!"Character `{character}` is outside the ASCII range"
  | unrecognized _ => none
  | tooLong _ limit =>
    some s!"Tokens are limited to {limit} characters, is a literal left unterminated?"

/-- A fault and the position it is blamed on. -/
structure Error where
  fault : Fault
  position : Position
deriving DecidableEq, Repr

/-- An error in one line: the fault, the file and the offset. -/
def Error.message (e : Error) : String :=
  s!"{e.fault.text} at {e.position.file}:{e.position.offset}"

end Lexis
