import Lexis.Error
import Lexis.Text.Blank
import Lexis.Text.Line

/-!
# Reports

An error is shown with its name, its file and, if its position lies in the text at hand, the line
it stands on, with a caret below.

* `Report.ofError`: what is shown.
* `Report.text?`: how it is laid out. There is none where the caret would stand too far right.
-/

namespace Lexis

/-- A line as it is shown, without its indentation and the white space at its end, and the column
that the caret points at. -/
structure Excerpt where
  number : Nat
  line : List Char
  column : Nat
deriving DecidableEq, Repr

/-- What is shown of an error. -/
structure Report where
  name : String
  advice : String
  file : String
  excerpt? : Option Excerpt
deriving DecidableEq, Repr

/-- The spaces and tabs that a line starts with. -/
def indentation (line : List Char) : List Char := line.takeWhile fun c => c = ' ' || c = '\t'

/-- A text without the white space at its end. -/
def trimEnd (text : List Char) : List Char := (text.reverse.dropWhile Text.isSpace).reverse

/-- The excerpt for a place. A place inside the indentation is shown at the first column. -/
def Excerpt.ofPlace (place : Text.Place) : Excerpt where
  number := place.number
  line := trimEnd (place.line.drop (indentation place.line).length)
  column := place.column - (indentation place.line).length

/-- The report of an error against a text. A fault without a tip is shown by its text. -/
def Report.ofError (error : Error) (text : List Char) : Report where
  name := error.fault.name
  advice := error.fault.tip?.getD error.fault.text
  file := error.position.file
  excerpt? := (Text.lineAt? text error.position.offset.toNat).map .ofPlace

/-- The widest field that a caret can be set in. -/
def maxCaretWidth : Nat := 65535

/-- The three lines that show an excerpt: a margin as wide as the line's number, the line, and the
caret behind as many dashes as its column says. -/
def Excerpt.text (e : Excerpt) : String :=
  let number := toString e.number
  let margin := String.ofList (List.replicate (number.length + 1) ' ')
  let line := String.ofList e.line
  let dashes := String.ofList (List.replicate e.column '-')
  s!"{margin}|\n{number} | {line}\n{margin}| {dashes}^\n"

/-- The layout of a report. -/
def Report.text? (r : Report) : Option String :=
  let head := s!"Error: {r.name} ({r.advice})\n-> {r.file}\n"
  match r.excerpt? with
  | none => some head
  | some excerpt =>
    if excerpt.column + 1 ≤ maxCaretWidth then some (head ++ excerpt.text) else none

end Lexis
