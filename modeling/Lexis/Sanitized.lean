import Lexis.Comment
import Lexis.Error
import Lexis.Event
import Lexis.Text.Blank
import Lexis.Text.Line

/-!
# Sanitized text

What tokens are read from: ASCII text without comments and blank lines, each line of which ends
with a line feed.

* `sanitize`: the sanitized form of a text, or the first character that is not ASCII.
-/

namespace Lexis

/-- A sanitized text and an account of what has been taken away. In ASCII a character is a byte. -/
structure Sanitized where
  text : List Char
  /-- The length of the text it was made from. -/
  bytesIn : Nat
  /-- The length of the comments removed. -/
  removed : Nat
  /-- The number of blank lines dropped. -/
  dropped : Nat
deriving DecidableEq, Repr

/-- Whether a line has no word in it. -/
def isBlankLine (line : List Char) : Bool := line.all Text.isBlank

/-- The lines of a code that are not blank, each without its terminator. -/
def keptLines (code : List Char) : List (List Char) :=
  ((Text.lines code).map Text.lineBody).filter (!isBlankLine ·)

/-- The sanitized form of an ASCII text. -/
def Sanitized.ofAscii (text : List Char) : Sanitized :=
  let code := Comment.uncommented text
  { text := (keptLines code).flatMap (· ++ ['\n'])
    bytesIn := text.length
    removed := text.length - code.length
    dropped := (Text.lines code).countP isBlankLine }

/-- What the log tells of a text that has been sanitized. -/
def Sanitized.events (s : Sanitized) (file : String) : List Event :=
  [.uncommented s.removed file, .sanitized file s.bytesIn s.text.length s.dropped]

/-- Sanitizes a text of a given name. A character that is not ASCII is refused wherever it stands,
even in a comment; the bytes before the first one are as many as the characters. -/
def sanitize (file : String) (text : List Char) : Logged (Except Error Sanitized) :=
  match text.dropWhile Text.isAscii with
  | c :: _ =>
    ⟨.error ⟨.nonAscii c, .ofByte file (text.takeWhile Text.isAscii).length⟩, []⟩
  | [] =>
    let sanitized := Sanitized.ofAscii text
    ⟨.ok sanitized, sanitized.events file⟩

end Lexis
