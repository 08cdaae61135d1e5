import Lexis.FileTree
import Lexis.Session

/-!
# Text of files

* `load`: the text of a file, if its bytes are well-formed UTF-8.
* `Session.ofFile`: a session over that text, under the path as its name.
-/

namespace Lexis

/-- The text of bytes in UTF-8, and of no others. -/
def decode (bytes : ByteArray) : Except Unreadable String :=
  match String.fromUTF8? bytes with
  | some text => .ok text
  | none => .error .notText

/-- The text of the file at `path`, whose bytes are `contents`. Any trouble is blamed on its first
byte. -/
def load (path : String) (contents : Except Unreadable ByteArray) : Logged (Except Error String) :=
  match contents.bind decode with
  | .ok text => ⟨.ok text, [.loaded text.utf8ByteSize path]⟩
  | .error e => ⟨.error ⟨.inputUnavailable path e.reason, .ofByte path 0⟩, []⟩

/-- Starts a session over the text of a file. -/
def Session.ofFile (settings : Settings) (path : String) (contents : Except Unreadable ByteArray) :
    Logged (Except Error Session) :=
  match load path contents with
  | ⟨.error error, events⟩ => ⟨.error error, events⟩
  | ⟨.ok text, events⟩ =>
    let started := start settings path text.toList
    ⟨started.value, events ++ started.events⟩

end Lexis
