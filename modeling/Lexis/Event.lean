import Lexis.Table

/-!
# Log events

What a run reports of its progress, each event with its level and its text.

* `Logged`: a value together with the events on the way to it.
-/

namespace Lexis

/-- How much an event matters, the most important first. -/
inductive Level where
  | info
  | debug
  | trace
deriving DecidableEq, Repr

/-- The name of a level. -/
def Level.name : Level → String
  | info => "INFO"
  | debug => "DEBUG"
  | trace => "TRACE"

/-- A step of a run that the log tells of. -/
inductive Event where
  /-- A file has been read. -/
  | loaded (bytes : Nat) (path : String)
  /-- Comments have been removed from a text. -/
  | uncommented (bytes : Nat) (file : String)
  /-- A text has been sanitized. -/
  | sanitized (file : String) (bytesIn bytesOut dropped : Nat)
  /-- A token has been found, `offset` bytes into the sanitized text. -/
  | token (kind : Kind) (value : String) (offset : Nat)
  /-- The end of a sanitized text has been found. -/
  | ended (file : String)
  /-- All tokens of a file have been listed. The time that it took is not told. -/
  | listed (count : Nat) (file : String)
deriving DecidableEq, Repr

/-- The level of an event. -/
def Event.level : Event → Level
  | loaded .. => .debug
  | uncommented .. => .trace
  | sanitized .. => .debug
  | token .. => .trace
  | ended _ => .debug
  | listed .. => .info

/-- The text of an event. -/
def Event.message : Event → String
  | loaded bytes path => s!"Loaded {bytes} bytes from {path}"
  | uncommented bytes file => s!"Removed {bytes} bytes of comments from {file}"
  | sanitized file bytesIn bytesOut dropped =>
    s!"Preprocessed {file}: {bytesIn} bytes in, {bytesOut} bytes out, {dropped} blank lines dropped"
  | token kind value offset => s!"{kind.name} ({value}) at {offset}"
  | ended file => s!"End of {file} reached"
  | listed count file => s!"Tokenized {count} tokens from {file}"

/-- A value and the events on the way to it, in order. -/
structure Logged (α : Type) where
  value : α
  events : List Event

/-- A function of the value leaves the events as they are. -/
def Logged.map {α β : Type} (f : α → β) (x : Logged α) : Logged β := ⟨f x.value, x.events⟩

end Lexis
