import Lexis.Sanitized

/-!
# Sessions

A session reads the tokens of one sanitized text. Words are what blanks separate; each has to keep
within the length limit and to be classified as a whole. The end and a failure are final.

* `Session.next`: the next token. After a failure it answers with the same error again.
* `Session.nextItem`: the same, but after a failure there is nothing more to come.
* `Session.drain`: all the items that are left.
* `tokenize`: the tokens of a text.
-/

namespace Lexis

/-- What a session goes by: the longest word that it takes, and the table. -/
structure Settings where
  limit : Nat := 50
  table : Table := .standard
deriving DecidableEq, Repr

/-- Whether a session still reads, has found the end, or has met an error. -/
inductive Status where
  | scanning
  | exhausted
  | failed (error : Error)
deriving DecidableEq, Repr

/-- A session over a sanitized text. It has read the first `pos` characters. -/
structure Session where
  settings : Settings
  file : String
  source : Sanitized
  pos : Nat
  rest : List Char
  status : Status
  rest_eq : rest = source.text.drop pos

/-- The name of a text that is not given one. -/
def unnamed : String := "shell"

/-- A session at the start of a sanitized text. -/
def Session.ofSanitized (settings : Settings) (file : String) (source : Sanitized) : Session :=
  ⟨settings, file, source, 0, source.text, .scanning, rfl⟩

/-- Starts a session over a text of a given name. -/
def Session.start (settings : Settings) (file : String) (text : List Char) :
    Logged (Except Error Session) :=
  (sanitize file text).map (·.map (ofSanitized settings file))

/-- The answer to a request for a token. -/
inductive Pull where
  | token (token : Token)
  | finished
  | failed (error : Error)
deriving Repr

/-- A session's answer, the session that goes on from there, and what the log tells. -/
structure Step where
  pull : Pull
  session : Session
  events : List Event

namespace Session

variable (s : Session)

/-- Whether nothing is left to read. Behind the last token this is still false, for a line feed is
left. -/
def atEnd : Bool := s.rest.isEmpty

/-- The session with `n` more characters read. -/
def skip (n : Nat) : Session :=
  { s with pos := s.pos + n, rest := s.rest.drop n, rest_eq := by rw [s.rest_eq, List.drop_drop] }

/-- The session behind the blanks that come next. -/
def skipBlanks : Session := s.skip (s.rest.takeWhile Text.isBlank).length

/-- The characters up to the next blank. -/
def word : List Char := s.rest.takeWhile (!Text.isBlank ·)

/-- The position that the session has reached. -/
def position : Position := .ofByte s.file s.pos

/-- Fails over the next `n` characters. -/
def fail (n : Nat) (fault : Fault) : Step :=
  let error : Error := ⟨fault, s.position⟩
  ⟨.failed error, { s.skip n with status := .failed error }, []⟩

/-- Finds the end. -/
def finish : Step := ⟨.finished, { s with status := .exhausted }, [.ended s.file]⟩

/-- Takes the word that comes next for a token of some kind. -/
def accept (kind : Kind) : Step :=
  let next := s.skip s.word.length
  let value := String.ofList s.word
  ⟨.token ⟨kind, value, ⟨s.position, next.position⟩⟩, next, [.token kind value s.pos]⟩

/-- Reads the word that comes next. One that is too long is not read beyond the first character in
excess. -/
def readWord : Step :=
  if s.word = [] then s.finish
  else if s.settings.limit < s.word.length then
    s.fail (s.settings.limit + 1)
      (.tooLong (String.ofList (s.word.take (s.settings.limit + 1))) s.settings.limit)
  else
    match s.settings.table.classify s.word with
    | none => s.fail s.word.length (.unrecognized (String.ofList s.word))
    | some kind => s.accept kind

/-- The next token. A session that has failed repeats its error. -/
def next : Step :=
  match s.status with
  | .scanning => s.skipBlanks.readWord
  | .exhausted => ⟨.finished, s, []⟩
  | .failed error => ⟨.failed error, s, []⟩

/-- The next item: a token, or once an error. -/
def nextItem : Step :=
  match s.status with
  | .failed _ => ⟨.finished, s, []⟩
  | _ => s.next

variable {s}

theorem length_rest_skip (n : Nat) : (s.skip n).rest.length = s.rest.length - n := by
  simp [skip]

theorem rest_lt_of_readWord {t : Token} {next : Session} {events : List Event}
    (h : s.readWord = ⟨.token t, next, events⟩) : next.rest.length < s.rest.length := by
  unfold readWord at h
  split at h
  · simp [finish] at h
  · rename_i hw
    split at h
    · simp [fail] at h
    · split at h
      · simp [fail] at h
      · injection h with _ h _
        have := List.length_pos_iff.2 hw
        have : s.word.length ≤ s.rest.length := (List.takeWhile_sublist _).length_le
        rw [← h, length_rest_skip]
        omega

/-- **A token takes text**: less is left behind it. -/
theorem rest_lt_of_next {t : Token} {next : Session} {events : List Event}
    (h : s.next = ⟨.token t, next, events⟩) : next.rest.length < s.rest.length := by
  unfold Session.next at h
  split at h
  · have := rest_lt_of_readWord h
    rw [skipBlanks, length_rest_skip] at this
    omega
  · simp at h
  · simp at h

theorem rest_lt_of_nextItem {t : Token} {next : Session} {events : List Event}
    (h : s.nextItem = ⟨.token t, next, events⟩) : next.rest.length < s.rest.length := by
  unfold nextItem at h
  split at h
  · simp at h
  · exact rest_lt_of_next h

end Session

/-- The items that were left in a session: tokens and, where it failed, an error. -/
structure Drained where
  tokens : List Token
  error? : Option Error
  session : Session
  events : List Event

/-- The tokens, if no error ends them. -/
def Drained.collected (d : Drained) : Except Error (List Token) :=
  match d.error? with
  | some error => .error error
  | none => .ok d.tokens

/-- Takes the items that are left, behind tokens and events taken before, the latest first. -/
def Session.drainFrom (tokens : List Token) (events : List Event) (s : Session) : Drained :=
  match _h : s.nextItem with
  | ⟨.token token, next, more⟩ => next.drainFrom (token :: tokens) (more.reverse ++ events)
  | ⟨.finished, next, more⟩ => ⟨tokens.reverse, none, next, events.reverse ++ more⟩
  | ⟨.failed error, next, more⟩ => ⟨tokens.reverse, some error, next, events.reverse ++ more⟩
termination_by s.rest.length
decreasing_by exact rest_lt_of_nextItem _h

/-- Takes all the items that are left. -/
def Session.drain (s : Session) : Drained := s.drainFrom [] []

/-- The tokens of a text of a given name, or the first error. -/
def tokenize (settings : Settings) (file : String) (text : List Char) :
    Logged (Except Error (List Token)) :=
  match Session.start settings file text with
  | ⟨.error error, events⟩ => ⟨.error error, events⟩
  | ⟨.ok session, events⟩ =>
    let drained := session.drain
    ⟨drained.collected, events ++ drained.events⟩

end Lexis
