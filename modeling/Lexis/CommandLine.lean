import Lexis.Load
import Lexis.Report

/-!
# The command line

The command `tokens FILE` lists the tokens of a file, `preprocess FILE` shows its sanitized text.
Options may stand before and behind the command's name.

* `Invocation.ofStrings?`: what a list of arguments asks for, if it is in order.
* `Session.list`: the tokens of a session, written one a line until it ends or fails.
* `Invocation.run`: what is written then, and the exit code.

Some of what a run could tell is left out. Arguments that are not in order are answered with one line
of `usage`, whatever is wrong with them, and there is no help text. No run is timed, so the record of
the tokens listed has no elapsed time. And where a report is too wide to be laid out, the run aborts:
`Invocation.failure` has the exit code of an abort, with a line of its own for what an abort prints.
-/

namespace Lexis

/-- What can be asked for. -/
inductive Command where
  | tokens
  | preprocess
deriving DecidableEq, Repr

/-- The command of a name. -/
def Command.ofName? (name : String) : Option Command :=
  if name = "tokens" then some tokens else if name = "preprocess" then some preprocess else none

/-- The meaning of one argument. -/
inductive Argument where
  /-- The option for more log output, given `times` times. -/
  | verbose (times : Nat)
  /-- The option that sets the length limit. -/
  | limit (limit : Nat)
  /-- The mark behind which arguments are no options. -/
  | optionsEnd
  /-- Any other argument. -/
  | operand (text : String)
deriving DecidableEq, Repr

namespace Argument

/-- The operand that an argument is. -/
def operand? : Argument → Option String
  | operand text => some text
  | _ => none

/-- The limit that an argument sets. -/
def limit? : Argument → Option Nat
  | limit n => some n
  | _ => none

/-- How often an argument asks for more log output. -/
def verbose? : Argument → Option Nat
  | verbose n => some n
  | _ => none

/-- Reads a limit: decimal digits, a plus sign allowed before them, for a number of 64 bits. -/
def readLimit? (text : List Char) : Option Nat :=
  let digits := if text.head? = some '+' then text.tail else text
  let value := digits.foldl (fun n d => 10 * n + (d.toNat - '0'.toNat)) 0
  if digits ≠ [] ∧ digits.all Char.isDigit ∧ value < UInt64.size then some value else none

/-- The name of the option that sets the limit. -/
def limitOption : List Char := "--max-token-length".toList

/-- Reads an argument that is complete in itself. -/
def ofString? (arg : String) : Option Argument :=
  let text := arg.toList
  if text.head? ≠ some '-' ∨ text.length = 1 then some (operand arg)
  else if text = "--verbose".toList then some (verbose 1)
  else if text.tail.all (· = 'v') then some (verbose text.tail.length)
  else if limitOption ++ ['='] <+: text then
    (readLimit? (text.drop (limitOption.length + 1))).map limit
  else none

/-- Reads arguments from left to right. There is no reading where an option is unknown or lacks a
value of its sort. -/
def ofStrings? : List String → Option (List Argument)
  | [] => some []
  | arg :: args =>
    if arg = "--" then some (optionsEnd :: args.map operand)
    else if arg.toList = limitOption then
      match args with
      | [] => none
      | value :: args => do
        let n ← readLimit? value.toList
        let read ← ofStrings? args
        return limit n :: read
    else do
      let argument ← ofString? arg
      let read ← ofStrings? args
      return argument :: read

/-- The limit among the arguments on one side of the command, where it may be set once. -/
def sideLimit? (side : List Argument) : Option (Option Nat) :=
  match side.filterMap limit? with
  | [] => some none
  | [n] => some (some n)
  | _ => none

end Argument

/-- What a list of arguments asks for. -/
structure Invocation where
  command : Command
  file : String
  limit : Nat
  verbosity : Nat
deriving DecidableEq, Repr

/-- The invocation that arguments make up: a command and one file. Options behind the command's name
count instead of the same options before it. -/
def Invocation.ofArguments? (args : List Argument) : Option Invocation := do
  let before := args.takeWhile fun a => a.operand?.isNone
  match args.dropWhile fun a => a.operand?.isNone with
  | .operand name :: behind =>
    if .optionsEnd ∈ before then none
    else
      let command ← Command.ofName? name
      let outer ← Argument.sideLimit? before
      let inner ← Argument.sideLimit? behind
      let verbosity := match behind.filterMap Argument.verbose? with
        | [] => (before.filterMap Argument.verbose?).foldl (· + ·) 0
        | times => times.foldl (· + ·) 0
      match behind.filterMap Argument.operand? with
      | [file] => some ⟨command, file, (inner.or outer).getD ({} : Settings).limit, verbosity⟩
      | _ => none
  | _ => none

/-- What a list of arguments asks for, if it is in order. -/
def Invocation.ofStrings? (args : List String) : Option Invocation :=
  (Argument.ofStrings? args).bind ofArguments?

/-- What has come of listing tokens: the lines written, the number of tokens in them and, where an
error has ended it, the error. -/
structure Listing where
  written : String
  count : Nat
  error? : Option Error
  session : Session
  events : List Event

/-- Asks for token after token and writes each on a line, behind lines written before and events told
before, the latest first. -/
def Session.listFrom (written : String) (count : Nat) (events : List Event) (s : Session) : Listing :=
  match _h : s.next with
  | ⟨.token token, next, more⟩ =>
    next.listFrom s!"{written}{token.text}\n" (count + 1) (more.reverse ++ events)
  | ⟨.finished, next, more⟩ => ⟨written, count, none, next, events.reverse ++ more⟩
  | ⟨.failed error, next, more⟩ => ⟨written, count, some error, next, events.reverse ++ more⟩
termination_by s.rest.length
decreasing_by exact rest_lt_of_next _h

/-- Lists the tokens that a session gives, up to the end or the first error. -/
def Session.list (s : Session) : Listing := s.listFrom "" 0 []

/-- What a run writes, and the code that it exits with. -/
structure Outcome where
  exitCode : UInt8
  stdout : String
  stderr : String
deriving DecidableEq, Repr

/-- How often more log output has to be asked for until a level is shown. -/
def Level.verbosity : Level → Nat
  | info => 1
  | debug => 2
  | trace => 3

/-- An event as a line of the log. -/
def Event.line (e : Event) : String := s!"{e.level.name} - {e.message}\n"

namespace Invocation

variable (inv : Invocation)

/-- The lines of the log that are asked for. -/
def log (events : List Event) : String :=
  String.join ((events.filter fun e => e.level.verbosity ≤ inv.verbosity).map Event.line)

/-- A run that has gone well. -/
def success (stdout : String) (events : List Event) : Outcome := ⟨0, stdout, inv.log events⟩

/-- A run that has met an error, shown against `source`. What has been written stays. A report that is
too wide aborts the run; the line that says so stands for whatever an abort prints. -/
def failure (stdout : String) (events : List Event) (error : Error) (source : List Char) :
    Outcome :=
  match (Report.ofError error source).text? with
  | some report => ⟨1, stdout, s!"{inv.log events}{report}Error: lexing {inv.file} failed\n"⟩
  | none => ⟨101, stdout, s!"{inv.log events}The report on {inv.file} is too wide\n"⟩

/-- Lists the tokens of a text, whose loading the log tells of in `events`. -/
def runTokens (text : List Char) (events : List Event) : Outcome :=
  match Session.start { limit := inv.limit } inv.file text with
  | ⟨.error error, more⟩ => inv.failure "" (events ++ more) error text
  | ⟨.ok session, more⟩ =>
    let listing := session.list
    let events := events ++ more ++ listing.events
    match listing.error? with
    | some error => inv.failure listing.written events error listing.session.source.text
    | none =>
      inv.success listing.written
        (events ++ [.listed listing.count listing.session.file])

/-- Shows the sanitized form of a text. -/
def runPreprocess (text : List Char) (events : List Event) : Outcome :=
  match sanitize inv.file text with
  | ⟨.error error, more⟩ => inv.failure "" (events ++ more) error text
  | ⟨.ok sanitized, more⟩ => inv.success (String.ofList sanitized.text) (events ++ more)

/-- Does what is asked for, the file's bytes being `contents`. -/
def run (contents : Except Unreadable ByteArray) : Outcome :=
  match load inv.file contents with
  | ⟨.error error, events⟩ => inv.failure "" events error []
  | ⟨.ok text, events⟩ =>
    match inv.command with
    | .tokens => inv.runTokens text.toList events
    | .preprocess => inv.runPreprocess text.toList events

end Invocation

/-- How the command is to be used, in one line for every sort of misuse. -/
def usage : String :=
  "Usage: vultus [-v]... [--max-token-length N] (tokens|preprocess) FILE\n"

/-- The outcome of a list of arguments, where `read` gives the bytes of files. -/
def runCommandLine (read : String → Except Unreadable ByteArray) (args : List String) : Outcome :=
  match Invocation.ofStrings? args with
  | none => ⟨2, "", usage⟩
  | some inv => inv.run (read inv.file)

end Lexis
