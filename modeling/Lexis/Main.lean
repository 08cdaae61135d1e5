import Lexis.CommandLine

/-!
# The program

Reads the file that the arguments name, writes what the run comes to, and exits.
-/

namespace Lexis

/-- Why the system does not give the bytes of a file, by the number of its error. Some numbers come
negated. -/
def Unreadable.ofNumber (number : UInt32) (details : String) : Unreadable :=
  match min number (0 - number) with
  | 2 => notFound
  | 20 => notDirectory
  | 21 => isDirectory
  | 36 => nameTooLong
  | number => other s!"{details.capitalize} (os error {number})"

/-- Why the system does not give the bytes of a file. -/
def Unreadable.ofSystem : IO.Error → Unreadable
  | .noFileOrDirectory _ number details => ofNumber number details
  | .inappropriateType _ number details => ofNumber number details
  | .invalidArgument _ number details => ofNumber number details
  | .permissionDenied _ number details => ofNumber number details
  | error => other (toString error)

/-- The bytes of a file, or why there are none. -/
def readFile (path : String) : IO (Except Unreadable ByteArray) := do
  if '\x00' ∈ path.toList then return .error .nulInPath
  try
    return .ok (← IO.FS.readBinFile path)
  catch error =>
    return .error (.ofSystem error)

end Lexis

open Lexis in
/-- Runs the program on its arguments. -/
def main (args : List String) : IO UInt32 := do
  let contents ← match Invocation.ofStrings? args with
    | some invocation => readFile invocation.file
    | none => pure (.error .notFound)
  let outcome := runCommandLine (fun _ => contents) args
  IO.print outcome.stdout
  IO.eprint outcome.stderr
  return outcome.exitCode.toUInt32
