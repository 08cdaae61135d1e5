/-!
# Files by their paths

A path is walked name by name, from the working directory or, if it starts with a slash, from the
root. The directories above the working directory are seen as empty.

* `Entry.read`: the bytes of the file at a path, or why there are none.
* `Entry.writeFile`, `Entry.makeDirectory`: a tree with one more file or directory.
-/

namespace Lexis

/-- Why a file cannot be read as text. -/
inductive Unreadable where
  | nulInPath
  | notFound
  | notDirectory
  | isDirectory
  | nameTooLong
  | notText
  /-- A reason that only the system knows. -/
  | other (reason : String)
deriving DecidableEq, Repr

/-- The reason in words. -/
def Unreadable.reason : Unreadable → String
  | nulInPath => "file name contained an unexpected NUL byte"
  | notFound => "No such file or directory (os error 2)"
  | notDirectory => "Not a directory (os error 20)"
  | isDirectory => "Is a directory (os error 21)"
  | nameTooLong => "File name too long (os error 36)"
  | notText => "stream did not contain valid UTF-8"
  | other reason => reason

/-- A file, or a directory with its named entries. -/
inductive Entry where
  | file (bytes : ByteArray)
  | directory (entries : List (String × Entry))

namespace Entry

/-- The longest name of an entry, in bytes. -/
def maxNameBytes : Nat := 255

/-- The longest path, in bytes. -/
def maxPathBytes : Nat := 4095

/-- Follows the names of a path. Only a directory can be gone through, and `above` holds the
directories above it, the nearest first; above them all is `top`. An empty name stands for the
directory itself. -/
def walk (top : Entry) (above : List Entry) (here : Entry) : List String → Except Unreadable Entry
  | [] => .ok here
  | name :: names =>
    match here with
    | file _ => .error .notDirectory
    | directory entries =>
      if name = "" ∨ name = "." then walk top above here names
      else if name = ".." then
        match above with
        | [] => walk top [] top names
        | parent :: above => walk top above parent names
      else if maxNameBytes < name.utf8ByteSize then .error .nameTooLong
      else
        match entries.lookup name with
        | none => .error .notFound
        | some entry => walk top (here :: above) entry names

/-- The bytes of the file at a path, seen from a working directory. -/
def read (root workingDirectory : Entry) (path : String) : Except Unreadable ByteArray :=
  if '\x00' ∈ path.toList then .error .nulInPath
  else if path = "" then .error .notFound
  else if maxPathBytes < path.utf8ByteSize then .error .nameTooLong
  else
    let (top, start) :=
      if path.toList.head? = some '/' then (root, root) else (directory [], workingDirectory)
    match walk top [] start (path.splitOn "/") with
    | .error e => .error e
    | .ok (directory _) => .error .isDirectory
    | .ok (file bytes) => .ok bytes

/-- One more name on a path, whose names so far are `done`, the last one first. -/
def addName (done : List String) (name : String) : List String :=
  if name = "" ∨ name = "." then done else if name = ".." then done.tail else name :: done

/-- The names on a path that lead down to where it ends. -/
def names (path : String) : List String := ((path.splitOn "/").foldl addName []).reverse

/-- The named entries of a directory. -/
def entries : Entry → List (String × Entry)
  | file _ => []
  | directory entries => entries

/-- What stands at the start of a path once `put` has been done at its end. Directories that are
missing on the way are made. -/
def update (put : Option Entry → Entry) : List String → Option Entry → Entry
  | [], here => put here
  | name :: names, here =>
    let entries := (here.map entries).getD []
    directory ((name, update put names (entries.lookup name)) ::
      entries.filter fun entry => entry.1 ≠ name)

/-- The tree with a file at a path. It takes the place of what has stood there. -/
def writeFile (path : String) (bytes : ByteArray) (tree : Entry) : Entry :=
  update (fun _ => file bytes) (names path) (some tree)

/-- The tree with a directory at a path. One that stands there already keeps its entries. -/
def makeDirectory (path : String) (tree : Entry) : Entry :=
  update (fun here => directory ((here.map entries).getD [])) (names path) (some tree)

end Entry

end Lexis
