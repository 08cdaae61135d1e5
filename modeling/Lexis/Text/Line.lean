/-!
# Lines

A text falls into lines, each of which keeps the line feed that ends it. Offsets are counted in
bytes of the UTF-8 form.

* `lines_append_lineFeed`, `lines_of_unterminated`: a text with a line feed starts with the line that
  its first one ends, and one without is a single line.
* `flatten_lines`: the lines of a text join to the text.
* `lineAt?`: the line that holds a byte, its number, and the byte's place in it.
-/

namespace Lexis.Text

/-- The number of bytes of a text in UTF-8. -/
def byteLength (text : List Char) : Nat := text.foldl (fun bytes c => bytes + c.utf8Size) 0

/-- Puts a character in front of lines: in front of the first one, but a line feed is a line of its
own there. -/
def consLine (c : Char) : List (List Char) → List (List Char)
  | [] => [[c]]
  | line :: rest => if c = '\n' then [c] :: line :: rest else (c :: line) :: rest

/-- The lines of a text. All but the last end with a line feed, and none is empty. -/
def lines (text : List Char) : List (List Char) := text.foldr consLine []

/-- A line without its terminator: a line feed, or a carriage return and a line feed. A line that
no line feed ends keeps all of its characters. -/
def lineBody (line : List Char) : List Char :=
  if line.getLast? = some '\n' then
    if line.dropLast.getLast? = some '\r' then line.dropLast.dropLast else line.dropLast
  else line

/-- A place in a text: the number of the line, counted from 1, the line with its terminator, and
the offset in it. -/
structure Place where
  number : Nat
  line : List Char
  column : Nat
deriving DecidableEq, Repr

/-- The place `offset` bytes after the start of `lines`, the first of which has number `number`. -/
def lineFrom? (number : Nat) : List (List Char) → Nat → Option Place
  | [], _ => none
  | line :: rest, offset =>
    if offset < byteLength line then some ⟨number, line, offset⟩
    else lineFrom? (number + 1) rest (offset - byteLength line)

/-- The place of a byte of a text, if the text is that long. -/
def lineAt? (text : List Char) (offset : Nat) : Option Place := lineFrom? 1 (lines text) offset

@[simp] theorem lines_nil : lines [] = [] := rfl

theorem lines_cons (c : Char) (text : List Char) : lines (c :: text) = consLine c (lines text) := rfl

theorem consLine_lineFeed (rest : List (List Char)) : consLine '\n' rest = ['\n'] :: rest := by
  cases rest <;> simp [consLine]

theorem consLine_cons {c : Char} (h : c ≠ '\n') (line : List Char) (rest : List (List Char)) :
    consLine c (line :: rest) = (c :: line) :: rest := by
  simp [consLine, h]

@[simp] theorem flatten_consLine (c : Char) (rest : List (List Char)) :
    (consLine c rest).flatten = c :: rest.flatten := by
  cases rest with
  | nil => rfl
  | cons line rest =>
    rw [consLine]
    split <;> simp

/-- **The lines of a text join to the text.** -/
@[simp] theorem flatten_lines (text : List Char) : (lines text).flatten = text := by
  induction text with
  | nil => rfl
  | cons c text ih => rw [lines_cons, flatten_consLine, ih]

/-- **A line ends with the first line feed.** -/
theorem lines_append_lineFeed {line : List Char} (h : '\n' ∉ line) (text : List Char) :
    lines (line ++ '\n' :: text) = (line ++ ['\n']) :: lines text := by
  induction line with
  | nil => exact consLine_lineFeed _
  | cons c line ih =>
    obtain ⟨hc, hline⟩ : '\n' ≠ c ∧ '\n' ∉ line := by simpa using h
    rw [List.cons_append, lines_cons, ih hline, consLine_cons (Ne.symm hc)]
    rfl

/-- **Without a line feed there is one line**, unless there is nothing. -/
theorem lines_of_unterminated {line : List Char} (h : '\n' ∉ line) (hne : line ≠ []) :
    lines line = [line] := by
  induction line with
  | nil => contradiction
  | cons c line ih =>
    obtain ⟨hc, hline⟩ : '\n' ≠ c ∧ '\n' ∉ line := by simpa using h
    cases line with
    | nil => rfl
    | cons d line => rw [lines_cons, ih hline (by simp), consLine_cons (Ne.symm hc)]

theorem lineBody_of_unterminated {line : List Char} (h : '\n' ∉ line) : lineBody line = line := by
  rw [lineBody, if_neg fun e => h (List.mem_of_getLast? e)]

theorem foldl_utf8Size (text : List Char) (n : Nat) :
    text.foldl (fun bytes c => bytes + c.utf8Size) n = n + byteLength text := by
  induction text generalizing n with
  | nil => rfl
  | cons c text ih =>
    rw [byteLength, List.foldl_cons, List.foldl_cons, ih, ih]
    omega

@[simp] theorem byteLength_nil : byteLength [] = 0 := rfl

@[simp] theorem byteLength_cons (c : Char) (text : List Char) :
    byteLength (c :: text) = c.utf8Size + byteLength text := by
  rw [byteLength, List.foldl_cons, foldl_utf8Size, Nat.zero_add]

@[simp] theorem byteLength_append (a b : List Char) :
    byteLength (a ++ b) = byteLength a + byteLength b := by
  rw [byteLength, List.foldl_append, foldl_utf8Size, foldl_utf8Size, Nat.zero_add]

end Lexis.Text
