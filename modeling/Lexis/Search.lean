import Lexis.Comment

/-!
# Patterns that are searched for

A search looks for the leftmost place of a text where a pattern matches, and takes the match that the
pattern prefers there. What a pattern repeats are characters of a set. A greedy run of them is rather
long and a lazy one rather short, but both give way to what follows in the pattern.

* `Search.ways`: **the matches of a pattern** at the start of a text, the preferred one first.
* `Search.IsFirst`: the match that a search finds.
* `Search.Removes`: what is left of a text when all matches, each searched for behind the one before,
  have been taken out.
* `Style.pattern`: the patterns of comments.
-/

namespace Lexis

open Comment (Found Style)

/-- A set of characters that a search goes by. -/
inductive CharClass where
  | exactly (c : Char)
  | except (c : Char)
  | any
deriving DecidableEq, Repr

/-- Whether a set has a character. -/
def CharClass.has : CharClass → Char → Bool
  | exactly c, d => d == c
  | except c, d => d != c
  | any, _ => true

/-- The runs of characters of a set at the start of a text, each with what it leaves: from the longest
to the shortest, or the other way around. -/
def CharClass.runs (set : CharClass) (greedy : Bool) : List Char → List (List Char × List Char)
  | [] => [([], [])]
  | c :: text =>
    let longer :=
      if set.has c then (set.runs greedy text).map fun way => (c :: way.1, way.2) else []
    if greedy then longer ++ [([], c :: text)] else ([], c :: text) :: longer

/-- A pattern to be searched for. -/
inductive Search where
  /-- No character. -/
  | empty
  /-- A character of a set. -/
  | one (set : CharClass)
  /-- A run of characters of a set. -/
  | run (set : CharClass) (greedy : Bool)
  /-- The end of the text. -/
  | textEnd
  /-- One pattern and then another. -/
  | seq (first second : Search)
  /-- Either of two patterns, the left one rather. -/
  | alt (left right : Search)
deriving DecidableEq, Repr

namespace Search

/-- The characters of a word, and then a pattern. -/
def afterWord (word : List Char) (p : Search) : Search :=
  word.foldr (fun c p => seq (one (.exactly c)) p) p

/-- **The matches of a pattern** at the start of a text: what each takes and what it leaves, in the
order of preference. The second part of a sequence is tried behind each match of the first. -/
def ways : Search → List Char → List (List Char × List Char)
  | empty, text => [([], text)]
  | one set, text =>
    match text with
    | [] => []
    | c :: text => if set.has c then [([c], text)] else []
  | run set greedy, text => set.runs greedy text
  | textEnd, text => if text = [] then [([], [])] else []
  | seq p q, text => (p.ways text).flatMap fun first =>
    (q.ways first.2).map fun second => (first.1 ++ second.1, second.2)
  | alt p q, text => p.ways text ++ q.ways text

/-- **What a search finds**: the match that is preferred at the leftmost place that has one. -/
structure IsFirst (p : Search) (text : List Char) (found : Found) : Prop where
  append : found.code ++ (found.comment ++ found.rest) = text
  preferred : (p.ways (found.comment ++ found.rest)).head? = some (found.comment, found.rest)
  leftmost : ∀ before behind, text = before ++ behind → before.length < found.code.length →
    p.ways behind = []

/-- **What is left of a text** without its matches, each searched for behind the one before. -/
inductive Removes (p : Search) : List Char → List Char → Prop
  /-- No place has a match. -/
  | none {text : List Char} (h : ∀ behind, behind <:+ text → p.ways behind = []) :
      Removes p text text
  /-- The first match goes, and those behind it. -/
  | first {text left : List Char} {found : Found} (h : p.IsFirst text found)
      (hrest : Removes p found.rest left) : Removes p text (found.code ++ left)

end Search

open Search in
/-- **The patterns of comments.** A line comment is two slashes, a greedy run of all but line feeds,
and a line feed or the end of the text: `//[^\n]*(?:\n|$)`. A block comment is a slash and a star, a
lazy run of any characters, and a star and a slash: `/\*.*?\*/`, where the dot is a line feed too. -/
def Comment.Style.pattern : Style → Search
  | line =>
    afterWord ['/', '/'] (seq (run (.except '\n') true) (alt (one (.exactly '\n')) textEnd))
  | block => afterWord ['/', '*'] (seq (run .any false) (afterWord ['*', '/'] empty))

end Lexis
