/-!
# Comments

A comment of the line style runs from two slashes through the next line feed, or to the end of the
text. One of the block style runs from a slash and a star through the first star and slash behind
them; without these it is no comment. Comments of one style are found from left to right, each
search going on behind the last comment.

* `Style.first?_append`: a comment, the code before it and the rest make up the text.
* `Style.divide_join`: so do all the comments of a style and the code between them.
* `uncommented`: the code that is left without the comments of both styles.
-/

namespace Lexis.Comment

/-- The text before and behind the first place where `a` is directly followed by `b`. Characters
already passed stand in `seen`, the latest first. -/
def splitPair? (a b : Char) (seen : List Char) : List Char → Option (List Char × List Char)
  | c :: d :: rest =>
    if c = a ∧ d = b then some (seen.reverse, rest) else splitPair? a b (c :: seen) (d :: rest)
  | _ => none

/-- The two styles of comments. -/
inductive Style where
  | line
  | block
deriving DecidableEq, Repr

/-- A comment in its surroundings. -/
structure Found where
  code : List Char
  comment : List Char
  rest : List Char

/-- The first comment of a text, which is the first match of `Style.pattern`. -/
def Style.first? : Style → List Char → Option Found
  | line, text => (splitPair? '/' '/' [] text).map fun (code, tail) =>
    let body := tail.takeWhile (· != '\n')
    let tail := tail.dropWhile (· != '\n')
    ⟨code, '/' :: '/' :: body ++ tail.take 1, tail.drop 1⟩
  | block, text => (splitPair? '/' '*' [] text).bind fun (code, tail) =>
    (splitPair? '*' '/' [] tail).map fun (body, rest) =>
      ⟨code, '/' :: '*' :: body ++ ['*', '/'], rest⟩

theorem splitPair?_eq_some {a b : Char} {text seen before behind : List Char}
    (h : splitPair? a b seen text = some (before, behind)) :
    before ++ a :: b :: behind = seen.reverse ++ text := by
  fun_induction splitPair? a b seen text with
  | case1 seen c d rest hcd => obtain ⟨rfl, rfl⟩ := hcd; simp_all
  | case2 seen c d rest hcd ih => simp [ih h]
  | case3 => simp at h

/-- **Nothing is lost at a comment**: the code before it, the comment and the rest are the text. -/
theorem Style.first?_append {style : Style} {text : List Char} {found : Found}
    (h : style.first? text = some found) :
    found.code ++ found.comment ++ found.rest = text := by
  cases style with
  | line =>
    obtain ⟨⟨code, tail⟩, hs, rfl⟩ := Option.map_eq_some_iff.1 h
    have hs : code ++ '/' :: '/' :: tail = text := splitPair?_eq_some hs
    simp only [List.append_assoc, List.cons_append, List.take_append_drop,
      List.takeWhile_append_dropWhile, hs]
  | block =>
    obtain ⟨⟨code, tail⟩, hs, h⟩ := Option.bind_eq_some_iff.1 h
    obtain ⟨⟨body, rest⟩, he, rfl⟩ := Option.map_eq_some_iff.1 h
    have he : body ++ '*' :: '/' :: rest = tail := by simpa using splitPair?_eq_some he
    simpa [← he] using splitPair?_eq_some hs

theorem Style.comment_ne_nil {style : Style} {text : List Char} {found : Found}
    (h : style.first? text = some found) : found.comment ≠ [] := by
  cases style with
  | line => obtain ⟨_, _, rfl⟩ := Option.map_eq_some_iff.1 h; simp
  | block =>
    obtain ⟨_, _, h⟩ := Option.bind_eq_some_iff.1 h
    obtain ⟨_, _, rfl⟩ := Option.map_eq_some_iff.1 h
    simp

theorem Style.rest_lt {style : Style} {text : List Char} {found : Found}
    (h : style.first? text = some found) : found.rest.length < text.length := by
  have := List.length_pos_iff.2 (comment_ne_nil h)
  rw [← first?_append h]
  simp only [List.length_append]
  omega

/-- Code followed by a comment. -/
structure Cut where
  code : List Char
  comment : List Char
deriving DecidableEq, Repr

/-- A text divided into code and comments. -/
structure Division where
  cuts : List Cut
  tail : List Char
deriving DecidableEq, Repr

/-- The code of a division. -/
def Division.code (d : Division) : List Char := d.cuts.flatMap (·.code) ++ d.tail

/-- The whole text of a division. -/
def Division.join (d : Division) : List Char :=
  d.cuts.flatMap (fun c => c.code ++ c.comment) ++ d.tail

/-- Divides a text whose cuts so far are `cuts`, the latest first. -/
def Style.divideFrom (style : Style) (cuts : List Cut) (text : List Char) : Division :=
  match _h : style.first? text with
  | none => ⟨cuts.reverse, text⟩
  | some found => style.divideFrom (⟨found.code, found.comment⟩ :: cuts) found.rest
termination_by text.length
decreasing_by exact rest_lt _h

/-- The comments of a style in a text, and the code between them. -/
def Style.divide (style : Style) (text : List Char) : Division := style.divideFrom [] text

/-- A text without its comments of a style. -/
def Style.strip (style : Style) (text : List Char) : List Char := (style.divide text).code

theorem Style.divideFrom_join (style : Style) (cuts : List Cut) (text : List Char) :
    (style.divideFrom cuts text).join =
      cuts.reverse.flatMap (fun c => c.code ++ c.comment) ++ text := by
  fun_induction style.divideFrom cuts text with
  | case1 => rfl
  | case2 cuts text found h ih => simp [ih, ← first?_append h]

/-- **Division loses nothing**: code and comments together are the text. -/
@[simp] theorem Style.divide_join (style : Style) (text : List Char) :
    (style.divide text).join = text :=
  style.divideFrom_join [] text

/-- The code of a text: line comments go first, so one that starts inside a block comment takes the
rest of its line along, even the end of the block. -/
def uncommented (text : List Char) : List Char := Style.block.strip (Style.line.strip text)

end Lexis.Comment
