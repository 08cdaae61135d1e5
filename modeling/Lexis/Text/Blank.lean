/-!
# Blank characters

* `isBlank`: the six characters that separate words and make a line blank.
* `isSpace`: the white space of the whole character set, trimmed where a line is shown.
* `isSpace_of_isBlank`: every blank is white space.
-/

namespace Lexis.Text

/-- A blank is a space, a tab, a line feed, a carriage return, a vertical tab or a form feed. -/
def isBlank (c : Char) : Bool :=
  c = ' ' || c = '\t' || c = '\n' || c = '\r' || c = '\x0b' || c = '\x0c'

/-- The code points with the property `White_Space`, as inclusive ranges. -/
def whiteSpace : List (Nat × Nat) :=
  [(0x9, 0xD), (0x20, 0x20), (0x85, 0x85), (0xA0, 0xA0), (0x1680, 0x1680), (0x2000, 0x200A),
   (0x2028, 0x2029), (0x202F, 0x202F), (0x205F, 0x205F), (0x3000, 0x3000)]

/-- White space of any script. -/
def isSpace (c : Char) : Bool :=
  whiteSpace.any fun range => range.1 ≤ c.toNat && c.toNat ≤ range.2

/-- A character of the range that words are made of. -/
def isAscii (c : Char) : Bool := c.toNat < 128

theorem isBlank_iff {c : Char} : isBlank c = true ↔
    c = ' ' ∨ c = '\t' ∨ c = '\n' ∨ c = '\r' ∨ c = '\x0b' ∨ c = '\x0c' := by
  simp [isBlank, or_assoc]

theorem isSpace_of_isBlank {c : Char} (h : isBlank c = true) : isSpace c = true := by
  rcases isBlank_iff.1 h with rfl | rfl | rfl | rfl | rfl | rfl <;> decide

end Lexis.Text
