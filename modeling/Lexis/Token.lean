import Lexis.Table

/-!
# Tokens

* `Token.text`: a token as it is listed, its kind before its value.
* Tokens are compared by kind and value; where they stand does not count.
-/

namespace Lexis

/-- A place in a named text, as a byte offset in 32 bits. -/
structure Position where
  offset : UInt32
  file : String
deriving DecidableEq, Repr

/-- The position of a byte. Offsets that need more than 32 bits wrap. -/
def Position.ofByte (file : String) (byte : Nat) : Position := ⟨UInt32.ofNat byte, file⟩

/-- From the first byte of something to the first behind it. -/
structure Span where
  start : Position
  stop : Position
deriving DecidableEq, Repr

/-- A word of known kind. -/
structure Token where
  kind : Kind
  value : String
  span : Span
deriving Repr

/-- A token as text: its kind and, in parentheses, its value. -/
def Token.text (token : Token) : String := s!"{token.kind.name} ({token.value})"

/-- Equality of tokens leaves their places out of account. -/
instance : BEq Token := ⟨fun a b => a.kind == b.kind && a.value == b.value⟩

theorem Token.beq_iff {a b : Token} : (a == b) = true ↔ a.kind = b.kind ∧ a.value = b.value := by
  show (a.kind == b.kind && a.value == b.value) = true ↔ _
  simp

end Lexis
