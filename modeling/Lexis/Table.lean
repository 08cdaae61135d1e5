import Lexis.Pattern

/-!
# Kinds and the table that tells them

A table is an ordered list of rules. Of the rules whose pattern accepts a whole word, the first
gives its kind.

* `Table.classify`: the kind of a word.
* `Table.standard`: the rules of the language.
-/

namespace Lexis

/-- The kinds of tokens. -/
inductive Kind where
  | keyword
  | identifier
  | character
  | string
  | integer
  | decimal
  | operator
deriving DecidableEq, Repr

/-- The kinds in the order in which the language tries them. -/
def Kind.all : List Kind := [keyword, identifier, character, string, integer, decimal, operator]

/-- The name of a kind in messages. -/
def Kind.name : Kind → String
  | keyword => "Keyword"
  | identifier => "Identifier"
  | character => "Character"
  | string => "String"
  | integer => "Integer"
  | decimal => "Decimal"
  | operator => "Operator"

/-- A kind and the pattern of its words. -/
structure Rule where
  kind : Kind
  pattern : Pattern
deriving DecidableEq, Repr

/-- Rules in order of precedence. -/
structure Table where
  rules : List Rule
deriving DecidableEq, Repr

/-- The kind of a word: that of the first rule that accepts it. -/
def Table.classify (table : Table) (word : List Char) : Option Kind :=
  (table.rules.find? fun rule => rule.pattern.accepts word).map (·.kind)

namespace Pattern

/-- Letters between two quotes of one sort. -/
def quotation (quote : Char) : Pattern :=
  seq (one (.exactly quote)) (seq (plus (one .letter)) (one (.exactly quote)))

end Pattern

open Pattern in
/-- The pattern of the words of a kind. -/
def Kind.pattern : Kind → Pattern
  | keyword => oneOf ["f", "if", "else", "elif", "type", "operator"]
  | identifier => seq (one .letter) (many (one .alphanumeric))
  | character => one .letter
  | string => alt (quotation '"') (quotation '\'')
  | integer => plus (one .digit)
  | decimal => seq (plus (one .digit)) (seq (one (.exactly '.')) (plus (one .digit)))
  | operator => oneOf ["==", "<=", ">=", "<>", "<", ">", "||", "&&", "!"]

/-- The language's table. A keyword is told before an identifier; the rule for single letters
stands behind that for identifiers, which takes them all. -/
def Table.standard : Table := ⟨Kind.all.map fun kind => ⟨kind, kind.pattern⟩⟩

end Lexis
