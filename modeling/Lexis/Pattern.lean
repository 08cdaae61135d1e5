/-!
# Patterns of words

A pattern is a regular expression over characters. It accepts whole words only.

* `Pattern.Matches`: the words of a pattern.
* `Pattern.accepts`: the decision, by what is left of the pattern after each character.
* `accepts_iff_matches`: **the decision is exact**.
-/

namespace Lexis

/-- A set of characters. The ranges are those of ASCII. -/
inductive CharSet where
  | exactly (c : Char)
  | letter
  | digit
  | alphanumeric
deriving DecidableEq, Repr

/-- Whether a set has a character. -/
def CharSet.has : CharSet → Char → Bool
  | exactly c, d => d == c
  | letter, d => d.isAlpha
  | digit, d => d.isDigit
  | alphanumeric, d => d.isAlphanum

/-- A regular expression over characters. -/
inductive Pattern where
  | never
  | empty
  | one (set : CharSet)
  | seq (first second : Pattern)
  | alt (left right : Pattern)
  | many (repeated : Pattern)
deriving DecidableEq, Repr

namespace Pattern

/-- The words of a pattern. -/
inductive Matches : Pattern → List Char → Prop
  | empty : Matches empty []
  | one {s : CharSet} {c : Char} : s.has c = true → Matches (one s) [c]
  | seq {p q : Pattern} {v w : List Char} : Matches p v → Matches q w → Matches (seq p q) (v ++ w)
  | left {p q : Pattern} {w : List Char} : Matches p w → Matches (alt p q) w
  | right {p q : Pattern} {w : List Char} : Matches q w → Matches (alt p q) w
  | done {p : Pattern} : Matches (many p) []
  | more {p : Pattern} {v w : List Char} :
      Matches p v → Matches (many p) w → Matches (many p) (v ++ w)

/-- One pattern and then another. -/
def followedBy : Pattern → Pattern → Pattern
  | never, _ => never
  | empty, q => q
  | p, q => p.seq q

/-- Either of two patterns. -/
def orElse : Pattern → Pattern → Pattern
  | never, q => q
  | p, never => p
  | p, q => p.alt q

/-- One or more words of a pattern. -/
def plus (p : Pattern) : Pattern := p.seq p.many

/-- The word `text` alone. -/
def word (text : List Char) : Pattern := text.foldr (fun c p => seq (one (.exactly c)) p) empty

/-- Any of some words. With no words to choose from it is the empty word. -/
def oneOf : List String → Pattern
  | [] => empty
  | [text] => word text.toList
  | text :: texts => (word text.toList).alt (oneOf texts)

/-- Whether the empty word is a word of the pattern. -/
def nullable : Pattern → Bool
  | never => false
  | empty => true
  | one _ => false
  | seq p q => p.nullable && q.nullable
  | alt p q => p.nullable || q.nullable
  | many _ => true

/-- What is left of a pattern after its words' first character. -/
def after (c : Char) : Pattern → Pattern
  | never => never
  | empty => never
  | one s => if s.has c then empty else never
  | seq p q =>
    if p.nullable then ((p.after c).followedBy q).orElse (q.after c) else (p.after c).followedBy q
  | alt p q => (p.after c).orElse (q.after c)
  | many p => (p.after c).followedBy p.many

/-- Whether a pattern accepts a word, from its first character to its last. -/
def accepts (p : Pattern) (w : List Char) : Bool := (w.foldl (fun p c => p.after c) p).nullable

theorem matches_empty {w : List Char} : Matches empty w ↔ w = [] :=
  ⟨fun h => by cases h; rfl, fun h => h ▸ .empty⟩

theorem matches_one {s : CharSet} {w : List Char} :
    Matches (one s) w ↔ ∃ c, s.has c = true ∧ w = [c] :=
  ⟨fun h => by cases h with | one h => exact ⟨_, h, rfl⟩, fun ⟨_, h, hw⟩ => hw ▸ .one h⟩

theorem matches_seq {p q : Pattern} {w : List Char} :
    Matches (seq p q) w ↔ ∃ u v, w = u ++ v ∧ Matches p u ∧ Matches q v :=
  ⟨fun h => by cases h with | seq hp hq => exact ⟨_, _, rfl, hp, hq⟩,
    fun ⟨_, _, hw, hp, hq⟩ => hw ▸ .seq hp hq⟩

theorem matches_alt {p q : Pattern} {w : List Char} :
    Matches (alt p q) w ↔ Matches p w ∨ Matches q w :=
  ⟨fun h => by cases h with | left h => exact .inl h | right h => exact .inr h,
    fun h => h.elim .left .right⟩

theorem not_matches_never {w : List Char} : ¬ Matches never w := nofun

theorem matches_followedBy {p q : Pattern} {w : List Char} :
    Matches (p.followedBy q) w ↔ Matches (seq p q) w := by
  unfold followedBy
  split
  · simp [matches_seq, not_matches_never]
  · rw [matches_seq]
    exact ⟨fun h => ⟨[], w, rfl, .empty, h⟩, by
      rintro ⟨u, v, rfl, hu, hv⟩; cases matches_empty.1 hu; exact hv⟩
  · rfl

theorem matches_orElse {p q : Pattern} {w : List Char} :
    Matches (p.orElse q) w ↔ Matches p w ∨ Matches q w := by
  unfold orElse
  split <;> simp [matches_alt, not_matches_never]

theorem nullable_iff {p : Pattern} : p.nullable = true ↔ Matches p [] := by
  induction p with
  | never => simp [nullable, not_matches_never]
  | empty => simp [nullable, matches_empty]
  | one => simp [nullable, matches_one]
  | seq p q hp hq =>
    rw [nullable, Bool.and_eq_true, hp, hq, matches_seq]
    refine ⟨fun h => ⟨[], [], rfl, h⟩, fun ⟨u, v, h, hu, hv⟩ => ?_⟩
    obtain ⟨rfl, rfl⟩ := List.append_eq_nil_iff.1 h.symm
    exact ⟨hu, hv⟩
  | alt p q hp hq => simp [nullable, hp, hq, matches_alt]
  | many p => simp [nullable, Matches.done]

/-- A word of a sequence takes its first character from the first part or, that being empty, from
the second. -/
theorem matches_seq_cons {p q : Pattern} {c : Char} {w : List Char} :
    Matches (seq p q) (c :: w) ↔
      (∃ u v, w = u ++ v ∧ Matches p (c :: u) ∧ Matches q v) ∨
        Matches p [] ∧ Matches q (c :: w) := by
  rw [matches_seq]
  constructor
  · rintro ⟨u, v, h, hp, hq⟩
    cases u with
    | nil => exact .inr ⟨hp, h ▸ hq⟩
    | cons d u =>
      obtain ⟨rfl, rfl⟩ := List.cons.inj h
      exact .inl ⟨u, v, rfl, hp, hq⟩
  · rintro (⟨u, v, rfl, hp, hq⟩ | ⟨hp, hq⟩)
    · exact ⟨c :: u, v, rfl, hp, hq⟩
    · exact ⟨[], c :: w, rfl, hp, hq⟩

/-- A non-empty word of a repetition starts with a non-empty word of what is repeated. -/
theorem matches_many_cons {p : Pattern} {c : Char} {w : List Char} :
    Matches (many p) (c :: w) ↔ ∃ u v, w = u ++ v ∧ Matches p (c :: u) ∧ Matches (many p) v := by
  constructor
  · intro h
    generalize hq : many p = q at h
    generalize hx : c :: w = x at h
    induction h generalizing w with
    | @more _ u v hu hv _ ih =>
      cases hq
      cases u with
      | nil => exact ih rfl hx
      | cons d u =>
        obtain ⟨rfl, rfl⟩ := List.cons.inj hx
        exact ⟨u, v, rfl, hu, hv⟩
    | done => simp at hx
    | _ => cases hq
  · rintro ⟨u, v, rfl, hp, hq⟩
    exact .more hp hq

/-- **The rest of a pattern**: its words are those that `c` completes to words of the pattern. -/
theorem matches_after {p : Pattern} {c : Char} {w : List Char} :
    Matches (p.after c) w ↔ Matches p (c :: w) := by
  induction p generalizing w with
  | never => simp [after, not_matches_never]
  | empty => simp [after, not_matches_never, matches_empty]
  | one s =>
    rw [after, matches_one]
    split
    · rw [matches_empty]
      exact ⟨fun h => ⟨c, ‹_›, h ▸ rfl⟩, fun ⟨_, _, h⟩ => (List.cons.inj h).2⟩
    · refine ⟨fun h => (not_matches_never h).elim, fun ⟨d, hd, h⟩ => ?_⟩
      obtain ⟨rfl, _⟩ := List.cons.inj h
      contradiction
  | seq p q hp hq =>
    rw [matches_seq_cons, after]
    split
    · simp_all [matches_orElse, matches_followedBy, matches_seq, nullable_iff]
    · simp_all [matches_followedBy, matches_seq, nullable_iff]
  | alt p q hp hq => simp [after, matches_orElse, matches_alt, hp, hq]
  | many p hp => simp [after, matches_followedBy, matches_seq, matches_many_cons, hp]

/-- **A pattern accepts its words and no others.** -/
theorem accepts_iff_matches {p : Pattern} {w : List Char} :
    p.accepts w = true ↔ p.Matches w := by
  induction w generalizing p with
  | nil => exact nullable_iff
  | cons c w ih => rw [← matches_after, ← ih]; rfl

end Pattern

end Lexis
