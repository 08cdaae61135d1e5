import Lexis.Table
import Mathlib.Tactic.Common

/-!
# The words of each kind

A kind has a pattern that decides which words fit it. `Kind.Fits` says the same of the characters of
a word, and `Kind.ofWord?` asks for one kind after the other.

* `Pattern.matches_oneOf`, `Pattern.matches_plus_one`, `Pattern.matches_quotation`: the words of the
  patterns that those of the language are made of.
* `Kind.accepts_iff_fits`: **a kind's pattern accepts the words that fit the kind** and no others.
* `Table.classify_ofKinds_cons`: a table of kinds asks for the first kind first.
* `classify_standard`: **the language's table tells the kind of each word**, and never a character.
-/

namespace Lexis

/-! ## What fits a kind -/

/-- A letter from `A` to `Z` or from `a` to `z`. -/
def IsLetter (c : Char) : Prop := ('A' ≤ c ∧ c ≤ 'Z') ∨ ('a' ≤ c ∧ c ≤ 'z')

/-- A digit from `0` to `9`. -/
def IsDigit (c : Char) : Prop := '0' ≤ c ∧ c ≤ '9'

/-- One or more digits. -/
def IsNumber (word : List Char) : Prop := word ≠ [] ∧ ∀ c ∈ word, IsDigit c

/-- **Whether a word fits a kind**, told by its characters. -/
def Kind.Fits : Kind → List Char → Prop
  | keyword, word => String.ofList word ∈ ["f", "if", "else", "elif", "type", "operator"]
  | identifier, word =>
    ∃ c rest, word = c :: rest ∧ IsLetter c ∧ ∀ d ∈ rest, IsLetter d ∨ IsDigit d
  | character, word => ∃ c, word = [c] ∧ IsLetter c
  | string, word => ∃ quote letters, (quote = '"' ∨ quote = '\'') ∧ letters ≠ [] ∧
      (∀ c ∈ letters, IsLetter c) ∧ word = quote :: letters ++ [quote]
  | integer, word => IsNumber word
  | decimal, word => ∃ whole part, IsNumber whole ∧ IsNumber part ∧ word = whole ++ '.' :: part
  | operator, word =>
    String.ofList word ∈ ["==", "<=", ">=", "<>", "<", ">", "||", "&&", "!"]

variable {w : List Char} {c : Char}

instance : DecidablePred IsLetter := fun _ => inferInstanceAs (Decidable (_ ∨ _))

instance : DecidablePred IsDigit := fun _ => inferInstanceAs (Decidable (_ ∧ _))

theorem CharSet.has_letter : letter.has c = true ↔ IsLetter c := by
  show c.isAlpha = true ↔ _
  delta Char.isAlpha Char.isUpper Char.isLower
  simp [IsLetter, Char.le_def]

theorem CharSet.has_digit : digit.has c = true ↔ IsDigit c := by
  show c.isDigit = true ↔ _
  delta Char.isDigit
  simp [IsDigit, Char.le_def]

theorem CharSet.has_alphanumeric : alphanumeric.has c = true ↔ IsLetter c ∨ IsDigit c := by
  rw [← has_letter, ← has_digit, ← Bool.or_eq_true]
  rfl

/-! ## The words of patterns -/

namespace Pattern

theorem matches_exactly : Matches (one (.exactly c)) w ↔ w = [c] := by
  rw [matches_one]
  constructor
  · rintro ⟨d, hd, rfl⟩
    have hdc : d = c := by simpa [CharSet.has] using hd
    rw [hdc]
  · rintro rfl
    exact ⟨c, by simp [CharSet.has], rfl⟩

theorem matches_word {text : List Char} : Matches (word text) w ↔ w = text := by
  induction text generalizing w with
  | nil => exact matches_empty
  | cons c text ih =>
    have hword : word (c :: text) = seq (one (.exactly c)) (word text) := rfl
    rw [hword, matches_seq]
    constructor
    · rintro ⟨u, v, rfl, hu, hv⟩
      rw [matches_exactly.1 hu, ih.1 hv]
      rfl
    · rintro rfl
      exact ⟨[c], text, rfl, matches_exactly.2 rfl, ih.2 rfl⟩

/-- **A choice of words** has these words. -/
theorem matches_oneOf {texts : List String} (hne : texts ≠ []) :
    Matches (oneOf texts) w ↔ String.ofList w ∈ texts := by
  have hword : ∀ text : String, Matches (word text.toList) w ↔ String.ofList w = text := by
    intro text
    rw [matches_word]
    constructor
    · rintro rfl
      exact String.ofList_toList
    · rintro rfl
      exact String.toList_ofList.symm
  induction texts with
  | nil => exact absurd rfl hne
  | cons text texts ih =>
    cases texts with
    | nil => rw [oneOf, hword, List.mem_singleton]
    | cons next texts =>
      have hcons : oneOf (text :: next :: texts) =
          (word text.toList).alt (oneOf (next :: texts)) := rfl
      rw [hcons, matches_alt, hword, List.mem_cons]
      exact or_congr_right (ih (by simp))

theorem matches_many_one {s : CharSet} :
    Matches (many (one s)) w ↔ ∀ c ∈ w, s.has c = true := by
  induction w with
  | nil => exact iff_of_true .done (by simp)
  | cons c w ih =>
    rw [matches_many_cons, List.forall_mem_cons, ← ih]
    constructor
    · rintro ⟨u, v, rfl, hu, hv⟩
      obtain ⟨d, hd, hcu⟩ := matches_one.1 hu
      obtain ⟨rfl, rfl⟩ := List.cons.inj hcu
      exact ⟨hd, hv⟩
    · rintro ⟨hc, hw⟩
      exact ⟨[], w, rfl, .one hc, hw⟩

/-- **One character of a set or more.** -/
theorem matches_plus_one {s : CharSet} :
    Matches (plus (one s)) w ↔ w ≠ [] ∧ ∀ c ∈ w, s.has c = true := by
  rw [plus, matches_seq]
  constructor
  · rintro ⟨u, v, rfl, hu, hv⟩
    obtain ⟨c, hc, rfl⟩ := matches_one.1 hu
    exact ⟨by simp, List.forall_mem_cons.2 ⟨hc, matches_many_one.1 hv⟩⟩
  · rintro ⟨hne, hw⟩
    obtain ⟨c, rest, rfl⟩ := List.exists_cons_of_ne_nil hne
    obtain ⟨hc, hrest⟩ := List.forall_mem_cons.1 hw
    exact ⟨[c], rest, rfl, .one hc, matches_many_one.2 hrest⟩

/-- **Letters between two quotes of one sort.** -/
theorem matches_quotation {quote : Char} : Matches (quotation quote) w ↔
    ∃ letters, letters ≠ [] ∧ (∀ c ∈ letters, IsLetter c) ∧ w = quote :: letters ++ [quote] := by
  simp only [← CharSet.has_letter]
  rw [quotation, matches_seq]
  constructor
  · rintro ⟨first, rest, rfl, hfirst, hrest⟩
    obtain ⟨letters, last, rfl, hletters, hlast⟩ := matches_seq.1 hrest
    obtain ⟨hne, hall⟩ := matches_plus_one.1 hletters
    rw [matches_exactly.1 hfirst, matches_exactly.1 hlast]
    exact ⟨letters, hne, hall, rfl⟩
  · rintro ⟨letters, hne, hall, rfl⟩
    exact ⟨[quote], letters ++ [quote], rfl, matches_exactly.2 rfl,
      .seq (matches_plus_one.2 ⟨hne, hall⟩) (matches_exactly.2 rfl)⟩

theorem matches_number : Matches (plus (one .digit)) w ↔ IsNumber w := by
  rw [matches_plus_one, IsNumber]
  simp only [CharSet.has_digit]

end Pattern

open Pattern

/-- **The words of a kind's pattern** are those that fit the kind. -/
theorem Kind.matches_iff_fits {kind : Kind} : kind.pattern.Matches w ↔ kind.Fits w := by
  cases kind with
  | keyword => exact matches_oneOf (by simp)
  | identifier =>
    rw [Kind.pattern, matches_seq, Fits]
    simp only [matches_one, matches_many_one, CharSet.has_letter, CharSet.has_alphanumeric]
    constructor
    · rintro ⟨u, rest, rfl, ⟨c, hc, rfl⟩, hrest⟩
      exact ⟨c, rest, rfl, hc, hrest⟩
    · rintro ⟨c, rest, rfl, hc, hrest⟩
      exact ⟨[c], rest, rfl, ⟨c, hc, rfl⟩, hrest⟩
  | character =>
    rw [Kind.pattern, matches_one, Fits]
    simp only [CharSet.has_letter, and_comm]
  | string =>
    rw [Kind.pattern, matches_alt, matches_quotation, matches_quotation, Fits]
    constructor
    · rintro (⟨letters, h⟩ | ⟨letters, h⟩)
      · exact ⟨'"', letters, .inl rfl, h⟩
      · exact ⟨'\'', letters, .inr rfl, h⟩
    · rintro ⟨quote, letters, rfl | rfl, h⟩
      · exact .inl ⟨letters, h⟩
      · exact .inr ⟨letters, h⟩
  | integer => exact matches_number
  | decimal =>
    rw [Kind.pattern, matches_seq, Fits]
    constructor
    · rintro ⟨whole, rest, rfl, hwhole, hrest⟩
      obtain ⟨point, part, rfl, hpoint, hpart⟩ := matches_seq.1 hrest
      rw [matches_exactly.1 hpoint]
      exact ⟨whole, part, matches_number.1 hwhole, matches_number.1 hpart, rfl⟩
    · rintro ⟨whole, part, hwhole, hpart, rfl⟩
      exact ⟨whole, '.' :: part, rfl, matches_number.2 hwhole,
        @Matches.seq _ _ ['.'] _ (matches_exactly.2 rfl) (matches_number.2 hpart)⟩
  | operator => exact matches_oneOf (by simp)

/-- **A kind's pattern accepts the words that fit the kind.** -/
theorem Kind.accepts_iff_fits {kind : Kind} : kind.pattern.accepts w = true ↔ kind.Fits w := by
  rw [accepts_iff_matches, matches_iff_fits]

/-- What fits a kind is decided by the kind's pattern. -/
instance (kind : Kind) : DecidablePred kind.Fits :=
  fun _ => decidable_of_iff _ Kind.accepts_iff_fits

/-- A single letter is a name, too. -/
theorem Kind.identifier_of_character (h : character.Fits w) : identifier.Fits w := by
  obtain ⟨c, rfl, hc⟩ := h
  exact ⟨c, [], rfl, hc, by simp⟩

/-! ## The kind of a word -/

/-- The kind of a word: the first of these that the word fits. -/
def Kind.ofWord? (word : List Char) : Option Kind :=
  if keyword.Fits word then some keyword
  else if identifier.Fits word then some identifier
  else if string.Fits word then some string
  else if integer.Fits word then some integer
  else if decimal.Fits word then some decimal
  else if operator.Fits word then some operator
  else none

/-- The rules of some kinds in their order. -/
def Table.ofKinds (kinds : List Kind) : Table := ⟨kinds.map fun kind => ⟨kind, kind.pattern⟩⟩

theorem Table.classify_ofKinds (kinds : List Kind) (word : List Char) :
    (ofKinds kinds).classify word = kinds.find? (·.Fits word) := by
  have haccepts : (fun rule : Rule => rule.pattern.accepts word) ∘ (fun kind => ⟨kind, kind.pattern⟩)
      = fun kind : Kind => decide (kind.Fits word) := by
    funext kind
    rw [Bool.eq_iff_iff, decide_eq_true_iff]
    exact Kind.accepts_iff_fits
  unfold classify ofKinds
  rw [List.find?_map, haccepts, Option.map_map]
  exact Option.map_id'

/-- A table of kinds asks for the first kind first. -/
theorem Table.classify_ofKinds_cons (kind : Kind) (kinds : List Kind) (word : List Char) :
    (ofKinds (kind :: kinds)).classify word =
      if kind.Fits word then some kind else (ofKinds kinds).classify word := by
  rw [classify_ofKinds, classify_ofKinds]
  by_cases h : kind.Fits word
  · rw [if_pos h, List.find?_cons_of_pos (by simpa using h)]
  · rw [if_neg h, List.find?_cons_of_neg (by simpa using h)]

/-- **The language's table tells the kind of each word** by the word's characters, whatever they are.
The rule for single letters comes too late to tell any. -/
theorem classify_standard (word : List Char) :
    Table.standard.classify word = Kind.ofWord? word ∧
      Table.standard.classify word ≠ some .character := by
  have hclassify : Table.standard.classify word = Kind.ofWord? word := by
    have hstandard : Table.standard = .ofKinds [.keyword, .identifier, .character, .string,
      .integer, .decimal, .operator] := rfl
    rw [hstandard, Kind.ofWord?]
    simp only [Table.classify_ofKinds_cons]
    by_cases hname : Kind.identifier.Fits word
    · rw [if_pos hname, if_pos hname]
    · rw [if_neg hname, if_neg hname, if_neg (mt Kind.identifier_of_character hname)]
      rfl
  refine ⟨hclassify, ?_⟩
  rw [hclassify]
  unfold Kind.ofWord?
  split_ifs <;> simp

example : Kind.ofWord? "1.5\n".toList = none ∧ Kind.ofWord? "elif".toList = some .keyword := by
  decide

end Lexis
