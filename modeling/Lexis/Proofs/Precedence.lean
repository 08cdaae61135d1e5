import Lexis.Proofs.Grammar
import Mathlib.Data.List.Basic

/-!
# The order of the rules

A word has the kind of the first rule that accepts it, so the order of two rules matters where one
word fits both kinds. What a word starts with keeps most kinds apart.

* `Kind.overlap`: **two kinds that one word fits** are a keyword, an identifier or a character.
* `Ordered.find?_eq_some_iff`: in a good order the kind that is found does not depend on the order.
* `precedence_standard`: **the rules of the language may stand in any order** in which a keyword is
  told before an identifier and an identifier before a character, and in no other.
-/

namespace Lexis

/-! ## Kinds that share words -/

/-- What a word can start with. -/
inductive Start where
  | letter
  | digit
  | quote
  | sign
deriving DecidableEq, Repr

/-- What a character can start. -/
def Start.ofChar (c : Char) : Start :=
  if IsLetter c then letter
  else if IsDigit c then digit
  else if c = '"' ∨ c = '\'' then quote
  else sign

/-- What the words of a kind start with. -/
def Kind.start : Kind → Start
  | keyword | identifier | character => .letter
  | string => .quote
  | integer | decimal => .digit
  | operator => .sign

variable {w word : List Char} {kind kind' : Kind} {kinds kinds' : List Kind}

theorem Start.ofChar_of_isDigit {c : Char} (h : IsDigit c) : ofChar c = digit := by
  have hletter : ¬ IsLetter c := by
    obtain ⟨-, hle⟩ := h
    have hlast : c.toNat ≤ 57 := hle
    rintro (⟨hge, -⟩ | ⟨hge, -⟩)
    · have hfirst : 65 ≤ c.toNat := hge
      omega
    · have hfirst : 97 ≤ c.toNat := hge
      omega
  unfold ofChar
  rw [if_neg hletter, if_pos h]

theorem IsNumber.start (h : IsNumber w) : w.head?.map Start.ofChar = some .digit := by
  obtain ⟨hne, hdigits⟩ := h
  obtain ⟨c, rest, rfl⟩ := List.exists_cons_of_ne_nil hne
  exact congrArg some (Start.ofChar_of_isDigit (hdigits c List.mem_cons_self))

/-- **What a word starts with** is told by each kind that it fits. -/
theorem Kind.start_of_fits (h : kind.Fits w) : w.head?.map Start.ofChar = some kind.start := by
  -- the words of a list are looked at one by one
  have hlist : ∀ {texts : List String} {start : Start},
      (∀ text ∈ texts, text.toList.head?.map Start.ofChar = some start) →
      String.ofList w ∈ texts → w.head?.map Start.ofChar = some start := by
    intro texts start hall hw
    have hstart := hall _ hw
    rwa [String.toList_ofList] at hstart
  cases kind with
  | keyword => exact hlist (by decide) h
  | identifier =>
    obtain ⟨c, rest, rfl, hc, -⟩ := h
    exact congrArg some (if_pos hc)
  | character =>
    obtain ⟨c, rfl, hc⟩ := h
    exact congrArg some (if_pos hc)
  | string =>
    obtain ⟨quote, letters, hquote, -, -, rfl⟩ := h
    rcases hquote with rfl | rfl
    · rfl
    · rfl
  | integer => exact IsNumber.start h
  | decimal =>
    obtain ⟨whole, part, hwhole, -, rfl⟩ := h
    rw [List.head?_append_of_ne_nil _ hwhole.1]
    exact hwhole.start
  | operator => exact hlist (by decide) h

/-- A point is no digit. -/
theorem Kind.not_integer_of_decimal (h : decimal.Fits w) : ¬ integer.Fits w := by
  obtain ⟨whole, part, -, -, rfl⟩ := h
  rintro ⟨-, hdigits⟩
  exact absurd (hdigits '.' (by simp)) (by decide)

theorem Kind.identifier_of_keyword (h : keyword.Fits w) : identifier.Fits w := by
  have hall : ∀ text ∈ ["f", "if", "else", "elif", "type", "operator"],
      identifier.Fits text.toList := by decide
  have hfits := hall _ h
  rwa [String.toList_ofList] at hfits

/-- Kinds whose words start alike start with a letter or are the two sorts of numbers. -/
theorem Kind.cases_of_start_eq (h : kind.start = kind'.start) (hne : kind ≠ kind') :
    (kind.start = .letter ∧ kind'.start = .letter) ∨ (kind = integer ∧ kind' = decimal) ∨
      (kind = decimal ∧ kind' = integer) := by
  cases kind <;> cases kind' <;> simp_all [start]

theorem Kind.mem_of_start (h : kind.start = .letter) :
    kind ∈ [keyword, identifier, character] := by
  cases kind <;> simp_all [start]

/-- **Two kinds that one word fits** are a keyword, an identifier or a character. -/
theorem Kind.overlap (hne : kind ≠ kind') (h : kind.Fits w) (h' : kind'.Fits w) :
    kind ∈ [keyword, identifier, character] ∧ kind' ∈ [keyword, identifier, character] := by
  have hstart : kind.start = kind'.start :=
    Option.some.inj ((start_of_fits h).symm.trans (start_of_fits h'))
  rcases cases_of_start_eq hstart hne with ⟨hletter, hletter'⟩ | ⟨rfl, rfl⟩ | ⟨rfl, rfl⟩
  · exact ⟨mem_of_start hletter, mem_of_start hletter'⟩
  · exact absurd h (not_integer_of_decimal h')
  · exact absurd h' (not_integer_of_decimal h)

/-! ## Kinds in a good order -/

/-- **The kind that a word has**: it fits the kind, which is an identifier only if the word is no
keyword, and which is never a character. -/
structure Kind.Told (kind : Kind) (word : List Char) : Prop where
  fits : kind.Fits word
  notKeyword : kind = identifier → ¬ keyword.Fits word
  notCharacter : kind ≠ character

/-- A word has one kind. -/
theorem Kind.Told.unique (h : kind.Told word) (h' : kind'.Told word) : kind = kind' := by
  by_contra hne
  obtain ⟨hmem, hmem'⟩ := overlap hne h.fits h'.fits
  have hcases : ∀ {kind : Kind}, kind.Told word → kind ∈ [keyword, identifier, character] →
      kind = keyword ∨ kind = identifier := by
    intro kind hkind hmem
    simpa [hkind.notCharacter] using hmem
  rcases hcases h hmem with rfl | rfl
  · rcases hcases h' hmem' with rfl | rfl
    · exact hne rfl
    · exact h'.notKeyword rfl h.fits
  · rcases hcases h' hmem' with rfl | rfl
    · exact h.notKeyword rfl h'.fits
    · exact hne rfl

/-- **Kinds in a good order**: none is missing but perhaps the character, a keyword comes before an
identifier and an identifier before a character. What is missing comes last. -/
structure Ordered (kinds : List Kind) : Prop where
  mem : ∀ kind, kind ≠ .character → kind ∈ kinds
  keyword : kinds.idxOf .keyword < kinds.idxOf .identifier
  character : kinds.idxOf .identifier < kinds.idxOf .character

/-- **What is found first** comes before all else that could be found. -/
theorem idxOf_lt_of_find? {α : Type} [DecidableEq α] {p : α → Bool} {l : List α} {a b : α}
    (h : l.find? p = some a) (hb : p b = true) (hne : a ≠ b) : l.idxOf a < l.idxOf b := by
  obtain ⟨ha, before, behind, rfl, hbefore⟩ := List.find?_eq_some_iff_append.1 h
  have hnot : ∀ c, p c = true → c ∉ before := by
    intro c hc hmem
    have := hbefore c hmem
    rw [hc] at this
    cases this
  rw [List.idxOf_append_of_notMem (hnot a ha), List.idxOf_append_of_notMem (hnot b hb),
    List.idxOf_cons_self, List.idxOf_cons_ne _ hne]
  omega

/-- **In a good order** the kind that is found is the kind that the word has. -/
theorem Ordered.find?_eq_some_iff (h : Ordered kinds) :
    kinds.find? (·.Fits word) = some kind ↔ kind.Told word := by
  have htold : ∀ {kind}, kinds.find? (·.Fits word) = some kind → kind.Told word := by
    intro kind hfind
    have hfits : kind.Fits word := by simpa using List.find?_some hfind
    have hlt : ∀ other : Kind, other.Fits word → kind ≠ other →
        kinds.idxOf kind < kinds.idxOf other :=
      fun other hother hne => idxOf_lt_of_find? hfind (by simpa using hother) hne
    refine ⟨hfits, ?_, ?_⟩
    · rintro rfl hkeyword
      have := hlt .keyword hkeyword (by decide)
      have := h.keyword
      omega
    · rintro rfl
      have := hlt .identifier (Kind.identifier_of_character hfits) (by decide)
      have := h.character
      omega
  refine ⟨htold, ?_⟩
  intro hkind
  cases hfind : kinds.find? (·.Fits word) with
  | none =>
    have hnone := List.find?_eq_none.1 hfind kind (h.mem kind hkind.notCharacter)
    exact absurd hkind.fits (by simpa using hnone)
  | some other => rw [(htold hfind).unique hkind]

/-- So all tables of kinds in a good order tell the same. -/
theorem Ordered.classify_eq (h : Ordered kinds) (h' : Ordered kinds') (word : List Char) :
    (Table.ofKinds kinds).classify word = (Table.ofKinds kinds').classify word := by
  rw [Table.classify_ofKinds, Table.classify_ofKinds]
  apply Option.ext
  intro kind
  rw [h.find?_eq_some_iff, h'.find?_eq_some_iff]

theorem ordered_all : Ordered Kind.all := by
  refine ⟨?_, by decide, by decide⟩
  intro kind _
  cases kind <;> decide

/-! ## Tables -/

/-- The kinds that a table tells, in the order of its rules. -/
def Table.order (table : Table) : List Kind := table.rules.map (·.kind)

/-- A table with rules of the language is a table of its kinds. -/
theorem Table.eq_ofKinds {table : Table} (h : ∀ rule ∈ table.rules, rule ∈ Table.standard.rules) :
    table = ofKinds table.order := by
  have hrules : ∀ rule ∈ table.rules, (⟨rule.kind, rule.kind.pattern⟩ : Rule) = rule := by
    intro rule hrule
    obtain ⟨kind, -, rfl⟩ := List.mem_map.1 (h rule hrule)
    rfl
  obtain ⟨rules⟩ := table
  unfold ofKinds order
  rw [List.map_map, Table.mk.injEq]
  calc rules
    _ = rules.map id := (List.map_id rules).symm
    _ = _ := List.map_congr_left fun rule hrule => (hrules rule hrule).symm

/-- **A word that fits two kinds** shows which of them a table asks for first. -/
theorem Table.idxOf_lt_of_classify {table : Table}
    (h : ∀ rule ∈ table.rules, rule ∈ Table.standard.rules)
    (hkind : table.classify word = some kind) (hfits : kind'.Fits word) (hne : kind ≠ kind') :
    table.order.idxOf kind < table.order.idxOf kind' := by
  rw [eq_ofKinds h, classify_ofKinds] at hkind
  exact idxOf_lt_of_find? hkind (by simpa using hfits) hne

/-- The rules of the language in a good order tell what they tell in their own. -/
theorem Table.classify_of_perm {table : Table} (hperm : table.rules.Perm Table.standard.rules)
    (hkeyword : table.order.idxOf .keyword < table.order.idxOf .identifier)
    (hcharacter : table.order.idxOf .identifier < table.order.idxOf .character)
    (word : List Char) : table.classify word = Table.standard.classify word := by
  have hordered : Ordered table.order := by
    refine ⟨?_, hkeyword, hcharacter⟩
    intro kind hkind
    exact (hperm.map (·.kind)).mem_iff.2 (ordered_all.mem kind hkind)
  rw [eq_ofKinds fun rule hrule => hperm.subset hrule]
  exact hordered.classify_eq ordered_all word

/-- **Which part of the order matters.** Two rules of the language that accept one word are among
those for keywords, identifiers and characters, and the rule for identifiers accepts all that the
two others accept. So the rules may be put in any order: words keep their kinds exactly if the rule for
keywords still stands before that for identifiers, and this before that for characters. And words
keep their kinds without the rule for characters. -/
theorem precedence_standard :
    (∀ word, ∀ rule ∈ Table.standard.rules, ∀ rule' ∈ Table.standard.rules, rule ≠ rule' →
      rule.pattern.accepts word = true → rule'.pattern.accepts word = true →
      rule.kind ∈ [.keyword, .identifier, .character] ∧
        rule'.kind ∈ [.keyword, .identifier, .character]) ∧
    (∀ word, Kind.keyword.pattern.accepts word = true ∨
        Kind.character.pattern.accepts word = true →
      Kind.identifier.pattern.accepts word = true) ∧
    (∀ table : Table, table.rules.Perm Table.standard.rules →
      ((∀ word, table.classify word = Table.standard.classify word) ↔
        table.order.idxOf .keyword < table.order.idxOf .identifier ∧
          table.order.idxOf .identifier < table.order.idxOf .character)) ∧
    ∀ word, (Table.mk (Table.standard.rules.filter (·.kind ≠ .character))).classify word =
      Table.standard.classify word := by
  refine ⟨?_, ?_, ?_, ?_⟩
  · intro word rule hrule rule' hrule' hne h h'
    obtain ⟨kind, -, rfl⟩ := List.mem_map.1 hrule
    obtain ⟨kind', -, rfl⟩ := List.mem_map.1 hrule'
    rw [Kind.accepts_iff_fits] at h h'
    apply Kind.overlap ?_ h h'
    rintro rfl
    exact hne rfl
  · intro word
    rw [Kind.accepts_iff_fits, Kind.accepts_iff_fits, Kind.accepts_iff_fits]
    rintro (hkeyword | hcharacter)
    · exact Kind.identifier_of_keyword hkeyword
    · exact Kind.identifier_of_character hcharacter
  · intro table hperm
    constructor
    · intro hsame
      have hfirst : ∀ {word : List Char} {kind kind' : Kind},
          Table.standard.classify word = some kind → kind'.Fits word → kind ≠ kind' →
          table.order.idxOf kind < table.order.idxOf kind' := by
        intro word kind kind' hkind
        rw [← hsame] at hkind
        exact Table.idxOf_lt_of_classify (fun rule hrule => hperm.subset hrule) hkind
      exact ⟨@hfirst "if".toList .keyword .identifier (by decide) (by decide) (by decide),
        @hfirst "x".toList .identifier .character (by decide) (by decide) (by decide)⟩
    · rintro ⟨hkeyword, hcharacter⟩ word
      exact Table.classify_of_perm hperm hkeyword hcharacter word
  · have hordered : Ordered [.keyword, .identifier, .string, .integer, .decimal, .operator] := by
      refine ⟨?_, by decide, by decide⟩
      intro kind hkind
      cases kind <;> simp_all
    intro word
    exact hordered.classify_eq ordered_all word

/-- Read from the last rule to the first but for the three whose order counts, the table tells the
same; with the rule for identifiers before that for keywords it does not. -/
theorem precedence_standard_reversed :
    let reversed := Table.ofKinds
      [.operator, .decimal, .integer, .string, .keyword, .identifier, .character]
    let swapped := Table.ofKinds
      [.identifier, .keyword, .character, .string, .integer, .decimal, .operator]
    reversed.rules.Perm Table.standard.rules ∧ swapped.rules.Perm Table.standard.rules ∧
      (∀ word, reversed.classify word = Table.standard.classify word) ∧
      ¬ (∀ word, swapped.classify word = Table.standard.classify word) ∧
      Kind.identifier.pattern.accepts "elif".toList = true := by
  intro reversed swapped
  obtain ⟨-, hidentifier, hperm, -⟩ := precedence_standard
  have hreversed : reversed.rules.Perm Table.standard.rules := by decide
  have hswapped : swapped.rules.Perm Table.standard.rules := by decide
  refine ⟨hreversed, hswapped, (hperm reversed hreversed).2 (by decide), ?_, ?_⟩
  · rw [hperm swapped hswapped]
    decide
  · exact hidentifier _ (.inl (by decide))

end Lexis
