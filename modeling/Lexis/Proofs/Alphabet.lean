import Lexis.Table
import Lexis.Text.Blank
import Mathlib.Tactic.Common

/-!
# The characters of the language

The words of a pattern have characters of the pattern's sets and no others. In the language's table
these are ASCII characters that are neither blanks nor slashes, so that a word of the language is
not divided by a blank and is no part of a comment, whatever stands around it.

* `Pattern.exists_set_of_mem`: a character of a pattern's word is in one of the pattern's sets.
* `isPlain_of_classify`: **the words of the language have plain characters**.
-/

namespace Lexis

/-- A character that words of the language can have: in ASCII, not a blank, and not the slash that
comments start with. -/
def isPlain (c : Char) : Bool := Text.isAscii c && !Text.isBlank c && c != '/'

/-- Whether all the characters of a set are plain. -/
def CharSet.isPlain : CharSet → Bool
  | exactly c => Lexis.isPlain c
  | letter | digit | alphanumeric => true

/-- The sets that a pattern is made of. -/
def Pattern.sets : Pattern → List CharSet
  | never | empty => []
  | one s => [s]
  | seq p q | alt p q => p.sets ++ q.sets
  | many p => p.sets

variable {c : Char} {word : List Char}

theorem isPlain_iff : isPlain c = true ↔
    Text.isAscii c = true ∧ Text.isBlank c = false ∧ c ≠ '/' := by
  simp [isPlain, and_assoc]

theorem isPlain_of_isAlphanum (h : c.isAlphanum = true) : isPlain c = true := by
  rw [isPlain_iff]
  refine ⟨?_, ?_, ?_⟩
  · delta Char.isAlphanum Char.isAlpha Char.isUpper Char.isLower Char.isDigit at h
    simp only [Bool.or_eq_true, Bool.and_eq_true, decide_eq_true_eq, ge_iff_le,
      UInt32.le_iff_toNat_le] at h
    have hz : c.toNat ≤ 122 := by
      rcases h with ((⟨-, h⟩ | ⟨-, h⟩) | ⟨-, h⟩)
      · exact Nat.le_trans h (by decide)
      · exact h
      · exact Nat.le_trans h (by decide)
    rw [Text.isAscii, decide_eq_true_eq]
    omega
  · by_contra hblank
    rw [Bool.not_eq_false, Text.isBlank_iff] at hblank
    rcases hblank with rfl | rfl | rfl | rfl | rfl | rfl <;> revert h <;> decide
  · rintro rfl
    revert h
    decide

theorem CharSet.isPlain_of_has {s : CharSet} (h : s.isPlain = true) (hc : s.has c = true) :
    Lexis.isPlain c = true := by
  have hclass : c.isAlphanum = true → Lexis.isPlain c = true := isPlain_of_isAlphanum
  cases s with
  | exactly d =>
    have hd : c = d := by simpa [has] using hc
    rw [hd]
    exact h
  | letter => exact hclass (by rw [Char.isAlphanum, show c.isAlpha = true from hc]; rfl)
  | digit => exact hclass (by rw [Char.isAlphanum, show c.isDigit = true from hc, Bool.or_true])
  | alphanumeric => exact hclass hc

/-- **A character of a pattern's word** is in one of the pattern's sets. -/
theorem Pattern.exists_set_of_mem {p : Pattern} (h : p.Matches word) (hc : c ∈ word) :
    ∃ s ∈ p.sets, s.has c = true := by
  induction h with
  | empty => simp at hc
  | one hs =>
    obtain rfl := List.mem_singleton.1 hc
    exact ⟨_, List.mem_singleton_self _, hs⟩
  | seq _ _ ihp ihq =>
    rcases List.mem_append.1 hc with hc | hc
    · obtain ⟨s, hs, hhas⟩ := ihp hc
      exact ⟨s, List.mem_append_left _ hs, hhas⟩
    · obtain ⟨s, hs, hhas⟩ := ihq hc
      exact ⟨s, List.mem_append_right _ hs, hhas⟩
  | left _ ih =>
    obtain ⟨s, hs, hhas⟩ := ih hc
    exact ⟨s, List.mem_append_left _ hs, hhas⟩
  | right _ ih =>
    obtain ⟨s, hs, hhas⟩ := ih hc
    exact ⟨s, List.mem_append_right _ hs, hhas⟩
  | done => simp at hc
  | more _ _ ihp ihm =>
    rcases List.mem_append.1 hc with hc | hc
    · exact ihp hc
    · exact ihm hc

/-- A word has the kind of a rule whose pattern it matches. -/
theorem Table.matches_of_classify {table : Table} {kind : Kind}
    (h : table.classify word = some kind) :
    ∃ rule ∈ table.rules, rule.kind = kind ∧ rule.pattern.Matches word := by
  obtain ⟨rule, hfind, hkind⟩ := Option.map_eq_some_iff.1 h
  have haccepts := List.find?_some hfind
  exact ⟨rule, List.mem_of_find?_eq_some hfind, hkind, Pattern.accepts_iff_matches.1 haccepts⟩

theorem isPlain_of_mem_sets {kind : Kind} : ∀ s ∈ kind.pattern.sets, s.isPlain = true := by
  cases kind <;> exact List.all_eq_true.1 rfl

/-- **The words of the language have plain characters.** -/
theorem isPlain_of_classify {kind : Kind} (h : Table.standard.classify word = some kind) :
    ∀ c ∈ word, isPlain c = true := by
  intro c hc
  obtain ⟨rule, hrule, -, hmatches⟩ := Table.matches_of_classify h
  obtain ⟨kind', -, rfl⟩ := List.mem_map.1 hrule
  obtain ⟨s, hs, hhas⟩ := Pattern.exists_set_of_mem hmatches hc
  exact CharSet.isPlain_of_has (isPlain_of_mem_sets s hs) hhas

theorem ne_nil_of_classify {kind : Kind} (h : Table.standard.classify word = some kind) :
    word ≠ [] := by
  rintro rfl
  have hnil : Table.standard.classify [] = none := by decide
  rw [hnil] at h
  cases h

end Lexis
