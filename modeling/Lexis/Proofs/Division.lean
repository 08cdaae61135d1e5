import Lexis.Comment
import Lexis.Text.Blank
import Mathlib.Data.List.TakeWhile
import Mathlib.Tactic.Common

/-!
# The division of a text into comments and code

`Divides` states what it means for a text to be divided at its comments, by what stands where and
without any search.

* `divides_iff`: **there is one such division**, the one that the search from left to right finds.
* `not_occurs_strip`: a text without its line comments has none left, although its parts have moved
  together.
* `not_occurs_strip_block`: nor is there a comment of either style after the block comments have gone
  as well.
-/

namespace Lexis.Comment

section

variable {α : Type} {a b c : α} {l m : List α}

theorem pair_infix_cons : [a, b] <:+: c :: l ↔ (a = c ∧ l.head? = some b) ∨ [a, b] <:+: l := by
  rw [List.infix_cons_iff, List.cons_prefix_cons, List.singleton_prefix_iff_head?_eq_some]

/-- **A pair in two parts** stands in one of them or across the seam. -/
theorem pair_infix_append : [a, b] <:+: l ++ m ↔
    [a, b] <:+: l ∨ [a, b] <:+: m ∨ (l.getLast? = some a ∧ m.head? = some b) := by
  induction l with
  | nil => simp
  | cons c l ih =>
    rw [List.cons_append, pair_infix_cons, pair_infix_cons, ih]
    cases l with
    | nil =>
      have hc : (a = c ∧ m.head? = some b) ↔ (some c = some a ∧ m.head? = some b) := by
        rw [Option.some.injEq, eq_comm]
      rw [List.nil_append, hc, List.getLast?_singleton, List.head?_nil]
      simp [or_comm]
    | cons d l =>
      rw [List.getLast?_cons_cons, List.cons_append, List.head?_cons, List.head?_cons, or_assoc]

/-- A pair does not reach across a character that it does not have. -/
theorem pair_infix_append_cons (ha : c ≠ a) (hb : c ≠ b) :
    [a, b] <:+: l ++ c :: m ↔ [a, b] <:+: l ∨ [a, b] <:+: m := by
  rw [pair_infix_append, pair_infix_cons, List.head?_cons, Option.some.injEq]
  constructor
  · rintro (h | (⟨rfl, -⟩ | h) | ⟨-, rfl⟩)
    · exact .inl h
    · exact absurd rfl ha
    · exact .inr h
    · exact absurd rfl hb
  · rintro (h | h)
    · exact .inl h
    · exact .inr (.inl (.inr h))

/-- What starts neither in the first part of a text nor across the seam stands in the second. -/
theorem infix_of_infix_append {n : List α} (h : ¬ [a, b] <:+: l)
    (hseam : ¬ (l.getLast? = some a ∧ m.head? = some b)) (hn : a :: b :: n <:+: l ++ m) :
    a :: b :: n <:+: m := by
  induction l with
  | nil => exact hn
  | cons c l ih =>
    rw [pair_infix_cons, not_or] at h
    rw [List.cons_append] at hn
    rcases List.infix_cons_iff.1 hn with hn | hn
    · obtain ⟨rfl, htail⟩ := List.cons_prefix_cons.1 hn
      cases l with
      | nil =>
        obtain ⟨t, rfl⟩ := htail
        exact absurd ⟨rfl, rfl⟩ hseam
      | cons d l =>
        rw [List.cons_append] at htail
        obtain ⟨rfl, -⟩ := List.cons_prefix_cons.1 htail
        exact absurd ⟨rfl, rfl⟩ h.1
    · refine ih h.2 (fun hla => hseam ⟨?_, hla.2⟩) hn
      rw [List.getLast?_cons, hla.1]; rfl

end

theorem splitPair?_eq_none_iff {a b : Char} {seen text : List Char} :
    splitPair? a b seen text = none ↔ ¬ [a, b] <:+: text := by
  fun_induction splitPair? a b seen text with
  | case1 seen c d rest hcd =>
    obtain ⟨rfl, rfl⟩ := hcd
    simp [pair_infix_cons]
  | case2 seen c d rest hcd ih =>
    rw [ih, pair_infix_cons (c := c), List.head?_cons, Option.some.injEq, eq_comm (a := a),
      or_iff_right hcd]
  | case3 seen text hnot =>
    refine iff_of_true rfl fun h => ?_
    obtain ⟨s, t, h⟩ := h
    cases s with
    | nil => exact hnot _ _ _ h.symm
    | cons c s =>
      obtain ⟨d, l, hd⟩ := List.exists_cons_of_ne_nil (l := s ++ [a, b] ++ t) (by simp)
      exact hnot c d l (by rw [← h, ← hd]; rfl)

theorem splitPair?_append {a b : Char} {before behind : List Char} (seen : List Char)
    (h : ¬ [a, b] <:+: before ++ [a]) :
    splitPair? a b seen (before ++ a :: b :: behind) =
      some (seen.reverse ++ before, behind) := by
  induction before generalizing seen with
  | nil => simp [splitPair?]
  | cons c before ih =>
    rw [List.cons_append, pair_infix_cons, not_or] at h
    have key := ih (c :: seen) h.2
    cases before with
    | nil =>
      rw [List.nil_append] at key
      rw [List.cons_append, List.nil_append, splitPair?, if_neg, key]
      · simp
      · rintro ⟨rfl, hab⟩; exact h.1 ⟨rfl, by simp [hab]⟩
    | cons d before =>
      rw [List.cons_append, List.cons_append, splitPair?, if_neg, ← List.cons_append, key]
      · simp
      · rintro ⟨rfl, rfl⟩; exact h.1 ⟨rfl, rfl⟩

theorem splitPair?_first {a b : Char} {seen text before behind : List Char}
    (h : splitPair? a b seen text = some (before, behind)) :
    ∃ passed, before = seen.reverse ++ passed ∧ text = passed ++ a :: b :: behind ∧
      ¬ [a, b] <:+: passed ++ [a] := by
  fun_induction splitPair? a b seen text with
  | case1 seen c d rest hcd =>
    obtain ⟨rfl, rfl⟩ := hcd
    cases h
    exact ⟨[], by simp, rfl, by simp [pair_infix_cons]⟩
  | case2 seen c d rest hcd ih =>
    obtain ⟨passed, hbefore, htext, hpair⟩ := ih h
    refine ⟨c :: passed, by simp [hbefore], by rw [htext]; rfl, ?_⟩
    rw [List.cons_append, pair_infix_cons, not_or]
    refine ⟨?_, hpair⟩
    rintro ⟨rfl, hhead⟩
    -- the character behind `c` is the second of the pair, against the choice of this case
    have hd := congrArg List.head? htext
    rw [List.head?_cons, List.head?_append] at hd
    rw [List.head?_append, List.head?_cons] at hhead
    rw [List.head?_cons, hhead, Option.some.injEq] at hd
    exact hcd ⟨rfl, hd⟩
  | case3 => cases h

/-- **The first place of a pair**: it does not start anywhere before. -/
theorem splitPair?_eq_some_iff {a b : Char} {text before behind : List Char} :
    splitPair? a b [] text = some (before, behind) ↔
      text = before ++ a :: b :: behind ∧ ¬ [a, b] <:+: before ++ [a] := by
  constructor
  · intro h
    obtain ⟨passed, rfl, htext, hpair⟩ := splitPair?_first h
    exact ⟨htext, hpair⟩
  · rintro ⟨rfl, h⟩
    exact splitPair?_append [] h

/-- The two characters that open a comment. -/
def Style.opener : Style → List Char
  | line => ['/', '/']
  | block => ['/', '*']

/-- An opener is a slash and another character that is not a blank. -/
theorem Style.opener_eq (style : Style) :
    ∃ c, style.opener = ['/', c] ∧ Text.isBlank c = false := by
  cases style with
  | line => exact ⟨'/', rfl, rfl⟩
  | block => exact ⟨'*', rfl, rfl⟩

/-- **A comment**, where `rest` stands behind it. A line comment goes on to a line feed, which is
part of it, or to the end of the text. A block comment goes on to the first star and slash that
stand behind its opener. -/
def Style.IsComment : Style → (comment rest : List Char) → Prop
  | line, comment, rest => ∃ body, '\n' ∉ body ∧
      (comment = '/' :: '/' :: body ++ ['\n'] ∨ (comment = '/' :: '/' :: body ∧ rest = []))
  | block, comment, _ => ∃ body, ¬ ['*', '/'] <:+: body ++ ['*'] ∧
      comment = '/' :: '*' :: body ++ ['*', '/']

/-- A text has a comment: two slashes, or an opener with a star and slash somewhere behind it. -/
def Style.Occurs : Style → List Char → Prop
  | line, text => ['/', '/'] <:+: text
  | block, text => ∃ body, '/' :: '*' :: body ++ ['*', '/'] <:+: text

/-- The first comment of a text: its opener stands nowhere before. -/
structure Style.IsFirst (style : Style) (text : List Char) (found : Found) : Prop where
  append : found.code ++ found.comment ++ found.rest = text
  code : ¬ style.opener <:+: found.code ++ ['/']
  comment : style.IsComment found.comment found.rest

/-- **A text divided at its comments.** Code and comments join to the text; no opener starts in the
code before a comment, where the next character is a slash; each cut has a comment; and there is
none in the tail. -/
structure Style.Divides (style : Style) (text : List Char) (d : Division) : Prop where
  join : d.join = text
  code : ∀ cut ∈ d.cuts, ¬ style.opener <:+: cut.code ++ ['/']
  comment : ∀ before cut behind, d.cuts = before ++ cut :: behind →
    style.IsComment cut.comment (Division.join ⟨behind, d.tail⟩)
  tail : ¬ style.Occurs d.tail

variable {style : Style} {text : List Char} {found : Found}

/-- Every comment starts with a slash. -/
theorem Style.IsComment.head {comment rest : List Char} (h : style.IsComment comment rest) :
    ∃ tail, comment = '/' :: tail := by
  cases style with
  | line =>
    obtain ⟨body, -, rfl | ⟨rfl, -⟩⟩ := h
    · exact ⟨_, rfl⟩
    · exact ⟨_, rfl⟩
  | block =>
    obtain ⟨body, -, rfl⟩ := h
    exact ⟨_, rfl⟩

theorem line_first?_eq_some_iff :
    Style.line.first? text = some found ↔ Style.line.IsFirst text found := by
  constructor
  · intro h
    have happend := Style.first?_append h
    obtain ⟨⟨code, tail⟩, hs, rfl⟩ := Option.map_eq_some_iff.1 h
    obtain ⟨-, hfirst⟩ := splitPair?_eq_some_iff.1 hs
    refine ⟨happend, hfirst, tail.takeWhile (· != '\n'), ?_, ?_⟩
    · intro hmem
      simpa using List.mem_takeWhile_imp hmem
    cases hd : tail.dropWhile (· != '\n') with
    | nil => right; simp [hd]
    | cons c rest =>
      have hc := List.head?_dropWhile_not (· != '\n') tail
      rw [hd] at hc
      left; simp_all
  · rintro ⟨rfl, hfirst, body, hbody, hcomment⟩
    obtain ⟨code, comment, rest⟩ := found
    have hall : ∀ c ∈ body, (c != '\n') = true := fun c hc => by
      have : c ≠ '\n' := fun h => hbody (h ▸ hc)
      simpa using this
    simp only at hfirst hcomment
    simp only [Style.first?]
    rcases hcomment with rfl | ⟨rfl, rfl⟩
    · have hs : splitPair? '/' '/' [] (code ++ ('/' :: '/' :: body ++ ['\n']) ++ rest) =
          some (code, body ++ '\n' :: rest) :=
        splitPair?_eq_some_iff.2 ⟨by simp, hfirst⟩
      rw [hs, Option.map_some, List.takeWhile_append_of_pos hall, List.dropWhile_append_of_pos hall]
      simp
    · have hs : splitPair? '/' '/' [] (code ++ ('/' :: '/' :: body) ++ []) = some (code, body) :=
        splitPair?_eq_some_iff.2 ⟨by simp, hfirst⟩
      rw [hs, Option.map_some, List.takeWhile_eq_self_iff.2 hall, List.dropWhile_eq_nil_iff.2 hall]
      simp

theorem block_first?_eq_some_iff :
    Style.block.first? text = some found ↔ Style.block.IsFirst text found := by
  constructor
  · intro h
    have happend := Style.first?_append h
    obtain ⟨⟨code, tail⟩, hs, h⟩ := Option.bind_eq_some_iff.1 h
    obtain ⟨⟨body, rest⟩, he, rfl⟩ := Option.map_eq_some_iff.1 h
    obtain ⟨-, hbody⟩ := splitPair?_eq_some_iff.1 he
    exact ⟨happend, (splitPair?_eq_some_iff.1 hs).2, body, hbody, rfl⟩
  · rintro ⟨rfl, hfirst, body, hbody, hcomment⟩
    obtain ⟨code, comment, rest⟩ := found
    simp only at hfirst hcomment
    subst hcomment
    have hs : splitPair? '/' '*' [] (code ++ ('/' :: '*' :: body ++ ['*', '/']) ++ rest) =
        some (code, body ++ '*' :: '/' :: rest) :=
      splitPair?_eq_some_iff.2 ⟨by simp, hfirst⟩
    have he : splitPair? '*' '/' [] (body ++ '*' :: '/' :: rest) = some (body, rest) :=
      splitPair?_eq_some_iff.2 ⟨rfl, hbody⟩
    simp only [Style.first?, hs, Option.bind_some, he, Option.map_some]

/-- **The search finds the first comment.** -/
theorem first?_eq_some_iff : style.first? text = some found ↔ style.IsFirst text found := by
  cases style with
  | line => exact line_first?_eq_some_iff
  | block => exact block_first?_eq_some_iff

/-- **The search fails only where there is no comment.** -/
theorem first?_eq_none_iff : style.first? text = none ↔ ¬ style.Occurs text := by
  cases style with
  | line => rw [Style.first?, Option.map_eq_none_iff, splitPair?_eq_none_iff]; rfl
  | block =>
    constructor
    · rintro h ⟨body, hbody⟩
      rw [Style.first?, Option.bind_eq_none_iff] at h
      cases hs : splitPair? '/' '*' [] text with
      | none =>
        refine splitPair?_eq_none_iff.1 hs (List.IsInfix.trans ?_ hbody)
        exact ⟨[], body ++ ['*', '/'], by simp⟩
      | some found =>
        obtain ⟨code, tail⟩ := found
        obtain ⟨rfl, hcode⟩ := splitPair?_eq_some_iff.1 hs
        have hnone := splitPair?_eq_none_iff.1 (Option.map_eq_none_iff.1 (h _ hs))
        rw [pair_infix_append, not_or] at hcode
        have hmark := infix_of_infix_append hcode.1 (by simp) hbody
        have hclose : ['*', '/'] <:+: body ++ ['*', '/'] := ⟨body, [], by simp⟩
        -- the opener is the one found, or it stands in the tail; both put a closer into the tail
        rcases List.infix_cons_iff.1 hmark with hmark | hmark
        · have hpre := (List.cons_prefix_cons.1 (List.cons_prefix_cons.1 hmark).2).2
          exact hnone (hclose.trans hpre.isInfix)
        rcases List.infix_cons_iff.1 hmark with hmark | hmark
        · exact absurd (List.cons_prefix_cons.1 hmark).1 (by decide)
        · refine hnone (hclose.trans (List.IsInfix.trans ?_ hmark))
          exact ⟨['/', '*'], [], by simp⟩
    · intro h
      cases hs : Style.block.first? text with
      | none => rfl
      | some found =>
        obtain ⟨rfl, -, body, -, hcomment⟩ := first?_eq_some_iff.1 hs
        refine absurd ⟨body, found.code, found.rest, ?_⟩ h
        rw [hcomment]

theorem divideFrom_append (style : Style) (cuts more : List Cut) (text : List Char) :
    style.divideFrom (cuts ++ more) text =
      ⟨more.reverse ++ (style.divideFrom cuts text).cuts, (style.divideFrom cuts text).tail⟩ := by
  fun_induction style.divideFrom cuts text with
  | case1 cuts text h =>
    rw [Style.divideFrom]
    split
    · simp
    · rename_i found hfound; rw [h] at hfound; cases hfound
  | case2 cuts text found h ih =>
    rw [Style.divideFrom]
    split
    · rename_i hnone; rw [h] at hnone; cases hnone
    · rename_i found' hfound
      rw [h] at hfound
      cases hfound
      exact ih

theorem divide_of_not_occurs (h : ¬ style.Occurs text) : style.divide text = ⟨[], text⟩ := by
  rw [Style.divide, Style.divideFrom]
  split
  · rfl
  · rename_i found hfound
    rw [first?_eq_none_iff.2 h] at hfound
    cases hfound

/-- **A division starts with the first comment** and goes on behind it. -/
theorem divide_of_isFirst (h : style.IsFirst text found) :
    style.divide text =
      ⟨⟨found.code, found.comment⟩ :: (style.divide found.rest).cuts,
        (style.divide found.rest).tail⟩ := by
  rw [Style.divide, Style.divideFrom]
  split
  · rename_i hnone
    rw [first?_eq_some_iff.2 h] at hnone
    cases hnone
  · rename_i found' hfound
    rw [first?_eq_some_iff.2 h] at hfound
    cases hfound
    exact divideFrom_append style [] [⟨found.code, found.comment⟩] found.rest

@[simp] theorem strip_of_not_occurs (h : ¬ style.Occurs text) : style.strip text = text := by
  rw [Style.strip, divide_of_not_occurs h]; rfl

theorem strip_of_isFirst (h : style.IsFirst text found) :
    style.strip text = found.code ++ style.strip found.rest := by
  rw [Style.strip, divide_of_isFirst h]
  simp [Style.strip, Division.code]

/-- **Induction on comments**: a text has none, or it has a first one and a rest. -/
theorem comment_induction (style : Style) {P : List Char → Prop}
    (plain : ∀ text, ¬ style.Occurs text → P text)
    (cut : ∀ text found, style.IsFirst text found → P found.rest → P text) (text : List Char) :
    P text := by
  induction h : text.length using Nat.strongRecOn generalizing text with
  | _ n ih =>
    subst h
    cases hf : style.first? text with
    | none => exact plain text (first?_eq_none_iff.1 hf)
    | some found =>
      exact cut text found (first?_eq_some_iff.1 hf) (ih _ (Style.rest_lt hf) _ rfl)

theorem divides_divide (style : Style) (text : List Char) :
    style.Divides text (style.divide text) := by
  induction text using comment_induction style with
  | plain text h =>
    rw [divide_of_not_occurs h]
    exact ⟨rfl, by simp, by simp, h⟩
  | cut text found h ih =>
    have hjoin := style.divide_join text
    rw [divide_of_isFirst h] at hjoin ⊢
    refine ⟨hjoin, List.forall_mem_cons.2 ⟨h.code, ih.code⟩, ?_, ih.tail⟩
    intro before cut behind hcuts
    cases before with
    | nil =>
      obtain ⟨rfl, rfl⟩ := List.cons.inj hcuts
      have := h.comment
      rwa [← style.divide_join found.rest] at this
    | cons first before =>
      rw [List.cons_append] at hcuts
      exact ih.comment before cut behind (List.cons.inj hcuts).2

/-- **A text has one division**, the one that the search finds. -/
theorem divides_iff {d : Division} : style.Divides text d ↔ d = style.divide text := by
  constructor
  · -- what a division leaves behind its first cut is a division of the rest
    intro h
    obtain ⟨cuts, tail⟩ := d
    induction cuts generalizing text with
    | nil =>
      have htext : tail = text := by simpa [Division.join] using h.join
      rw [divide_of_not_occurs (htext ▸ h.tail), htext]
    | cons cut cuts ih =>
      have hrest : style.Divides (Division.join ⟨cuts, tail⟩) ⟨cuts, tail⟩ := by
        refine ⟨rfl, fun c hc => h.code c (List.mem_cons_of_mem _ hc), ?_, h.tail⟩
        intro before c behind hcuts
        exact h.comment (cut :: before) c behind (by simpa using hcuts)
      have hfirst : style.IsFirst text ⟨cut.code, cut.comment, Division.join ⟨cuts, tail⟩⟩ := by
        refine ⟨?_, h.code cut List.mem_cons_self, h.comment [] cut cuts rfl⟩
        rw [← h.join]
        simp [Division.join]
      rw [divide_of_isFirst hfirst, ← ih hrest]
  · rintro rfl
    exact divides_divide style text

/-- A star does not both open and close a comment, and an opener without a closer is code. -/
example : Style.block.divide "/*/ a */b/*/".toList =
    ⟨[⟨[], "/*/ a */".toList⟩], "b/*/".toList⟩ := by cbv

theorem block_occurs_iff :
    Style.block.Occurs text ↔ ∃ before behind, text = before ++ '/' :: '*' :: behind ∧
      ['*', '/'] <:+: behind := by
  constructor
  · rintro ⟨body, s, t, rfl⟩
    exact ⟨s, body ++ '*' :: '/' :: t, by simp, body, t, by simp⟩
  · rintro ⟨before, behind, rfl, body, t, rfl⟩
    exact ⟨body, before, t, by simp⟩

/-- **Across a blank** a block comment reaches from an opener to a closer. -/
theorem block_occurs_append_cons {c : Char} {a b : List Char} (hslash : c ≠ '/')
    (hstar : c ≠ '*') : Style.block.Occurs (a ++ c :: b) ↔ Style.block.Occurs a ∨ Style.block.Occurs b ∨
      (['/', '*'] <:+: a ∧ ['*', '/'] <:+: b) := by
  simp only [block_occurs_iff]
  constructor
  · rintro ⟨before, behind, htext, hclose⟩
    rcases List.append_eq_append_iff.1 htext.symm with ⟨d, rfl, hd⟩ | ⟨d, rfl, hd⟩
    -- the opener lies before the blank, which is neither of its characters, or behind it
    · rcases d with _ | ⟨x, _ | ⟨y, d⟩⟩
      · exact absurd (List.cons.inj hd).1.symm hslash
      · exact absurd (List.cons.inj (List.cons.inj hd).2).1.symm hstar
      · obtain ⟨rfl, h⟩ := List.cons.inj hd
        obtain ⟨rfl, rfl⟩ := List.cons.inj h
        rcases (pair_infix_append_cons hstar hslash).1 hclose with h | h
        · exact .inl ⟨before, d, rfl, h⟩
        · exact .inr (.inr ⟨⟨before, d, by simp⟩, h⟩)
    · cases d with
      | nil => exact absurd (List.cons.inj hd).1 hslash
      | cons x d => exact .inr (.inl ⟨d, behind, (List.cons.inj hd).2, hclose⟩)
  · rintro (⟨before, behind, rfl, h⟩ | ⟨before, behind, rfl, h⟩ | ⟨⟨before, behind, rfl⟩, h⟩)
    · exact ⟨before, behind ++ c :: b, by simp, (pair_infix_append_cons hstar hslash).2 (.inl h)⟩
    · exact ⟨a ++ c :: before, behind, by simp, h⟩
    · exact ⟨before, behind ++ c :: b, by simp, (pair_infix_append_cons hstar hslash).2 (.inr h)⟩

/-- Taking comments out adds and moves nothing. -/
theorem strip_sublist (style : Style) (text : List Char) : (style.strip text).Sublist text := by
  induction text using comment_induction style with
  | plain text h =>
    have hstrip := strip_of_not_occurs h
    exact hstrip.symm ▸ List.Sublist.refl _
  | cut text found h ih =>
    rw [strip_of_isFirst h, ← h.append, List.append_assoc]
    exact (List.Sublist.refl _).append (ih.trans (List.sublist_append_right _ _))

/-- **No line comment is left** when the line comments are gone: the code before one does not end
with a slash. -/
theorem not_occurs_strip (text : List Char) : ¬ Style.line.Occurs (Style.line.strip text) := by
  induction text using comment_induction .line with
  | plain text h => rwa [strip_of_not_occurs h]
  | cut text found h ih =>
    have hcode := h.code
    rw [Style.opener, pair_infix_append, not_or, not_or] at hcode
    obtain ⟨hcode, -, hend⟩ := hcode
    rw [strip_of_isFirst h, Style.Occurs, pair_infix_append]
    -- a slash at the end of the code and the slash of the comment would have been an opener
    rintro (hc | hr | hseam)
    · exact hcode hc
    · exact ih hr
    · exact hend ⟨hseam.1, rfl⟩

/-- In a text without line comments no block comment stands behind a slash. -/
theorem code_getLast?_ne (hslash : ¬ Style.line.Occurs text) (h : Style.block.IsFirst text found) :
    found.code.getLast? ≠ some '/' := by
  intro hend
  obtain ⟨body, -, hcomment⟩ := h.comment
  refine hslash ?_
  rw [← h.append, List.append_assoc, Style.Occurs, pair_infix_append]
  exact .inr (.inr ⟨hend, by rw [hcomment]; rfl⟩)

theorem not_occurs_rest {other : Style} (hslash : ¬ Style.line.Occurs text)
    (h : other.IsFirst text found) : ¬ Style.line.Occurs found.rest := by
  refine fun hr => hslash (List.IsInfix.trans hr ?_)
  rw [← h.append]
  exact (List.suffix_append _ _).isInfix

/-- Taking block comments out of a text without line comments makes no line comment. -/
theorem not_occurs_line_strip_block (hslash : ¬ Style.line.Occurs text) :
    ¬ Style.line.Occurs (Style.block.strip text) := by
  induction text using comment_induction .block with
  | plain text h => rwa [strip_of_not_occurs h]
  | cut text found h ih =>
    have hend := code_getLast?_ne hslash h
    rw [strip_of_isFirst h, Style.Occurs, pair_infix_append]
    rintro (hc | hr | hseam)
    · refine hslash (List.IsInfix.trans hc ?_)
      rw [← h.append, List.append_assoc]
      exact (List.prefix_append _ _).isInfix
    · exact ih (not_occurs_rest hslash h) hr
    · exact hend hseam.1

/-- **No block comment is left** when the block comments are gone from a text without line comments:
an opener that is still there stands in the tail, where nothing closes it. -/
theorem not_occurs_strip_block (hslash : ¬ Style.line.Occurs text) :
    ¬ Style.block.Occurs (Style.block.strip text) := by
  induction text using comment_induction .block with
  | plain text h => rwa [strip_of_not_occurs h]
  | cut text found h ih =>
    have hend := code_getLast?_ne hslash h
    have hcode := h.code
    rw [Style.opener, pair_infix_append, not_or] at hcode
    rw [strip_of_isFirst h]
    rintro ⟨body, hbody⟩
    -- no opener starts in the code or across the seam, so the comment starts behind them
    refine ih (not_occurs_rest hslash h) ⟨body, ?_⟩
    exact infix_of_infix_append hcode.1 (fun hseam => hend hseam.1) hbody

/-- **The code of a text has no comment of either style.** -/
theorem not_occurs_uncommented (style : Style) (text : List Char) :
    ¬ style.Occurs (uncommented text) := by
  have hslash := not_occurs_strip text
  cases style with
  | line => exact not_occurs_line_strip_block hslash
  | block => exact not_occurs_strip_block hslash

theorem uncommented_sublist (text : List Char) : (uncommented text).Sublist text :=
  (strip_sublist .block _).trans (strip_sublist .line text)

/-- Every comment has a slash. -/
theorem not_occurs_of_not_mem (h : '/' ∉ text) : ¬ style.Occurs text := by
  intro hoccurs
  apply h
  cases style with
  | line => exact hoccurs.subset List.mem_cons_self
  | block =>
    obtain ⟨body, hbody⟩ := hoccurs
    exact hbody.subset List.mem_cons_self

/-- A text without comments is all code. -/
theorem uncommented_of_not_occurs (h : ∀ style : Style, ¬ style.Occurs text) :
    uncommented text = text := by
  rw [uncommented, strip_of_not_occurs (h .line), strip_of_not_occurs (h .block)]

end Lexis.Comment
