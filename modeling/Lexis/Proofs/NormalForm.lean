import Lexis.Proofs.Division
import Lexis.Proofs.Lines
import Lexis.Proofs.Words
import Lexis.Sanitized

/-!
# The normal form of a sanitized text

* `sanitize_of_divisions`: **sanitizing takes out the comments and nothing else** of what is not
  blank, for the one division of the text into comments and code.
* `sanitize_normal`: **a sanitized text is in normal form**: no blank line, no unended line and no
  comment, nothing that the text did not have, and all the words of the code.
-/

namespace Lexis

open Comment (Style uncommented)
open Text (isBlank IsLines unlines withoutReturn words)

/-- Code without its blank lines, each other line ended by a line feed. -/
def compact (code : List Char) : List Char := unlines (keptLines code)

variable {line rest code text : List Char}

theorem ofAscii_text (text : List Char) :
    (Sanitized.ofAscii text).text = compact (uncommented text) := rfl

/-- **An ASCII text is sanitized.** -/
theorem sanitize_of_ascii (file : String) (h : ∀ c ∈ text, Text.isAscii c = true) :
    (sanitize file text).value = .ok (Sanitized.ofAscii text) := by
  have hdrop : text.dropWhile Text.isAscii = [] := by
    rw [List.dropWhile_eq_nil_iff]; exact h
  rw [sanitize, hdrop]

/-! ## Kept lines -/

theorem isBlankLine_iff : isBlankLine line = true ↔ ∀ c ∈ line, isBlank c = true :=
  List.all_eq_true

@[simp] theorem isBlankLine_withoutReturn :
    isBlankLine (withoutReturn line) = isBlankLine line := by
  rcases Text.withoutReturn_cases line with h | ⟨h, -⟩
  · have hr : isBlank '\r' = true := rfl
    conv_rhs => rw [h]
    simp only [isBlankLine, List.all_append, List.all_cons, List.all_nil, hr, Bool.and_true]
  · rw [h]

theorem keptLines_of_isLines {terminated : List (List Char)} {last : List Char}
    (h : IsLines code terminated last) :
    keptLines code = (terminated.map withoutReturn ++ [last]).filter (!isBlankLine ·) := by
  have hlast : [last].filter (!isBlankLine ·) =
      ((if last = [] then [] else [last]).map Text.lineBody).filter (!isBlankLine ·) := by
    split
    · rename_i hnil; rw [hnil]; rfl
    · rw [List.map_singleton, Text.lineBody_of_unterminated h.last]
  have hbody : (terminated.map (· ++ ['\n'])).map Text.lineBody = terminated.map withoutReturn := by
    rw [List.map_map]
    exact List.map_congr_left fun line _ => Text.lineBody_eq_withoutReturn line
  rw [keptLines, Text.lines_of_isLines h, List.map_append, hbody, List.filter_append,
    List.filter_append, hlast]

theorem compact_single (h : '\n' ∉ line) :
    compact line = if isBlankLine line then [] else line ++ ['\n'] := by
  have hlines : IsLines line [] line := ⟨rfl, by simp, h⟩
  rw [compact, keptLines_of_isLines hlines]
  cases hb : isBlankLine line <;> simp [hb]

theorem compact_append (h : '\n' ∉ line) :
    compact (line ++ '\n' :: rest) =
      (if isBlankLine line then [] else withoutReturn line ++ ['\n']) ++ compact rest := by
  obtain ⟨terminated, last, hrest⟩ := Text.exists_isLines rest
  have hlines : IsLines (line ++ '\n' :: rest) (line :: terminated) last := by
    refine ⟨?_, List.forall_mem_cons.2 ⟨h, hrest.terminated⟩, hrest.last⟩
    rw [hrest.join]; simp
  rw [compact, compact, keptLines_of_isLines hlines, keptLines_of_isLines hrest]
  cases hb : isBlankLine line <;> simp [hb]

theorem not_mem_of_mem_keptLines (h : line ∈ keptLines code) : '\n' ∉ line := by
  obtain ⟨terminated, last, hcode⟩ := Text.exists_isLines code
  rw [keptLines_of_isLines hcode, List.mem_filter, List.mem_append, List.mem_map,
    List.mem_singleton] at h
  rcases h.1 with ⟨full, hfull, rfl⟩ | rfl
  · exact fun hmem => hcode.terminated full hfull ((Text.withoutReturn_prefix full).subset hmem)
  · exact hcode.last

/-! ## What compacting keeps -/

theorem compact_sublist (code : List Char) : (compact code).Sublist (code ++ ['\n']) := by
  induction code using Text.lines_induction with
  | single line h =>
    rw [compact_single h]
    split
    · exact List.nil_sublist _
    · exact List.Sublist.refl _
  | cons line rest h ih =>
    rw [compact_append h, List.append_assoc, List.cons_append]
    split
    · exact ih.trans ((List.sublist_cons_self _ _).trans (List.sublist_append_right _ _))
    · rw [List.append_assoc]
      exact (Text.withoutReturn_prefix line).sublist.append (ih.cons_cons '\n')

/-- A carriage return at the end of a line is in no word. -/
theorem wordsFrom_withoutReturn (start : Nat) (line : List Char) :
    Text.wordsFrom start (withoutReturn line) = Text.wordsFrom start line := by
  rcases Text.withoutReturn_cases line with h | ⟨h, -⟩
  · conv_rhs => rw [h]
    rw [Text.wordsFrom_append_blank (by rfl), Text.wordsFrom_nil, List.append_nil]
  · rw [h]

theorem words_withoutReturn (line : List Char) : words (withoutReturn line) = words line := by
  rw [← @Text.map_text_wordsFrom 0, wordsFrom_withoutReturn, Text.map_text_wordsFrom]

/-- **Compacting keeps the words.** -/
@[simp] theorem words_compact (code : List Char) : words (compact code) = words code := by
  have hline : ∀ line, isBlankLine line = true → words line = [] := by
    intro line hb
    have h := @Text.words_blanks_append [] line (isBlankLine_iff.1 hb)
    rwa [List.append_nil] at h
  induction code using Text.lines_induction with
  | single line h =>
    rw [compact_single h]
    split
    · rename_i hb; rw [hline line hb, Text.words_nil]
    · rw [Text.words_append_blank (by rfl), Text.words_nil, List.append_nil]
  | cons line rest h ih =>
    rw [compact_append h, Text.words_append_blank (by rfl)]
    split
    · rename_i hb; rw [hline line hb, List.nil_append, List.nil_append, ih]
    · rw [List.append_assoc, List.singleton_append, Text.words_append_blank (by rfl),
        words_withoutReturn, ih]

/-- Compacting moves no two characters together, blanks apart. -/
theorem pair_infix_compact {a b : Char} (ha : a ≠ '\n') (hb : b ≠ '\n')
    (h : [a, b] <:+: compact code) : [a, b] <:+: code := by
  have hnil : ¬ [a, b] <:+: ([] : List Char) := by simp
  induction code using Text.lines_induction with
  | single line hline =>
    rw [compact_single hline] at h
    split at h
    · exact absurd h hnil
    · exact ((Comment.pair_infix_append_cons ha.symm hb.symm).1 h).resolve_right hnil
  | cons line rest hline ih =>
    rw [compact_append hline] at h
    rw [Comment.pair_infix_append_cons ha.symm hb.symm]
    split at h
    · exact .inr (ih h)
    · rw [List.append_assoc, List.singleton_append,
        Comment.pair_infix_append_cons ha.symm hb.symm] at h
      rcases h with h | h
      · exact .inl (h.trans (Text.withoutReturn_prefix line).isInfix)
      · exact .inr (ih h)

theorem block_occurs_compact (h : Style.block.Occurs (compact code)) : Style.block.Occurs code := by
  have hnil : ¬ Style.block.Occurs [] := by rintro ⟨body, hbody⟩; simp at hbody
  have hlf : ∀ {a b : List Char}, Style.block.Occurs (a ++ '\n' :: b) ↔ Style.block.Occurs a ∨
      Style.block.Occurs b ∨ (['/', '*'] <:+: a ∧ ['*', '/'] <:+: b) :=
    Comment.block_occurs_append_cons (by decide) (by decide)
  induction code using Text.lines_induction with
  | single line hline =>
    rw [compact_single hline] at h
    split at h
    · exact absurd h hnil
    · rcases hlf.1 h with h | h | h
      · exact h
      · exact absurd h hnil
      · simp at h
  | cons line rest hline ih =>
    rw [compact_append hline] at h
    rw [hlf]
    split at h
    · exact .inr (.inl (ih h))
    · have hbody := (Text.withoutReturn_prefix line).isInfix
      rw [List.append_assoc, List.singleton_append, hlf] at h
      -- an opener and a closer on different kept lines stood on different lines before
      rcases h with ⟨body, h⟩ | h | ⟨hopen, hclose⟩
      · exact .inl ⟨body, h.trans hbody⟩
      · exact .inr (.inl (ih h))
      · exact .inr (.inr ⟨hopen.trans hbody, pair_infix_compact (by decide) (by decide) hclose⟩)

theorem not_occurs_compact {style : Style} (h : ¬ style.Occurs code) :
    ¬ style.Occurs (compact code) := by
  cases style with
  | line => exact fun hc => h (pair_infix_compact (by decide) (by decide) hc)
  | block => exact fun hc => h (block_occurs_compact hc)

/-! ## Normal form -/

/-- **A text in normal form**: each of its lines has a word and is ended by a line feed, and it has
no comment of either style. -/
structure IsNormal (text : List Char) : Prop where
  ended : text = [] ∨ text.getLast? = some '\n'
  lines : ∀ line ∈ Text.lines text, ∃ c ∈ line, isBlank c = false
  line : ¬ ['/', '/'] <:+: text
  block : ¬ ∃ body, '/' :: '*' :: body ++ ['*', '/'] <:+: text

theorem exists_of_mem_keptLines (h : line ∈ keptLines code) : ∃ c ∈ line, isBlank c = false := by
  have hb := (List.mem_filter.1 h).2
  simpa [isBlankLine] using hb

theorem isNormal_ofAscii (text : List Char) : IsNormal (Sanitized.ofAscii text).text := by
  refine ⟨?_, ?_, ?_, ?_⟩
  · rw [or_iff_not_imp_left]
    exact Text.unlines_getLast? _
  · intro line hline
    rw [ofAscii_text, compact, Text.lines_unlines fun _ => not_mem_of_mem_keptLines] at hline
    obtain ⟨kept, hkept, rfl⟩ := List.mem_map.1 hline
    obtain ⟨c, hc, hblank⟩ := exists_of_mem_keptLines hkept
    exact ⟨c, List.mem_append_left _ hc, hblank⟩
  · exact not_occurs_compact (Comment.not_occurs_uncommented .line text)
  · exact not_occurs_compact (Comment.not_occurs_uncommented .block text)

theorem ofAscii_sublist (text : List Char) :
    (Sanitized.ofAscii text).text.Sublist (text ++ ['\n']) :=
  (compact_sublist _).trans ((Comment.uncommented_sublist text).append (List.Sublist.refl _))

/-- **A sanitized text is in normal form.** Its characters are characters of the text in their
order, but for a last line feed, and its words are those of the code. -/
theorem sanitize_normal (file : String) {text : List Char}
    (h : ∀ c ∈ text, Text.isAscii c = true) :
    ∃ s, (sanitize file text).value = .ok s ∧ IsNormal s.text ∧
      s.text.Sublist (text ++ ['\n']) ∧ words s.text = words (uncommented text) :=
  ⟨_, sanitize_of_ascii file h, isNormal_ofAscii text, ofAscii_sublist text, words_compact _⟩

/-- Without its line comment the first line runs on into a block comment. -/
theorem sanitize_normal_seam :
    let text := "a/* b *//c\r\n*/d\r\n".toList
    (∀ c ∈ text, Text.isAscii c = true) ∧
      ∃ s, (sanitize "f" text).value = .ok s ∧ s.text = "ad\n".toList ∧ IsNormal s.text ∧
        words (uncommented text) = ["ad".toList] := by
  have hascii : ∀ c ∈ "a/* b *//c\r\n*/d\r\n".toList, Text.isAscii c = true :=
    List.all_eq_true.1 rfl
  obtain ⟨s, hs, hnormal, -, hwords⟩ := sanitize_normal "f" hascii
  have htext : s.text = "ad\n".toList := by
    rw [← Except.ok.inj ((sanitize_of_ascii "f" hascii).symm.trans hs)]
    cbv
  refine ⟨hascii, s, hs, htext, hnormal, ?_⟩
  rw [← hwords, htext]
  rfl

/-- **Sanitizing takes out the comments.** A text has a division at its line comments, and the code
of that one at its block comments. For the lines of what they leave, the sanitized text is made of
those that have a word, without a return at the end, each ended by a line feed. -/
theorem sanitize_of_divisions (file : String) {text : List Char}
    (h : ∀ c ∈ text, Text.isAscii c = true) :
    (∃ d₁ d₂, Style.line.Divides text d₁ ∧ Style.block.Divides d₁.code d₂ ∧
      ∃ terminated last, IsLines d₂.code terminated last) ∧
    ∀ d₁ d₂, Style.line.Divides text d₁ → Style.block.Divides d₁.code d₂ →
      Style.line.strip text = d₁.code ∧ Style.block.strip d₁.code = d₂.code ∧
      ∀ terminated last, IsLines d₂.code terminated last →
        ∃ s, (sanitize file text).value = .ok s ∧
          s.text =
            unlines ((terminated.map withoutReturn ++ [last]).filter (·.any (!isBlank ·))) := by
  constructor
  · refine ⟨_, _, Comment.divides_divide .line text, Comment.divides_divide .block _, ?_⟩
    exact Text.exists_isLines _
  · intro d₁ d₂ h₁ h₂
    obtain rfl := Comment.divides_iff.1 h₁
    obtain rfl := Comment.divides_iff.1 h₂
    refine ⟨rfl, rfl, ?_⟩
    intro terminated last hlines
    refine ⟨_, sanitize_of_ascii file h, ?_⟩
    have hkept := keptLines_of_isLines hlines
    have hfilter : (!isBlankLine ·) = fun line : List Char => line.any (!isBlank ·) := by
      funext line
      rw [isBlankLine, List.not_all_eq_any_not]
    rw [hfilter] at hkept
    rw [ofAscii_text, compact, ← hkept]
    rfl

/-- A line comment that cuts the end of a block comment in two leaves an end for it at the seam. -/
theorem sanitize_of_divisions_seam :
    let text := "a/* b *//c\r\n*/d\r\n".toList
    (∀ c ∈ text, Text.isAscii c = true) ∧
      ∃ d₁ d₂, Style.line.Divides text d₁ ∧ Style.block.Divides d₁.code d₂ ∧
        d₁.code = "a/* b **/d\r\n".toList ∧ IsLines d₂.code ["ad\r".toList] [] ∧
        ∃ s, (sanitize "f" text).value = .ok s ∧ s.text = "ad\n".toList := by
  have hascii : ∀ c ∈ "a/* b *//c\r\n*/d\r\n".toList, Text.isAscii c = true :=
    List.all_eq_true.1 rfl
  refine ⟨hascii, ?_⟩
  obtain ⟨⟨d₁, d₂, h₁, h₂, -⟩, hall⟩ := sanitize_of_divisions "f" hascii
  obtain ⟨hcode₁, hcode₂, hlines⟩ := hall d₁ d₂ h₁ h₂
  have hc₁ : d₁.code = "a/* b **/d\r\n".toList := by rw [← hcode₁]; cbv
  have hc₂ : d₂.code = "ad\r\n".toList := by rw [← hcode₂, hc₁]; cbv
  have hl : IsLines d₂.code ["ad\r".toList] [] := ⟨by rw [hc₂]; rfl, by simp, by simp⟩
  exact ⟨d₁, d₂, h₁, h₂, hc₁, hl, hlines _ _ hl⟩

end Lexis
