import Lexis.Proofs.Concatenation
import Lexis.Report

/-!
# Lines that are comments

A line that starts with two slashes leaves nothing behind. As line comments are taken out first, it
does not matter what the line says or where it stands, be it between the delimiters of a block
comment; and as they are taken out line by line, it does not matter how the line before it ends.

* `strip_line_comment`: **a comment that starts a text** is taken out with its line feed.
* `uncommented_commentLine`: so a line that is a comment leaves no trace in the code of a text.
* `ofAscii_commentLine`: nor in its sanitized form, the account of what has been taken away apart.
* `session_yields_commentLine`: **a line that is a comment is not seen** by any session.
-/

namespace Lexis

open Comment (Style uncommented)

variable {a b c : List Char}

namespace Comment

theorem isFirst_line_comment (hc : '\n' ∉ c) (b : List Char) :
    Style.line.IsFirst ('/' :: '/' :: c ++ '\n' :: b) ⟨[], '/' :: '/' :: c ++ ['\n'], b⟩ := by
  refine ⟨by simp, ?_, c, hc, .inl rfl⟩
  show ¬ ['/', '/'] <:+: ['/']
  decide

/-- **A comment that starts a text** is taken out with its line feed. -/
theorem strip_line_comment (hc : '\n' ∉ c) (b : List Char) :
    Style.line.strip ('/' :: '/' :: c ++ '\n' :: b) = Style.line.strip b :=
  strip_of_isFirst (isFirst_line_comment hc b)

/-- **A line that is a comment leaves no trace** in the code. -/
theorem uncommented_commentLine (hended : a = [] ∨ a.getLast? = some '\n') (hc : '\n' ∉ c)
    (b : List Char) : uncommented (a ++ ('/' :: '/' :: c ++ '\n' :: b)) = uncommented (a ++ b) := by
  unfold uncommented
  rw [strip_line_append hended, strip_line_append hended, strip_line_comment hc]

theorem length_uncommented_le (text : List Char) : (uncommented text).length ≤ text.length :=
  (uncommented_sublist text).length_le

end Comment

/-- **The sanitized form with a line that is a comment** is the form without it. The line is counted
with its line feed, as part of the text and of what has been removed. -/
theorem ofAscii_commentLine (hended : a = [] ∨ a.getLast? = some '\n') (hc : '\n' ∉ c)
    (b : List Char) :
    let s := Sanitized.ofAscii (a ++ b)
    let n := ('/' :: '/' :: c ++ ['\n']).length
    Sanitized.ofAscii (a ++ ('/' :: '/' :: c ++ '\n' :: b)) =
      { s with bytesIn := s.bytesIn + n, removed := s.removed + n } := by
  intro s n
  have hcode := Comment.uncommented_commentLine hended hc b
  have hlen : (a ++ ('/' :: '/' :: c ++ '\n' :: b)).length = (a ++ b).length + n := by
    simp only [n, List.length_append, List.length_cons, List.length_nil]
    omega
  have hremoved : (a ++ b).length + n - (uncommented (a ++ b)).length = s.removed + n := by
    have hle := Comment.length_uncommented_le (a ++ b)
    show _ = (a ++ b).length - (uncommented (a ++ b)).length + n
    omega
  unfold Sanitized.ofAscii
  simp only [hcode, hlen, hremoved]
  rfl

/-- **A line that is a comment is not seen.** Put it into an ASCII text where a line starts. The
sanitized form stays the same, but for the account of what has been taken away. So sessions over
both texts come to the same tokens in the same places, and then to the end or to the same error in
the same place, which is reported in the same way. -/
theorem session_yields_commentLine (file : String) {a b c : List Char}
    (ha : ∀ d ∈ a, Text.isAscii d = true) (hb : ∀ d ∈ b, Text.isAscii d = true)
    (hc : ∀ d ∈ c, Text.isAscii d = true) (hended : a = [] ∨ a.getLast? = some '\n')
    (hline : '\n' ∉ c) :
    let n := ('/' :: '/' :: c ++ ['\n']).length
    ∃ s, (sanitize file (a ++ b)).value = .ok s ∧
      (sanitize file (a ++ ('/' :: '/' :: c ++ '\n' :: b))).value =
        .ok { s with bytesIn := s.bytesIn + n, removed := s.removed + n } ∧
      ∀ settings, ∃ plain commented tokens error?,
        (Session.start settings file (a ++ b)).value = .ok plain ∧
        (Session.start settings file (a ++ ('/' :: '/' :: c ++ '\n' :: b))).value = .ok commented ∧
        commented.source.text = plain.source.text ∧
        plain.Yields tokens error? ∧ commented.Yields tokens error? ∧
        ∀ e, error? = some e → (Report.ofError e commented.source.text).text? =
          (Report.ofError e plain.source.text).text? := by
  intro n
  have hplain : ∀ d ∈ a ++ b, Text.isAscii d = true := List.forall_mem_append.2 ⟨ha, hb⟩
  have hcommented : ∀ d ∈ a ++ ('/' :: '/' :: c ++ '\n' :: b), Text.isAscii d = true := by
    intro d hd
    simp only [List.mem_append, List.mem_cons] at hd
    rcases hd with hd | (rfl | rfl | hd) | rfl | hd
    · exact ha d hd
    · rfl
    · rfl
    · exact hc d hd
    · rfl
    · exact hb d hd
  have hsame := ofAscii_commentLine hended hline b
  have hsanitize := sanitize_of_ascii file hcommented
  rw [hsame] at hsanitize
  refine ⟨_, sanitize_of_ascii file hplain, hsanitize, ?_⟩
  intro settings
  have hstart := start_of_ascii settings file hcommented
  rw [hsame] at hstart
  -- both sessions have the same words to read
  have hyields := @Session.yields_read
    (.ofSanitized settings file (Sanitized.ofAscii (a ++ b))) rfl
  exact ⟨_, _, _, _, start_of_ascii settings file hplain, hstart, rfl, hyields,
    Session.yields_read rfl, fun _ _ => rfl⟩

/-- The line stands inside a block comment and behind a line comment that takes its line feed along,
and it has delimiters of all sorts and a return. -/
theorem session_yields_commentLine_inside :
    let a := "if /* x//y\n".toList
    let b := "*/? 12".toList
    let c := " */ /* // \r".toList
    let text := a ++ ('/' :: '/' :: c ++ '\n' :: b)
    (∀ d ∈ a, Text.isAscii d = true) ∧ (∀ d ∈ b, Text.isAscii d = true) ∧
      (∀ d ∈ c, Text.isAscii d = true) ∧ (a = [] ∨ a.getLast? = some '\n') ∧ '\n' ∉ c ∧
      (sanitize "f" text).value = .ok ⟨"if ? 12\n".toList, 31, 24, 0⟩ ∧
      ∃ s, (Session.start {} "f" text).value = .ok s ∧
        s.Yields [⟨.keyword, "if", ⟨.ofByte "f" 0, .ofByte "f" 2⟩⟩]
          (some ⟨.unrecognized "?", .ofByte "f" 3⟩) := by
  intro a b c text
  have ha : ∀ d ∈ a, Text.isAscii d = true := List.all_eq_true.1 rfl
  have hb : ∀ d ∈ b, Text.isAscii d = true := List.all_eq_true.1 rfl
  have hc : ∀ d ∈ c, Text.isAscii d = true := List.all_eq_true.1 rfl
  have hended : a = [] ∨ a.getLast? = some '\n' := .inr rfl
  have hline : '\n' ∉ c := by decide
  obtain ⟨s, hs, hsanitize, hsessions⟩ := session_yields_commentLine "f" ha hb hc hended hline
  have hsource : Sanitized.ofAscii "if /* x//y\n*/? 12".toList =
      ⟨"if ? 12\n".toList, 17, 10, 0⟩ := by cbv
  change Sanitized.ofAscii (a ++ b) = _ at hsource
  have hplain : ∀ d ∈ a ++ b, Text.isAscii d = true := List.forall_mem_append.2 ⟨ha, hb⟩
  obtain rfl := Except.ok.inj ((sanitize_of_ascii "f" hplain).symm.trans hs)
  rw [hsource] at hsanitize
  obtain ⟨plain, commented, tokens, error?, hstart, hstart', -, hyields, hyields', -⟩ :=
    hsessions {}
  obtain ⟨-, rfl⟩ := start_eq_ok_iff.1 hstart
  rw [hsource] at hyields
  have hread : Settings.read {} "f" (Text.wordsFrom 0 "if ? 12\n".toList) =
      ⟨[⟨.keyword, "if", ⟨.ofByte "f" 0, .ofByte "f" 2⟩⟩],
        some ⟨.unrecognized "?", .ofByte "f" 3⟩⟩ := rfl
  obtain ⟨rfl, rfl⟩ := hyields.unique (Session.yields_ofSanitized hread)
  exact ⟨ha, hb, hc, hended, hline, hsanitize, commented, hstart', hyields'⟩

end Lexis
