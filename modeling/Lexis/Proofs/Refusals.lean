import Lexis.Proofs.Carets

/-!
# Texts that are refused

A text with a character that is not ASCII is refused. The error is blamed on a place in the text as
it is, not in its sanitized form, and the report shows the line there. White space of all scripts is
trimmed from the line, so it may end before the character that the caret is meant for.

* `sanitize_eq_error_iff`: **what is refused**, and where.
* `lineAt?_refused`: the excerpt for the character that is refused.
* `sanitize_refuses`: **the error and the report** of a text that is refused.
-/

namespace Lexis

open Text (isAscii isSpace byteLength IsLines leftOf rightOf)

/-- **The character that a text is refused for**: the first that is not ASCII, behind so many
others. -/
structure Refused (text : List Char) (offset : Nat) (c : Char) : Prop where
  getElem : text[offset]? = some c
  notAscii : isAscii c = false
  before : ∀ d ∈ text.take offset, isAscii d = true

variable {text : List Char} {offset : Nat} {c : Char} {file : String} {e : Error}

/-! ## The error -/

theorem Refused.lt_length (h : Refused text offset c) : offset < text.length :=
  (List.getElem?_eq_some_iff.1 h.getElem).1

theorem Refused.drop_eq (h : Refused text offset c) :
    text.drop offset = c :: text.drop (offset + 1) := by
  obtain ⟨hlt, hc⟩ := List.getElem?_eq_some_iff.1 h.getElem
  rw [List.drop_eq_getElem_cons hlt, hc]

/-- Up to there a character is a byte. -/
theorem Refused.byteLength_take (h : Refused text offset c) :
    byteLength (text.take offset) = offset := by
  have hlt := h.lt_length
  rw [Text.byteLength_of_ascii h.before, List.length_take]
  omega

theorem refused_of_dropWhile {behind : List Char} (h : text.dropWhile isAscii = c :: behind) :
    Refused text (text.takeWhile isAscii).length c := by
  refine ⟨?_, ?_, ?_⟩
  · rw [← List.head?_drop, Text.drop_length_takeWhile, h]
    rfl
  · exact Text.head?_dropWhile c (by rw [h]; rfl)
  · rw [← List.prefix_iff_eq_take.1 (List.takeWhile_prefix _)]
    exact fun d hd => List.mem_takeWhile_imp hd

/-- **A text is refused** for its first character that is not ASCII, wherever it stands. -/
theorem sanitize_eq_error_iff : (sanitize file text).value = .error e ↔
    ∃ offset c, Refused text offset c ∧ e = ⟨.nonAscii c, .ofByte file offset⟩ := by
  constructor
  · intro h
    unfold sanitize at h
    cases hdrop : text.dropWhile isAscii with
    | nil =>
      rw [hdrop] at h
      cases h
    | cons c behind =>
      rw [hdrop] at h
      exact ⟨_, c, refused_of_dropWhile hdrop, (Except.error.inj h).symm⟩
  · rintro ⟨offset, c, h, rfl⟩
    have hc : ¬ isAscii c = true := by simp [h.notAscii]
    have htext : text = text.take offset ++ c :: text.drop (offset + 1) := by
      rw [← h.drop_eq, List.take_append_drop]
    have hdrop : text.dropWhile isAscii = c :: text.drop (offset + 1) := by
      rw [htext, List.dropWhile_append_of_pos h.before, List.dropWhile_cons_of_neg hc, ← htext]
    have htake : (text.takeWhile isAscii).length = offset := by
      rw [htext, List.takeWhile_append_of_pos h.before, List.takeWhile_cons_of_neg hc,
        List.append_nil, List.length_take, Nat.min_eq_left h.lt_length.le]
    unfold sanitize
    rw [hdrop, htake]

theorem exists_refused_iff :
    (∃ offset c, Refused text offset c) ↔ ∃ c ∈ text, isAscii c = false := by
  constructor
  · rintro ⟨offset, c, h⟩
    exact ⟨c, List.mem_of_getElem? h.getElem, h.notAscii⟩
  · rintro ⟨c, hmem, hc⟩
    cases hdrop : text.dropWhile isAscii with
    | nil =>
      rw [List.dropWhile_eq_nil_iff.1 hdrop c hmem] at hc
      cases hc
    | cons d behind => exact ⟨_, d, refused_of_dropWhile hdrop⟩

/-- A session is not started over a text that is refused. -/
theorem start_eq_error_iff {settings : Settings} :
    (Session.start settings file text).value = .error e ↔
      (sanitize file text).value = .error e := by
  unfold Session.start Logged.map
  cases (sanitize file text).value with
  | error error =>
    show (Except.error error : Except Error Session) = .error e ↔ _
    rw [Except.error.injEq, Except.error.injEq]
  | ok source => exact iff_of_false (by rintro ⟨⟩) (by rintro ⟨⟩)

/-! ## The line -/

/-- **The excerpt for the character that is refused**, which does not indent its line. -/
theorem lineAt?_refused (h : Refused text offset c) :
    let left := leftOf text offset
    let line := left ++ rightOf text offset
    let indent := (indentation line).length
    indent ≤ left.length ∧ (line.drop indent)[left.length - indent]? = some c ∧
      (line.drop indent).drop (left.length - indent) = rightOf text offset ∧
      (Text.lineAt? text offset).map Excerpt.ofPlace =
        some ⟨(text.take offset).count '\n' + 1, trimEnd (line.drop indent),
          left.length - indent⟩ := by
  intro left line indent
  have hne : ∀ d, isAscii d = true → c ≠ d := by
    rintro d hd rfl
    rw [h.notAscii] at hd
    cases hd
  have hright : (rightOf text offset).head? = some c := by
    rw [rightOf, h.drop_eq, List.takeWhile_cons_of_pos (by simpa using hne '\n' rfl)]
    rfl
  have hle : indent ≤ left.length := by
    apply length_indentation_append_le
    intro d hd
    rw [hright] at hd
    obtain rfl := Option.some.inj hd
    exact ⟨hne ' ' rfl, hne '\t' rfl⟩
  have hdrop : (line.drop indent).drop (left.length - indent) = rightOf text offset := by
    rw [List.drop_drop, Nat.add_sub_cancel' hle]
    exact List.drop_left
  refine ⟨hle, ?_, hdrop, ?_⟩
  · rw [← List.head?_drop, hdrop, hright]
  · have hplace := Text.lineAt?_of_drop h.drop_eq (Char.utf8Size_pos c)
    rw [h.byteLength_take, Text.byteLength_leftOf h.before, Nat.add_zero, Nat.add_zero] at hplace
    rw [hplace, Option.map_some, Excerpt.ofPlace_firstLine]
    rfl

/-! ## The report -/

theorem Text.lineFeed_not_mem_spelled (c : Char) : '\n' ∉ spelled c := by
  unfold spelled
  split_ifs with htab hreturn hlf hmark hprintable
  · decide
  · decide
  · decide
  · simp [Ne.symm hlf]
  · simp [Ne.symm hlf]
  · simp [codePoint, lineFeed_not_mem_toDigits]

theorem Fault.not_mem_advice_nonAscii (c : Char) : '\n' ∉ (Fault.nonAscii c).advice.toList := by
  show '\n' ∉ ("Character `" ++ String.ofList (Text.spelled c) ++
    "` is outside the ASCII range").toList
  have hspelled : '\n' ∉ (String.ofList (Text.spelled c)).toList := by
    rw [String.toList_ofList]
    exact Text.lineFeed_not_mem_spelled c
  rw [String.toList_append, String.toList_append]
  exact List.not_mem_append (List.not_mem_append (by simp) hspelled) (by simp)

/-- **A text is refused** exactly if one of its characters is not ASCII, and then no session is
started over it. The error has the first such character and its place in the text, where as many
bytes as characters stand before it. The report shows the line of the character, as the text has it,
and the caret behind a dash for each character before it that does not indent the line. There is no
report exactly if the caret would stand too far right. The character above the caret is the one that
was refused, unless white space alone follows in the line and it is white space, too: then the line
that is shown ends before the caret. -/
theorem sanitize_refuses (text : List Char) {file : String} (hfile : '\n' ∉ file.toList) :
    ((∃ e, (sanitize file text).value = .error e) ↔ ∃ c ∈ text, isAscii c = false) ∧
    (∀ settings e, (Session.start settings file text).value = .error e ↔
      (sanitize file text).value = .error e) ∧
    ∀ e, (sanitize file text).value = .error e → ∃ offset c, Refused text offset c ∧
      e.fault = .nonAscii c ∧ e.position.file = file ∧
      byteLength (text.take offset) = offset ∧
      e.position.offset.toNat = offset % UInt32.size ∧
      (byteLength text < UInt32.size →
        let left := leftOf text offset
        let right := rightOf text offset
        let indent := (indentation (left ++ right)).length
        let excerpt : Excerpt := ⟨(text.take offset).count '\n' + 1,
          trimEnd ((left ++ right).drop indent), left.length - indent⟩
        let report := Report.ofError e text
        indent ≤ left.length ∧ (report.text? = none ↔ 65535 < excerpt.column + 1) ∧
        (∀ shown, report.text? = some shown →
          ∃ first second, IsLines shown.toList (first :: second :: excerpt.layout) []) ∧
        (excerpt.line[excerpt.column]? = some c ↔ ∃ d ∈ right, isSpace d = false) ∧
        ((∀ d ∈ right, isSpace d = true) → excerpt.line.length ≤ excerpt.column)) := by
  refine ⟨?_, fun settings e => start_eq_error_iff, ?_⟩
  · rw [← exists_refused_iff]
    constructor
    · rintro ⟨e, he⟩
      obtain ⟨offset, c, h, -⟩ := sanitize_eq_error_iff.1 he
      exact ⟨offset, c, h⟩
    · rintro ⟨offset, c, h⟩
      exact ⟨_, sanitize_eq_error_iff.2 ⟨offset, c, h, rfl⟩⟩
  intro e he
  obtain ⟨offset, c, h, rfl⟩ := sanitize_eq_error_iff.1 he
  refine ⟨offset, c, h, rfl, rfl, h.byteLength_take, rfl, ?_⟩
  intro hsize left right indent excerpt report
  obtain ⟨hindent, hc, hright, hexcerpt⟩ := lineAt?_refused h
  have hlt : offset < UInt32.size := by
    have hlen : byteLength (text.take offset) ≤ byteLength text := by
      conv_rhs => rw [← List.take_append_drop offset text, Text.byteLength_append]
      omega
    rw [h.byteLength_take] at hlen
    omega
  have hreport : report.excerpt? = some excerpt := by
    show (Text.lineAt? text (Position.ofByte file offset).offset.toNat).map Excerpt.ofPlace = _
    rw [offset_ofByte hlt, hexcerpt]
  have hline : '\n' ∉ excerpt.line := by
    intro hmem
    have hmem := List.mem_of_mem_drop ((trimEnd_isPrefix _).subset hmem)
    exact List.not_mem_append (Text.not_mem_leftOf _ _) (Text.not_mem_rightOf _ _) hmem
  refine ⟨hindent, ?_, ?_, ?_, ?_⟩
  · rw [Report.text?_eq_none_iff, hreport]
    simp [maxCaretWidth]
  · intro shown hshown
    exact Report.isLines_text? hreport (Fault.not_mem_name _) (Fault.not_mem_advice_nonAscii c)
      hfile hline hshown
  · have hcaret := getElem?_trimEnd hc
    rw [hright] at hcaret
    exact hcaret
  · intro hspaces
    by_contra hlt
    obtain ⟨d, hd, hspace⟩ := lt_length_trimEnd_iff.1 (Nat.not_le.1 hlt)
    have hd : d ∈ rightOf text offset := by
      rw [← hright]
      exact hd
    rw [hspaces d hd] at hspace
    cases hspace

/-- A no-break space at the end of its line is not shown, nor is the wide space behind it, and the
caret stands behind all that is. -/
theorem sanitize_refuses_invisible :
    let text := "if\n\tx\u00a0\u3000\ny".toList
    let error : Error := ⟨.nonAscii '\u00a0', .ofByte "f" 5⟩
    '\n' ∉ "f".toList ∧ (sanitize "f" text).value = .error error ∧ byteLength text < UInt32.size ∧
      ∃ shown first second, (Report.ofError error text).text? = some shown ∧
        IsLines shown.toList (first :: second :: Excerpt.layout ⟨2, ['x'], 1⟩) [] := by
  intro text error
  have hfile : '\n' ∉ "f".toList := by decide
  have hsize : byteLength text < UInt32.size := by decide
  have herror : (sanitize "f" text).value = .error error := rfl
  obtain ⟨-, -, hrefuses⟩ := sanitize_refuses text hfile
  obtain ⟨offset, c, h, -, -, -, hoffset, hreport⟩ := hrefuses error herror
  obtain rfl : offset = 5 := by
    have hlt : offset < 9 := h.lt_length
    have hmod : 5 = offset % 4294967296 := hoffset
    omega
  obtain ⟨-, hnone, hlines, -, -⟩ := hreport hsize
  cases hshown : (Report.ofError error text).text? with
  | none => exact absurd (hnone.1 hshown) (by decide)
  | some shown =>
    obtain ⟨first, second, hlines⟩ := hlines shown hshown
    exact ⟨hfile, herror, hsize, shown, first, second, rfl, hlines⟩

end Lexis
