import Lexis.Proofs.Reading

/-!
# The bytes of a sanitized text

What the log tells of a sanitized text accounts for all of its bytes. What the text had is in the
comments, in the blank lines, in the returns at the end of the other lines, or in the sanitized text,
which has one byte more only if the last line had no line feed and is kept.

* `Division.byteLength_join`: the bytes of a division are those of the comments and of the code.
* `byteLength_lineBody`: the bytes of a line, before and after.
* `byteLength_compact`: **the bytes of the lines** of a code, kept or dropped.
* `byteLength_compact_eq_succ_iff`: when a code gets a byte longer.
* `events_sanitize`: what the log tells, in bytes.
* `sanitize_accounts`: **the bytes of a text** and of its sanitized form, as they are logged.
-/

namespace Lexis

open Comment (Style Division Cut uncommented)
open Text (isBlank byteLength IsLines unlines lineBody)

variable {text code line last : List Char} {terminated ls : List (List Char)}

/-- Without bytes there is nothing. -/
theorem byteLength_flatten_eq_zero_iff (hne : ∀ l ∈ ls, l ≠ []) :
    byteLength ls.flatten = 0 ↔ ls = [] := by
  constructor
  · intro hzero
    cases ls with
    | nil => rfl
    | cons l ls =>
      obtain ⟨c, l, rfl⟩ := List.exists_cons_of_ne_nil (hne l List.mem_cons_self)
      have hc := Char.utf8Size_pos c
      rw [List.flatten_cons, List.cons_append, Text.byteLength_cons] at hzero
      omega
  · rintro rfl
    rfl

/-! ## Comments -/

namespace Comment

/-- The comments of a division, in order. -/
def Division.comments (d : Division) : List (List Char) := d.cuts.map (·.comment)

/-- **The bytes of a division** are those of its comments and of its code. -/
theorem Division.byteLength_join (d : Division) :
    byteLength d.join = byteLength d.comments.flatten + byteLength d.code := by
  obtain ⟨cuts, tail⟩ := d
  unfold join comments code
  induction cuts with
  | nil => simp
  | cons cut cuts ih =>
    simp only [List.flatMap_cons, List.append_assoc, List.map_cons, List.flatten_cons,
      Text.byteLength_append] at ih ⊢
    omega

theorem Division.code_of_comments_eq_nil {d : Division} (h : d.comments = []) :
    d.code = d.join := by
  obtain ⟨cuts, tail⟩ := d
  obtain rfl : cuts = [] := List.map_eq_nil_iff.1 h
  rfl

theorem Style.Divides.comment_ne_nil {style : Style} {d : Division} (h : style.Divides text d) :
    ∀ comment ∈ d.comments, comment ≠ [] := by
  intro comment hcomment
  obtain ⟨cut, hcut, rfl⟩ := List.mem_map.1 hcomment
  obtain ⟨before, behind, hcuts⟩ := List.append_of_mem hcut
  have hcomment := h.comment before cut behind hcuts
  cases style with
  | line =>
    obtain ⟨body, -, hbody | ⟨hbody, -⟩⟩ := hcomment
    · simp [hbody]
    · simp [hbody]
  | block =>
    obtain ⟨body, -, hbody⟩ := hcomment
    simp [hbody]

section

variable {d₁ d₂ : Division} (h₁ : Style.line.Divides text d₁) (h₂ : Style.block.Divides d₁.code d₂)

include h₁ h₂

/-- The bytes of the comments of both styles, and of the code without them. -/
theorem byteLength_comments : byteLength (d₁.comments ++ d₂.comments).flatten +
    byteLength d₂.code = byteLength text := by
  have hjoin₁ := d₁.byteLength_join
  have hjoin₂ := d₂.byteLength_join
  rw [h₁.join] at hjoin₁
  rw [h₂.join] at hjoin₂
  rw [List.flatten_append, Text.byteLength_append]
  omega

theorem byteLength_comments_eq_zero_iff :
    byteLength (d₁.comments ++ d₂.comments).flatten = 0 ↔ d₁.comments ++ d₂.comments = [] := by
  apply byteLength_flatten_eq_zero_iff
  exact List.forall_mem_append.2 ⟨h₁.comment_ne_nil, h₂.comment_ne_nil⟩

/-- Without comments the text is its code. -/
theorem code_eq_of_comments_eq_nil (h : d₁.comments ++ d₂.comments = []) : d₂.code = text := by
  obtain ⟨hnil₁, hnil₂⟩ := List.append_eq_nil_iff.1 h
  rw [d₂.code_of_comments_eq_nil hnil₂, h₂.join, d₁.code_of_comments_eq_nil hnil₁, h₁.join]

end

end Comment

/-! ## Lines -/

/-- Lines are of one sort or the other. -/
theorem byteLength_filter_add (p : List Char → Bool) (ls : List (List Char)) :
    byteLength (ls.filter p).flatten + byteLength (ls.filter (!p ·)).flatten =
      byteLength ls.flatten := by
  induction ls with
  | nil => rfl
  | cons l ls ih =>
    rw [List.flatten_cons, Text.byteLength_append, ← ih]
    cases hp : p l with
    | true =>
      rw [List.filter_cons_of_pos hp, List.filter_cons_of_neg (by simp [hp]), List.flatten_cons,
        Text.byteLength_append]
      omega
    | false =>
      rw [List.filter_cons_of_neg (by simp [hp]), List.filter_cons_of_pos (by simp [hp]),
        List.flatten_cons, Text.byteLength_append]
      omega

/-- A line feed is a line's last character if one has ended it. -/
theorem isSuffixOf_concat_lineFeed (body : List Char) :
    ['\r', '\n'].isSuffixOf (body ++ ['\n']) = true ↔ body.getLast? = some '\r' := by
  rw [List.isSuffixOf_iff_suffix, List.getLast?_eq_some_iff]
  constructor
  · rintro ⟨front, hfront⟩
    have hsplit : (front ++ ['\r']) ++ ['\n'] = body ++ ['\n'] := by simpa using hfront
    exact ⟨front, (List.append_cancel_right hsplit).symm⟩
  · rintro ⟨front, rfl⟩
    exact ⟨front, by simp⟩

theorem not_isSuffixOf_of_getLast? (h : line.getLast? ≠ some '\n') :
    ¬ ['\r', '\n'].isSuffixOf line = true := by
  rw [List.isSuffixOf_iff_suffix]
  rintro ⟨front, rfl⟩
  exact h (by simp)

/-- **The bytes of a line.** Without its terminator and with a line feed it is shorter by a return
before the line feed, and longer if no line feed has ended it. -/
theorem byteLength_lineBody (line : List Char) :
    byteLength (lineBody line ++ ['\n']) + (if ['\r', '\n'].isSuffixOf line then 1 else 0) =
      byteLength line + (if line.getLast? = some '\n' then 0 else 1) := by
  have hlf : byteLength ['\n'] = 1 := rfl
  have hreturn : byteLength ['\r'] = 1 := rfl
  by_cases hlast : line.getLast? = some '\n'
  · obtain ⟨body, rfl⟩ := List.getLast?_eq_some_iff.1 hlast
    rw [Text.lineBody_eq_withoutReturn, if_pos hlast]
    rcases Text.withoutReturn_cases body with hbody | ⟨hbody, hend⟩
    · have hend : body.getLast? = some '\r' := by rw [hbody, List.getLast?_concat]
      have hlen := congrArg byteLength hbody
      rw [if_pos ((isSuffixOf_concat_lineFeed body).2 hend), Text.byteLength_append,
        Text.byteLength_append]
      rw [Text.byteLength_append] at hlen
      omega
    · rw [if_neg (mt (isSuffixOf_concat_lineFeed body).1 hend), hbody]
  · rw [if_neg hlast, if_neg (not_isSuffixOf_of_getLast? hlast), lineBody, if_neg hlast,
      Text.byteLength_append, hlf]

/-- The bytes of lines that are all kept. -/
theorem byteLength_unlines (ls : List (List Char)) :
    byteLength (unlines (ls.map lineBody)) + ls.countP (['\r', '\n'].isSuffixOf ·) =
      byteLength ls.flatten + ls.countP (·.getLast? ≠ some '\n') := by
  induction ls with
  | nil => rfl
  | cons l ls ih =>
    have hl := byteLength_lineBody l
    rw [List.map_cons, Text.unlines_cons, ← List.singleton_append, ← List.append_assoc,
      Text.byteLength_append (lineBody l ++ ['\n']), List.countP_cons, List.flatten_cons,
      Text.byteLength_append l, List.countP_cons]
    have hended : (if decide (l.getLast? ≠ some '\n') = true then 1 else 0) =
        (if l.getLast? = some '\n' then 0 else 1) := by
      by_cases hlast : l.getLast? = some '\n' <;> simp [hlast]
    omega

@[simp] theorem isBlankLine_lineBody (line : List Char) :
    isBlankLine (lineBody line) = isBlankLine line := by
  by_cases hlast : line.getLast? = some '\n'
  · obtain ⟨body, rfl⟩ := List.getLast?_eq_some_iff.1 hlast
    have hlf : isBlank '\n' = true := rfl
    rw [Text.lineBody_eq_withoutReturn, isBlankLine_withoutReturn]
    simp [isBlankLine, hlf]
  · rw [lineBody, if_neg hlast]

theorem keptLines_eq (code : List Char) :
    keptLines code = ((Text.lines code).filter (!isBlankLine ·)).map lineBody := by
  unfold keptLines
  rw [List.filter_map]
  congr 2
  funext line
  simp

/-- Only the last line can be without a line feed. -/
theorem countP_unended (h : IsLines code terminated last) :
    ((Text.lines code).filter (!·.all isBlank)).countP (·.getLast? ≠ some '\n') =
      if last.any (!isBlank ·) then 1 else 0 := by
  have hterm : ((terminated.map (· ++ ['\n'])).filter (!·.all isBlank)).countP
      (·.getLast? ≠ some '\n') = 0 := by
    rw [List.countP_eq_zero]
    intro l hl
    obtain ⟨body, -, rfl⟩ := List.mem_map.1 (List.mem_filter.1 hl).1
    simp
  have hlast : last.getLast? ≠ some '\n' := fun hlf => h.last (List.mem_of_getLast? hlf)
  rw [Text.lines_of_isLines h, List.filter_append, List.countP_append, hterm, Nat.zero_add,
    ← List.not_all_eq_any_not]
  by_cases hnil : last = []
  · rw [if_pos hnil, hnil]
    rfl
  · rw [if_neg hnil]
    cases hblank : last.all isBlank <;> simp [hblank, hlast]

/-- **A return before a line feed** stands at the end of a line. -/
theorem exists_return_iff : ['\r', '\n'] <:+: code ↔
    ∃ l ∈ Text.lines code, ['\r', '\n'].isSuffixOf l = true := by
  induction code using Text.lines_induction with
  | single line hline =>
    refine iff_of_false (fun h => hline (h.subset (by simp))) ?_
    rintro ⟨l, hl, hsuffix⟩
    have hmem : '\n' ∈ l := (List.isSuffixOf_iff_suffix.1 hsuffix).subset (by simp)
    apply hline
    rw [← Text.flatten_lines line]
    exact List.mem_flatten_of_mem hl hmem
  | cons line rest hline ih =>
    have hfirst : ['\r', '\n'] <:+: line ++ ['\n'] ↔
        ['\r', '\n'].isSuffixOf (line ++ ['\n']) = true := by
      have hpair : ¬ ['\r', '\n'] <:+: line := fun h => hline (h.subset (by simp))
      have hlf : ¬ ['\r', '\n'] <:+: ['\n'] := by decide
      rw [isSuffixOf_concat_lineFeed, Comment.pair_infix_append]
      simp [hpair, hlf]
    -- behind its line feed the pair cannot lie across the end of the first line
    have hsplit : line ++ '\n' :: rest = (line ++ ['\n']) ++ rest := by simp
    rw [Text.lines_append_lineFeed hline, List.exists_mem_cons_iff, ← ih, ← hfirst, hsplit,
      Comment.pair_infix_append (l := line ++ ['\n'])]
    simp

/-- If no line is dropped, the last line is kept without a line feed exactly if the code has such a
line. -/
theorem last_any_iff (h : IsLines code terminated last)
    (hdropped : (Text.lines code).filter (·.all isBlank) = []) :
    last.any (!isBlank ·) = true ↔ code ≠ [] ∧ code.getLast? ≠ some '\n' := by
  constructor
  · intro hany
    have hne : last ≠ [] := by
      rintro rfl
      cases hany
    rw [h.join, List.getLast?_append_of_ne_nil _ hne]
    exact ⟨by simp [hne], fun hlf => h.last (List.mem_of_getLast? hlf)⟩
  · rintro ⟨hne, hlf⟩
    have hlast : last ≠ [] := by
      rintro rfl
      rw [h.join, List.append_nil] at hne hlf
      exact hlf (Text.unlines_getLast? _ hne)
    have hmem : last ∈ Text.lines code := by
      rw [Text.lines_of_isLines h, if_neg hlast]
      simp
    have hkept := List.filter_eq_nil_iff.1 hdropped last hmem
    rwa [← List.not_all_eq_any_not, Bool.not_eq_true', ← Bool.not_eq_true]

/-- If no line is dropped, returns at the end of lines that are kept are returns before line feeds. -/
theorem countP_returns_eq_zero_iff (hdropped : (Text.lines code).filter (·.all isBlank) = []) :
    ((Text.lines code).filter (!·.all isBlank)).countP (['\r', '\n'].isSuffixOf ·) = 0 ↔
      ¬ ['\r', '\n'] <:+: code := by
  have hkept : (Text.lines code).filter (!·.all isBlank) = Text.lines code := by
    rw [List.filter_eq_self]
    intro l hl
    simpa using List.filter_eq_nil_iff.1 hdropped l hl
  rw [hkept, List.countP_eq_zero, exists_return_iff]
  simp

theorem lines_ne_nil (h : IsLines code terminated last) : ∀ l ∈ Text.lines code, l ≠ [] := by
  rw [Text.lines_of_isLines h, List.forall_mem_append]
  constructor
  · intro l hl
    obtain ⟨body, -, rfl⟩ := List.mem_map.1 hl
    simp
  · intro l hl
    split at hl
    · cases hl
    · rename_i hne
      rwa [List.mem_singleton.1 hl]

/-- **The bytes of the lines of a code.** They are in the lines that are dropped, in the returns at the
end of the others, or kept; and a line feed is added if the last line is kept and has none. -/
theorem byteLength_compact (h : IsLines code terminated last) :
    let dropped := (Text.lines code).filter (·.all isBlank)
    let kept := (Text.lines code).filter (!·.all isBlank)
    byteLength (compact code) + byteLength dropped.flatten +
        kept.countP (['\r', '\n'].isSuffixOf ·) =
      byteLength code + if last.any (!isBlank ·) then 1 else 0 := by
  intro dropped kept
  have hkept : compact code = unlines (kept.map lineBody) := congrArg unlines (keptLines_eq code)
  have hbytes := byteLength_unlines kept
  have hlines : byteLength dropped.flatten + byteLength kept.flatten = byteLength code := by
    rw [byteLength_filter_add, Text.flatten_lines]
  have hended : kept.countP (·.getLast? ≠ some '\n') =
      if last.any (!isBlank ·) then 1 else 0 := countP_unended h
  rw [hkept]
  omega

theorem byteLength_compact_le (code : List Char) :
    byteLength (compact code) ≤ byteLength code + 1 := by
  obtain ⟨terminated, last, h⟩ := Text.exists_isLines code
  have hbytes := byteLength_compact h
  have hadded : (if last.any (!isBlank ·) then 1 else 0) ≤ 1 := by
    split <;> omega
  omega

/-- **When a code gets a byte longer.** A line feed is added, and no byte is taken away. -/
theorem byteLength_compact_eq_succ_iff (code : List Char) :
    byteLength (compact code) = byteLength code + 1 ↔
      code ≠ [] ∧ code.getLast? ≠ some '\n' ∧ (Text.lines code).filter (·.all isBlank) = [] ∧
        ¬ ['\r', '\n'] <:+: code := by
  obtain ⟨terminated, last, h⟩ := Text.exists_isLines code
  have hbytes := byteLength_compact h
  set dropped := (Text.lines code).filter (·.all isBlank)
  set returns := ((Text.lines code).filter (!·.all isBlank)).countP (['\r', '\n'].isSuffixOf ·)
  have hdropped : byteLength dropped.flatten = 0 ↔ dropped = [] :=
    byteLength_flatten_eq_zero_iff fun l hl => lines_ne_nil h l (List.mem_of_mem_filter hl)
  constructor
  · intro hmost
    -- one byte is all that can be added, so nothing of what is taken away is there
    have hlast : last.any (!isBlank ·) = true := by
      by_contra hnot
      rw [if_neg hnot] at hbytes
      omega
    rw [if_pos hlast] at hbytes
    have hnone : dropped = [] := hdropped.1 (by omega)
    obtain ⟨hne, hend⟩ := (last_any_iff h hnone).1 hlast
    exact ⟨hne, hend, hnone, (countP_returns_eq_zero_iff hnone).1 (by omega)⟩
  · rintro ⟨hne, hend, hnone, hreturn⟩
    have hlast := (last_any_iff h hnone).2 ⟨hne, hend⟩
    have hzero : returns = 0 := (countP_returns_eq_zero_iff hnone).2 hreturn
    have hkept := hdropped.2 hnone
    rw [if_pos hlast] at hbytes
    omega

/-! ## What the log tells -/

/-- An ASCII text is sanitized, and the log tells of it. -/
theorem sanitize_eq_of_ascii (file : String) (h : ∀ c ∈ text, Text.isAscii c = true) :
    sanitize file text =
      ⟨.ok (Sanitized.ofAscii text), (Sanitized.ofAscii text).events file⟩ := by
  have hdrop : text.dropWhile Text.isAscii = [] := List.dropWhile_eq_nil_iff.2 h
  rw [sanitize, hdrop]

section

variable {d₁ d₂ : Division} (file : String) (h : ∀ c ∈ text, Text.isAscii c = true)
  (h₁ : Style.line.Divides text d₁) (h₂ : Style.block.Divides d₁.code d₂)

include h h₁ h₂

/-- **What the log tells** of an ASCII text, in bytes: those of the comments, those of the text before
and after, and the number of blank lines. -/
theorem events_sanitize : (sanitize file text).events =
    [.uncommented (byteLength (d₁.comments ++ d₂.comments).flatten) file,
      .sanitized file (byteLength text) (byteLength (Sanitized.ofAscii text).text)
        ((Text.lines d₂.code).filter (·.all isBlank)).length] := by
  have hbytes := Comment.byteLength_comments h₁ h₂
  have hcode : d₂.code = uncommented text := by
    rw [Comment.divides_iff.1 h₂, Comment.divides_iff.1 h₁]
    rfl
  -- in ASCII the lengths that are logged are numbers of bytes
  have hin := Text.byteLength_of_ascii h
  have hout := Text.byteLength_of_ascii (ascii_ofAscii h)
  have hcodeBytes : byteLength (uncommented text) = (uncommented text).length :=
    Text.byteLength_of_ascii fun c hc => h c ((Comment.uncommented_sublist text).subset hc)
  rw [hcode] at hbytes ⊢
  have hremoved : byteLength (d₁.comments ++ d₂.comments).flatten =
      text.length - (uncommented text).length := by omega
  rw [sanitize_eq_of_ascii file h, hremoved, hin, hout, ← List.countP_eq_length_filter]
  rfl

end

/-- **The bytes of a text** and of its sanitized form. Let a text be divided at its comments, first at
those of lines and then at blocks, and let `lines` be the lines of what they leave. The log tells the
bytes of the comments, those of the text, those of the sanitized text, and the number of blank lines.
The bytes of the text less those of the comments are in the sanitized text, in the lines that are
dropped, and in the returns at the end of those that are kept; but if the last line is kept and has no
line feed, there is one more. So the sanitized text has at most one byte more than the text, and it
has that exactly if the text has a last line without a line feed, and nothing that is taken away. -/
theorem sanitize_accounts (file : String) {text : List Char}
    (h : ∀ c ∈ text, Text.isAscii c = true) :
    ∃ d₁ d₂ terminated last s, Style.line.Divides text d₁ ∧ Style.block.Divides d₁.code d₂ ∧
      IsLines d₂.code terminated last ∧
      let comments := d₁.comments ++ d₂.comments
      let lines := terminated.map (· ++ ['\n']) ++ (if last = [] then [] else [last])
      let dropped := lines.filter (·.all isBlank)
      let returns := (lines.filter (!·.all isBlank)).countP (['\r', '\n'].isSuffixOf ·)
      let added := if last.any (!isBlank ·) then 1 else 0
      let bytesIn := byteLength text
      let bytesOut := byteLength s.text
      let removed := byteLength comments.flatten
      (sanitize file text).value = .ok s ∧
      (sanitize file text).events =
        [.uncommented removed file, .sanitized file bytesIn bytesOut dropped.length] ∧
      removed + byteLength d₂.code = bytesIn ∧
      bytesIn - removed + added = bytesOut + byteLength dropped.flatten + returns ∧
      bytesOut ≤ bytesIn + 1 ∧
      (bytesOut = bytesIn + 1 ↔ text ≠ [] ∧ text.getLast? ≠ some '\n' ∧ comments = [] ∧
        dropped = [] ∧ ¬ ['\r', '\n'] <:+: text) := by
  have h₁ := Comment.divides_divide .line text
  have h₂ := Comment.divides_divide .block (Style.line.divide text).code
  set d₁ := Style.line.divide text
  set d₂ := Style.block.divide d₁.code
  obtain ⟨terminated, last, hlines⟩ := Text.exists_isLines d₂.code
  refine ⟨d₁, d₂, terminated, last, Sanitized.ofAscii text, h₁, h₂, hlines, ?_⟩
  rw [← Text.lines_of_isLines hlines]
  intro comments lines dropped returns added bytesIn bytesOut removed
  have hremoved : removed + byteLength d₂.code = bytesIn := Comment.byteLength_comments h₁ h₂
  have hbytes : bytesOut + byteLength dropped.flatten + returns = byteLength d₂.code + added :=
    byteLength_compact hlines
  have hmost : bytesOut ≤ byteLength d₂.code + 1 := byteLength_compact_le d₂.code
  have hcomments : removed = 0 ↔ comments = [] := Comment.byteLength_comments_eq_zero_iff h₁ h₂
  have htext : comments = [] → d₂.code = text := Comment.code_eq_of_comments_eq_nil h₁ h₂
  have hlonger : bytesOut = byteLength d₂.code + 1 ↔ d₂.code ≠ [] ∧ d₂.code.getLast? ≠ some '\n' ∧
      dropped = [] ∧ ¬ ['\r', '\n'] <:+: d₂.code := byteLength_compact_eq_succ_iff d₂.code
  refine ⟨sanitize_of_ascii file h, events_sanitize file h h₁ h₂, hremoved, by omega, by omega, ?_⟩
  constructor
  · intro hone
    have hnil : comments = [] := hcomments.1 (by omega)
    obtain ⟨hne, hend, hnone, hreturn⟩ := hlonger.1 (by omega)
    rw [htext hnil] at hne hend hreturn
    exact ⟨hne, hend, hnil, hnone, hreturn⟩
  · rintro ⟨hne, hend, hnil, hnone, hreturn⟩
    rw [← htext hnil] at hne hend hreturn
    have hzero := hcomments.2 hnil
    have hone := hlonger.2 ⟨hne, hend, hnone, hreturn⟩
    omega

/-- A comment of either style, a blank line, a return and a last line that nothing ends; and a text of
which nothing is taken away. -/
theorem sanitize_accounts_mixed :
    let text := "if// x\n\n \nb\r\n/**/c".toList
    let short := "if".toList
    ((∀ c ∈ text, Text.isAscii c = true) ∧ ∃ d₁ d₂ s, Style.line.Divides text d₁ ∧
      Style.block.Divides d₁.code d₂ ∧ byteLength (d₁.comments ++ d₂.comments).flatten = 9 ∧
      (sanitize "f" text).value = .ok s ∧ s.text = "if\nb\nc\n".toList ∧
      (sanitize "f" text).events = [.uncommented 9 "f", .sanitized "f" 18 7 1]) ∧
    (∀ c ∈ short, Text.isAscii c = true) ∧ ∃ s, (sanitize "f" short).value = .ok s ∧
      byteLength s.text = byteLength short + 1 := by
  intro text short
  have hascii : ∀ c ∈ text, Text.isAscii c = true := List.all_eq_true.1 rfl
  have hascii' : ∀ c ∈ short, Text.isAscii c = true := List.all_eq_true.1 rfl
  have hsource : Sanitized.ofAscii "if// x\n\n \nb\r\n/**/c".toList =
      ⟨"if\nb\nc\n".toList, 18, 9, 1⟩ := by cbv
  change Sanitized.ofAscii text = _ at hsource
  refine ⟨⟨hascii, ?_⟩, hascii', ?_⟩
  · obtain ⟨d₁, d₂, terminated, last, s, hd₁, hd₂, hlines, hvalue, hevents, -⟩ :=
      sanitize_accounts "f" hascii
    have hs := Except.ok.inj ((sanitize_of_ascii "f" hascii).symm.trans hvalue)
    rw [hsource] at hs
    have hlogged := congrArg Logged.events (sanitize_eq_of_ascii "f" hascii)
    rw [hsource] at hlogged
    have hremoved := (List.cons.inj (hevents.symm.trans hlogged)).1
    exact ⟨d₁, d₂, s, hd₁, hd₂, (Event.uncommented.inj hremoved).1, hvalue, hs ▸ rfl, hlogged⟩
  · obtain ⟨d₁, d₂, terminated, last, s, hd₁, hd₂, hlines, hvalue, -, -, -, -, hmost⟩ :=
      sanitize_accounts "f" hascii'
    have hslash : '/' ∉ short := by decide
    have hnone : d₁ = ⟨[], short⟩ := by
      rw [Comment.divides_iff.1 hd₁,
        Comment.divide_of_not_occurs (Comment.not_occurs_of_not_mem hslash)]
    subst hnone
    have hnone : d₂ = ⟨[], short⟩ := by
      rw [Comment.divides_iff.1 hd₂]
      exact Comment.divide_of_not_occurs (Comment.not_occurs_of_not_mem hslash)
    subst hnone
    rw [← Text.lines_of_isLines hlines] at hmost
    exact ⟨s, hvalue, hmost.2 ⟨by decide, by decide, rfl, rfl, by decide⟩⟩

end Lexis
