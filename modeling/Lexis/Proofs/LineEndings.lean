import Lexis.Proofs.Excerpts
import Lexis.Proofs.Seams

/-!
# Line endings

A line may end with a line feed or with a return and a line feed, and the last one need not end at
all. The sanitized form of a text does not tell which: a comment takes the return along with its line
feed or leaves both, and of the lines that are kept each loses its return and is ended alike.

* `strip_dropReturns`: **comments are taken out of a text** with returns before its line feeds as
  they are without the returns.
* `compact_dropReturns`: so are blank lines, and the returns go with them.
* `ofAscii_lineFeed`: a last line feed makes no difference.
* `session_yields_reended`: **sessions over a text with other line endings** cannot be told apart.
-/

namespace Lexis

open Comment (Style Found uncommented)
open Text (withoutReturn dropReturns words)

/-- **A text with other line endings**: a return may have been put before any of its line feeds. -/
inductive Reended : List Char → List Char → Prop
  | nil : Reended [] []
  | keep (c : Char) {text other : List Char} : Reended text other → Reended (c :: text) (c :: other)
  | returned {text other : List Char} :
      Reended text other → Reended ('\n' :: text) ('\r' :: '\n' :: other)

variable {a b text other : List Char} {c : Char}

/-! ## Returns before line feeds -/

namespace Text

theorem dropReturns_cons (h : ¬ (c = '\r' ∧ text.head? = some '\n')) :
    dropReturns (c :: text) = c :: dropReturns text := by
  rw [dropReturns, if_neg h]

theorem dropReturns_return_lineFeed (text : List Char) :
    dropReturns ('\r' :: '\n' :: text) = '\n' :: dropReturns text := by
  rw [dropReturns, if_pos ⟨rfl, rfl⟩, dropReturns_cons (by simp)]

theorem dropReturns_sublist (text : List Char) : (dropReturns text).Sublist text := by
  induction text with
  | nil => exact List.Sublist.refl _
  | cons c text ih =>
    unfold dropReturns
    split
    · exact ih.trans (List.sublist_cons_self _ _)
    · exact ih.cons_cons c

/-- **Returns are dropped part by part** unless a return and its line feed are parted. -/
theorem dropReturns_append_of_seam (h : ¬ (a.getLast? = some '\r' ∧ b.head? = some '\n')) :
    dropReturns (a ++ b) = dropReturns a ++ dropReturns b := by
  induction a with
  | nil => rfl
  | cons c a ih =>
    have htail : ¬ (a.getLast? = some '\r' ∧ b.head? = some '\n') := by
      rintro ⟨hlast, hhead⟩
      apply h
      rw [List.getLast?_cons, hlast]
      exact ⟨rfl, hhead⟩
    have hhead : (c = '\r' ∧ (a ++ b).head? = some '\n') ↔ (c = '\r' ∧ a.head? = some '\n') := by
      cases a with
      | nil =>
        refine iff_of_false (fun hc => h ⟨?_, hc.2⟩) (by simp)
        rw [hc.1]
        rfl
      | cons d a => rfl
    rw [List.cons_append, dropReturns, dropReturns, ih htail]
    by_cases hc : c = '\r' ∧ a.head? = some '\n'
    · rw [if_pos hc, if_pos (hhead.2 hc)]
    · rw [if_neg hc, if_neg (mt hhead.1 hc), List.cons_append]

theorem dropReturns_append_cons (h : c ≠ '\n') :
    dropReturns (a ++ c :: b) = dropReturns a ++ dropReturns (c :: b) := by
  apply dropReturns_append_of_seam
  rintro ⟨-, hhead⟩
  exact h (Option.some.inj hhead)

/-- Where no return is left, none stands at the end. -/
theorem getLast?_ne_of_dropReturns (h : '\r' ∉ dropReturns a) : a.getLast? ≠ some '\r' := by
  intro hlast
  obtain ⟨body, rfl⟩ := List.getLast?_eq_some_iff.1 hlast
  apply h
  rw [dropReturns_append_cons (by decide)]
  exact List.mem_append_right _ List.mem_cons_self

/-- The returns before line feeds are in no word. -/
theorem words_dropReturns (text : List Char) : words (dropReturns text) = words text := by
  induction text using lines_induction with
  | single line h =>
    rw [dropReturns_of_not_mem h]
  | cons line rest h ih =>
    rw [dropReturns_append h, words_append_blank (by rfl), words_append_blank (by rfl),
      words_withoutReturn, ih]

end Text

/-- Returns may have been put before line feeds where they are dropped. -/
theorem reended_dropReturns (text : List Char) : Reended (dropReturns text) text := by
  induction h : text.length using Nat.strongRecOn generalizing text with
  | _ n ih =>
    subst h
    cases text with
    | nil => exact .nil
    | cons c rest =>
      by_cases hc : c = '\r' ∧ rest.head? = some '\n'
      · obtain ⟨rfl, hhead⟩ := hc
        obtain ⟨rest, rfl⟩ := List.head?_eq_some_iff.1 hhead
        rw [Text.dropReturns_return_lineFeed]
        exact .returned (ih _ (by simp only [List.length_cons]; omega) rest rfl)
      · rw [Text.dropReturns_cons hc]
        exact .keep c (ih _ (by simp) rest rfl)

/-- **Without returns of its own** a text is got back from one with other line endings. -/
theorem Reended.dropReturns_eq (h : Reended text other) (hreturn : '\r' ∉ text) :
    dropReturns other = text := by
  induction h with
  | nil => rfl
  | keep c _ ih =>
    obtain ⟨hc, htext⟩ := not_or.1 (mt List.mem_cons.2 hreturn)
    rw [Text.dropReturns_cons (fun hc' => hc hc'.1.symm), ih htext]
  | returned _ ih =>
    have htext := fun hmem => hreturn (List.mem_cons_of_mem _ hmem)
    rw [Text.dropReturns_return_lineFeed, ih htext]

theorem Reended.append {text' other' : List Char} (h : Reended text other)
    (h' : Reended text' other') : Reended (text ++ text') (other ++ other') := by
  induction h with
  | nil => exact h'
  | keep c _ ih => exact .keep c ih
  | returned _ ih => exact .returned ih

theorem Reended.ascii (h : Reended text other) (hascii : ∀ c ∈ text, Text.isAscii c = true) :
    ∀ c ∈ other, Text.isAscii c = true := by
  induction h with
  | nil => exact hascii
  | keep c _ ih =>
    obtain ⟨hc, htext⟩ := List.forall_mem_cons.1 hascii
    exact List.forall_mem_cons.2 ⟨hc, ih htext⟩
  | returned _ ih =>
    obtain ⟨hc, htext⟩ := List.forall_mem_cons.1 hascii
    exact List.forall_mem_cons.2 ⟨rfl, List.forall_mem_cons.2 ⟨hc, ih htext⟩⟩

/-! ## Comments -/

namespace Comment

variable {style : Style} {found : Found}

/-- **There is a comment** in each of two texts with the same words, or in none. -/
theorem occurs_of_words_eq (h : words text = words other) (hoccurs : style.Occurs text) :
    style.Occurs other := by
  cases style with
  | line => exact pair_infix_of_words_eq rfl rfl h hoccurs
  | block => exact block_occurs_of_words_eq h hoccurs

/-- A comment without the returns before its line feeds is a comment. -/
theorem Style.IsComment.dropReturns {comment rest : List Char} (h : style.IsComment comment rest) :
    style.IsComment (dropReturns comment) (dropReturns rest) := by
  have hplain : ∀ {c d : Char} {text : List Char}, c ≠ '\r' → d ≠ '\r' →
      Text.dropReturns (c :: d :: text) = c :: d :: Text.dropReturns text := by
    intro c d text hc hd
    rw [Text.dropReturns_cons (fun h => hc h.1), Text.dropReturns_cons (fun h => hd h.1)]
  cases style with
  | line =>
    obtain ⟨body, hbody, rfl | ⟨rfl, rfl⟩⟩ := h
    · have hlf : '\n' ∉ withoutReturn body :=
        fun hmem => hbody ((Text.withoutReturn_prefix body).subset hmem)
      refine ⟨withoutReturn body, hlf, .inl ?_⟩
      have hend := @Text.dropReturns_append body [] hbody
      rw [List.cons_append, List.cons_append, hplain (by decide) (by decide), hend]
      rfl
    · have hlf : '\n' ∉ Text.dropReturns body :=
        fun hmem => hbody ((Text.dropReturns_sublist body).subset hmem)
      exact ⟨Text.dropReturns body, hlf, .inr ⟨hplain (by decide) (by decide), rfl⟩⟩
  | block =>
    obtain ⟨body, hbody, rfl⟩ := h
    refine ⟨Text.dropReturns body, ?_, ?_⟩
    · have hstar : Text.dropReturns (body ++ ['*']) = Text.dropReturns body ++ ['*'] :=
        Text.dropReturns_append_cons (by decide)
      rw [← hstar]
      exact fun hclose => hbody (pair_infix_of_words_eq rfl rfl (Text.words_dropReturns _) hclose)
    · rw [List.cons_append, List.cons_append, hplain (by decide) (by decide),
        Text.dropReturns_append_cons (by decide)]
      rfl

/-- A return and its line feed are not parted by the end of a comment. -/
theorem Style.IsComment.seam {comment rest : List Char} (h : style.IsComment comment rest) :
    ¬ (comment.getLast? = some '\r' ∧ rest.head? = some '\n') := by
  rintro ⟨hlast, hhead⟩
  cases style with
  | line =>
    obtain ⟨body, -, rfl | ⟨-, rfl⟩⟩ := h
    · rw [List.getLast?_concat] at hlast
      exact absurd hlast (by decide)
    · cases hhead
  | block =>
    obtain ⟨body, -, rfl⟩ := h
    rw [List.getLast?_append_of_ne_nil _ (by simp)] at hlast
    exact absurd hlast (by decide)

/-- **The first comment** without the returns before line feeds is the first comment of the text
without them. -/
theorem Style.IsFirst.dropReturns (h : style.IsFirst text found) :
    style.IsFirst (dropReturns text)
      ⟨dropReturns found.code, dropReturns found.comment, dropReturns found.rest⟩ := by
  obtain ⟨tail, htail⟩ := h.comment.head
  refine ⟨?_, ?_, h.comment.dropReturns⟩
  · rw [← h.append, List.append_assoc, List.append_assoc,
      ← Text.dropReturns_append_of_seam h.comment.seam, ← Text.dropReturns_append_of_seam]
    rw [htail]
    simp
  · obtain ⟨c, hopener, hc⟩ := style.opener_eq
    have hslash : Text.dropReturns (found.code ++ ['/']) = Text.dropReturns found.code ++ ['/'] :=
      Text.dropReturns_append_cons (by decide)
    have hcode := h.code
    rw [hopener] at hcode ⊢
    rw [← hslash]
    exact fun hopen => hcode (pair_infix_of_words_eq rfl hc (Text.words_dropReturns _) hopen)

/-- **Taking comments out** and dropping returns can be done in either order, if returns stand before
line feeds only. -/
theorem strip_dropReturns (style : Style) (h : '\r' ∉ dropReturns text) :
    style.strip (dropReturns text) = dropReturns (style.strip text) := by
  induction text using comment_induction style with
  | plain text hnone =>
    have hnone' : ¬ style.Occurs (dropReturns text) :=
      fun ho => hnone (occurs_of_words_eq (Text.words_dropReturns text) ho)
    rw [strip_of_not_occurs hnone, strip_of_not_occurs hnone']
  | cut text found hfirst ih =>
    have hfirst' := hfirst.dropReturns
    rw [← hfirst'.append, List.mem_append, List.mem_append, not_or, not_or] at h
    obtain ⟨⟨hcode, -⟩, hrest⟩ := h
    -- no return stands before the comment, and so before what moves to its place
    have hseam : ¬ (found.code.getLast? = some '\r' ∧
        (style.strip found.rest).head? = some '\n') :=
      fun hc => Text.getLast?_ne_of_dropReturns hcode hc.1
    rw [strip_of_isFirst hfirst, strip_of_isFirst hfirst', ih hrest,
      Text.dropReturns_append_of_seam hseam]

theorem uncommented_dropReturns (h : '\r' ∉ dropReturns text) :
    uncommented (dropReturns text) = dropReturns (uncommented text) := by
  have hline := strip_dropReturns .line h
  have hreturn : '\r' ∉ Text.dropReturns (Style.line.strip text) := by
    rw [← hline]
    exact fun hmem => h ((strip_sublist .line _).subset hmem)
  unfold uncommented
  rw [hline, strip_dropReturns .block hreturn]

/-- **A last line feed** ends the last line comment if that has no end yet, and is left over
otherwise. -/
theorem strip_line_lineFeed (text : List Char) :
    Style.line.strip (text ++ ['\n']) = Style.line.strip text ∨
      Style.line.strip (text ++ ['\n']) = Style.line.strip text ++ ['\n'] := by
  induction text using comment_induction .line with
  | plain text h =>
    right
    have hnone : ¬ Style.line.Occurs (text ++ ['\n']) := by
      intro hpair
      rcases (pair_infix_append_cons (by decide) (by decide)).1 hpair with hpair | hpair
      · exact h hpair
      · simp at hpair
    rw [strip_of_not_occurs h, strip_of_not_occurs hnone]
  | cut text found h ih =>
    obtain ⟨body, hbody, hcomment | ⟨hcomment, hrest⟩⟩ := h.comment
    · have hfirst : Style.line.IsFirst (text ++ ['\n'])
          ⟨found.code, found.comment, found.rest ++ ['\n']⟩ := by
        refine ⟨?_, h.code, body, hbody, .inl hcomment⟩
        rw [← h.append]
        simp
      rw [strip_of_isFirst h, strip_of_isFirst hfirst, List.append_assoc]
      exact ih.imp (congrArg (found.code ++ ·)) (congrArg (found.code ++ ·))
    · left
      have hfirst : Style.line.IsFirst (text ++ ['\n'])
          ⟨found.code, found.comment ++ ['\n'], []⟩ := by
        refine ⟨?_, h.code, body, hbody, .inl (by rw [hcomment])⟩
        rw [← h.append, hrest]
        simp
      rw [strip_of_isFirst h, strip_of_isFirst hfirst, hrest]

/-- No block comment reaches to a last line feed. -/
theorem strip_block_lineFeed (text : List Char) :
    Style.block.strip (text ++ ['\n']) = Style.block.strip text ++ ['\n'] := by
  induction text using comment_induction .block with
  | plain text h =>
    have hnone : ¬ Style.block.Occurs (text ++ ['\n']) := by
      intro hoccurs
      rcases (block_occurs_append_cons (by decide) (by decide)).1 hoccurs with ho | ho | ho
      · exact h ho
      · obtain ⟨body, hbody⟩ := ho
        simp at hbody
      · simp at ho
    rw [strip_of_not_occurs h, strip_of_not_occurs hnone]
  | cut text found h ih =>
    have hfirst : Style.block.IsFirst (text ++ ['\n'])
        ⟨found.code, found.comment, found.rest ++ ['\n']⟩ := by
      refine ⟨?_, h.code, h.comment⟩
      rw [← h.append]
      simp
    rw [strip_of_isFirst h, strip_of_isFirst hfirst, ih, List.append_assoc]

end Comment

/-! ## Kept lines -/

/-- **Compacting drops a return** before each line feed anyway. -/
theorem compact_dropReturns (h : '\r' ∉ dropReturns text) :
    compact (dropReturns text) = compact text := by
  induction text using Text.lines_induction with
  | single line hline =>
    rw [Text.dropReturns_of_not_mem hline]
  | cons line rest hline ih =>
    rw [Text.dropReturns_append hline, List.mem_append, List.mem_cons, not_or, not_or] at h
    obtain ⟨hbody, -, hrest⟩ := h
    have hlf : '\n' ∉ withoutReturn line :=
      fun hmem => hline ((Text.withoutReturn_prefix line).subset hmem)
    -- a line has one return at its end at most
    have honce : withoutReturn (withoutReturn line) = withoutReturn line :=
      Text.withoutReturn_of_not_mem hbody
    rw [Text.dropReturns_append hline, compact_append hlf, compact_append hline,
      isBlankLine_withoutReturn, honce, ih hrest]

/-- A last line feed ends the last line if that has no end yet, and ends a blank line otherwise. -/
theorem compact_lineFeed (h : '\r' ∉ text) : compact (text ++ ['\n']) = compact text := by
  induction text using Text.lines_induction with
  | single line hline =>
    rw [compact_append hline, compact_single hline, Text.withoutReturn_of_not_mem h]
    exact List.append_nil _
  | cons line rest hline ih =>
    rw [List.mem_append, List.mem_cons, not_or, not_or] at h
    rw [List.append_assoc, List.cons_append, compact_append hline, compact_append hline, ih h.2.2]

/-! ## Sanitized texts and sessions -/

theorem ofAscii_dropReturns (h : '\r' ∉ dropReturns text) :
    (Sanitized.ofAscii (dropReturns text)).text = (Sanitized.ofAscii text).text := by
  have hcode := Comment.uncommented_dropReturns h
  have hreturn : '\r' ∉ dropReturns (uncommented text) := by
    rw [← hcode]
    exact fun hmem => h ((Comment.uncommented_sublist _).subset hmem)
  rw [ofAscii_text, ofAscii_text, hcode, compact_dropReturns hreturn]

/-- **A last line feed makes no difference** to a text without returns. -/
theorem ofAscii_lineFeed (h : '\r' ∉ text) :
    (Sanitized.ofAscii (text ++ ['\n'])).text = (Sanitized.ofAscii text).text := by
  have hreturn : '\r' ∉ uncommented text :=
    fun hmem => h ((Comment.uncommented_sublist text).subset hmem)
  rw [ofAscii_text, ofAscii_text]
  show compact (Style.block.strip (Style.line.strip (text ++ ['\n']))) = compact (uncommented text)
  rcases Comment.strip_line_lineFeed text with hline | hline
  · rw [hline]
    rfl
  · rw [hline, Comment.strip_block_lineFeed]
    exact compact_lineFeed hreturn

/-- **Other line endings give the same sanitized text.** -/
theorem ofAscii_reended {ending : List Char} (h : Reended text other) (hreturn : '\r' ∉ text)
    (hending : ending = [] ∨ ending = ['\n'] ∨ ending = ['\r', '\n']) :
    (Sanitized.ofAscii (other ++ ending)).text = (Sanitized.ofAscii text).text := by
  have hended : ∀ {tail : List Char}, Reended ['\n'] tail →
      (Sanitized.ofAscii (other ++ tail)).text = (Sanitized.ofAscii text).text := by
    intro tail htail
    have hlf : '\r' ∉ text ++ ['\n'] := by simp [hreturn]
    have hdrop := (h.append htail).dropReturns_eq hlf
    rw [← ofAscii_dropReturns (by rw [hdrop]; exact hlf), hdrop, ofAscii_lineFeed hreturn]
  rcases hending with rfl | rfl | rfl
  · have hdrop := h.dropReturns_eq hreturn
    rw [List.append_nil, ← ofAscii_dropReturns (by rw [hdrop]; exact hreturn), hdrop]
  · exact hended (.keep '\n' .nil)
  · exact hended (.returned .nil)

/-- **Line endings do not matter.** Let a text have no returns. If a return is put before any of its
line feeds, and one last line feed, with a return or without, is put behind the text or not, the
sanitized text stays the same. So a session gives the same tokens in the same places, and then comes
to the end or to the same error in the same place, which is reported in the same way. -/
theorem session_yields_reended (file : String) {ending : List Char}
    (h : ∀ c ∈ text, Text.isAscii c = true) (hreturn : '\r' ∉ text) (hother : Reended text other)
    (hending : ending = [] ∨ ending = ['\n'] ∨ ending = ['\r', '\n']) :
    ∃ s s', (sanitize file text).value = .ok s ∧ (sanitize file (other ++ ending)).value = .ok s' ∧
      s'.text = s.text ∧
      ∀ settings, ∃ a b tokens error?, (Session.start settings file text).value = .ok a ∧
        (Session.start settings file (other ++ ending)).value = .ok b ∧ a.source = s ∧
        b.source = s' ∧ a.Yields tokens error? ∧ b.Yields tokens error? ∧
        ∀ e, error? = some e →
          (Report.ofError e b.source.text).text? = (Report.ofError e a.source.text).text? := by
  have htext := ofAscii_reended hother hreturn hending
  have hascii : ∀ c ∈ other ++ ending, Text.isAscii c = true := by
    refine List.forall_mem_append.2 ⟨hother.ascii h, ?_⟩
    rcases hending with rfl | rfl | rfl
    · simp
    · exact List.all_eq_true.1 rfl
    · exact List.all_eq_true.1 rfl
  refine ⟨_, _, sanitize_of_ascii file h, sanitize_of_ascii file hascii, htext, ?_⟩
  intro settings
  set a := Session.ofSanitized settings file (Sanitized.ofAscii text)
  set b := Session.ofSanitized settings file (Sanitized.ofAscii (other ++ ending))
  have hyields : b.Yields (settings.read file b.words).tokens (settings.read file b.words).error? :=
    Session.yields_read rfl
  have hwords : b.words = a.words := congrArg (Text.wordsFrom 0) htext
  rw [hwords] at hyields
  refine ⟨a, b, _, _, start_of_ascii settings file h, start_of_ascii settings file hascii, rfl, rfl,
    Session.yields_read rfl, hyields, ?_⟩
  intro e _
  show (Report.ofError e (Sanitized.ofAscii (other ++ ending)).text).text? = _
  rw [htext]
  rfl

/-- Returns at the end of a line comment and inside a block comment but not behind it, and a last
comment that only one of the texts ends. -/
theorem session_yields_reended_comments :
    let text := "if // c\n/* d\n*/\n? // e".toList
    let other := "if // c\r\n/* d\r\n*/\n? // e".toList
    let error : Error := ⟨.unrecognized "?", .ofByte "f" 4⟩
    (∀ c ∈ text, Text.isAscii c = true) ∧ '\r' ∉ text ∧ Reended text other ∧
      ∃ b, (Session.start {} "f" (other ++ ['\r', '\n'])).value = .ok b ∧
        b.source.text = "if \n? \n".toList ∧
        b.Yields [⟨.keyword, "if", ⟨.ofByte "f" 0, .ofByte "f" 2⟩⟩] (some error) ∧
        (Report.ofError error b.source.text).text? =
          (Report.ofError error (Sanitized.ofAscii text).text).text? := by
  intro text other error
  have hascii : ∀ c ∈ text, Text.isAscii c = true := List.all_eq_true.1 rfl
  have hreturn : '\r' ∉ text := by decide
  have hother : Reended text other := reended_dropReturns other
  have hsource : Sanitized.ofAscii "if // c\n/* d\n*/\n? // e".toList =
      ⟨"if \n? \n".toList, 22, 16, 0⟩ := by cbv
  obtain ⟨s, s', hs, -, htext, hsessions⟩ :=
    session_yields_reended "f" hascii hreturn hother (.inr (.inr rfl))
  obtain rfl := Except.ok.inj ((sanitize_of_ascii "f" hascii).symm.trans hs)
  obtain ⟨a, b, tokens, error?, ha, hb, hsa, hsb, hyields, hyields', hreport⟩ := hsessions {}
  obtain ⟨-, rfl⟩ := start_eq_ok_iff.1 ha
  change Sanitized.ofAscii text = _ at hsource
  rw [hsource] at hyields
  have hread : Settings.read {} "f" (Text.wordsFrom 0 "if \n? \n".toList) =
      ⟨[⟨.keyword, "if", ⟨.ofByte "f" 0, .ofByte "f" 2⟩⟩], some error⟩ := rfl
  obtain ⟨rfl, rfl⟩ := hyields.unique (Session.yields_ofSanitized hread)
  refine ⟨hascii, hreturn, hother, b, hb, ?_, hyields', hreport error rfl⟩
  rw [hsb, htext, hsource]

end Lexis
