import Lexis.Proofs.Requests

/-!
# Comments that stand apart

Where a comment is taken out the code on both sides moves together, and two words may grow into one.
A space in the place of the comment would keep them apart. It makes no difference where a blank or
nothing stands on one side already.

* `words_filled`: **a space in the place of a comment** that stands apart adds no word.
* `words_fill_of_words_eq`: what is left of a text with spaces for its block comments depends on the
  words of the text alone, so that a space more or less in front of the search does not matter.
* `session_yields_filled`: **a session reads the same** if every comment of a text stands apart and
  is replaced by a space.
-/

namespace Lexis

open Comment (Style Division Found uncommented)
open Text (isBlank words)

namespace Comment

/-- The text of a division with `filler` in the place of each comment. -/
def Division.filled (filler : List Char) (d : Division) : List Char :=
  d.cuts.flatMap (fun cut => cut.code ++ filler) ++ d.tail

/-- A text with `filler` in the place of each of its comments of a style. -/
def Style.fill (filler : List Char) (style : Style) (text : List Char) : List Char :=
  (style.divide text).filled filler

/-- **Comments that stand apart**: for each of them, of the code that its style leaves before it and
the code behind it, the first ends with a blank or the second starts with one, or one of them is
empty. Comments with no code between them have the same code around them. -/
def Division.Apart (d : Division) : Prop :=
  ∀ before cut behind, d.cuts = before ++ cut :: behind →
    (∀ c ∈ (Division.code ⟨before, cut.code⟩).getLast?, isBlank c = true) ∨
      ∀ c ∈ (Division.code ⟨behind, d.tail⟩).head?, isBlank c = true

variable {text text' : List Char} {style : Style} {found : Found} {cut : Cut} {cuts : List Cut}

/-! ## Spaces for comments -/

/-- With nothing in their place the comments are taken out. -/
@[simp] theorem Division.filled_nil (d : Division) : d.filled [] = d.code := by
  unfold Division.filled Division.code
  simp only [List.append_nil]

@[simp] theorem Style.fill_nil (style : Style) (text : List Char) :
    style.fill [] text = style.strip text :=
  Division.filled_nil _

theorem Division.filled_cons (filler tail : List Char) :
    Division.filled filler ⟨cut :: cuts, tail⟩ =
      cut.code ++ (filler ++ Division.filled filler ⟨cuts, tail⟩) := by
  unfold Division.filled
  simp

theorem fill_of_not_occurs (filler : List Char) (h : ¬ style.Occurs text) :
    style.fill filler text = text := by
  unfold Style.fill
  rw [divide_of_not_occurs h]
  rfl

theorem fill_of_isFirst (filler : List Char) (h : style.IsFirst text found) :
    style.fill filler text = found.code ++ (filler ++ style.fill filler found.rest) := by
  unfold Style.fill
  rw [divide_of_isFirst h, Division.filled_cons]

/-- The comments behind the first one stand apart without the code before it. -/
theorem Division.Apart.behind {tail : List Char} (h : Division.Apart ⟨cut :: cuts, tail⟩) :
    Division.Apart ⟨cuts, tail⟩ := by
  intro before next behind hcuts
  have hcuts' : cut :: cuts = (cut :: before) ++ next :: behind := congrArg (cut :: ·) hcuts
  refine (h (cut :: before) next behind hcuts').imp ?_ id
  intro hlast c hc
  apply hlast c
  have hcode : Division.code ⟨cut :: before, next.code⟩ =
      cut.code ++ Division.code ⟨before, next.code⟩ := by
    unfold Division.code
    simp
  rw [hcode, List.getLast?_append, Option.mem_def.1 hc]
  rfl

/-- **A space in the place of a comment** that stands apart adds no word and takes none away. -/
theorem words_filled {d : Division} (h : d.Apart) : words (d.filled [' ']) = words d.code := by
  obtain ⟨cuts, tail⟩ := d
  induction cuts with
  | nil => rfl
  | cons cut cuts ih =>
    have hcode : Division.code ⟨cut :: cuts, tail⟩ = cut.code ++ Division.code ⟨cuts, tail⟩ := by
      unfold Division.code
      simp
    have hseam : (∀ c ∈ cut.code.getLast?, isBlank c = true) ∨
        ∀ c ∈ (Division.code ⟨cuts, tail⟩).head?, isBlank c = true := h [] cut cuts rfl
    have hspace : isBlank ' ' = true := rfl
    rw [Division.filled_cons, List.singleton_append, Text.words_append_blank hspace, ih h.behind, hcode,
      Text.words_append_of_blank hseam]

/-! ## The words of a text and its block comments -/

/-- **A block comment is told by the words** around its two ends. -/
theorem block_occurs_of_words_eq (h : words text = words text') (hoccurs : Style.block.Occurs text) :
    Style.block.Occurs text' := by
  obtain ⟨before, behind, rfl, s, t, rfl⟩ := block_occurs_iff.1 hoccurs
  obtain ⟨before', behind', rfl, -, -, hbehind⟩ := Text.place_of_words_eq rfl rfl h
  have hclose : s ++ ['*', '/'] ++ t = s ++ '*' :: '/' :: t := by simp
  rw [hclose] at hbehind
  obtain ⟨s', t', rfl, -⟩ := Text.place_of_words_eq rfl rfl hbehind.symm
  exact block_occurs_iff.2 ⟨before', _, rfl, s', t', by simp⟩

/-- A pair of characters that are not blanks is a place inside a word. -/
theorem pair_infix_of_words_eq {a b : Char} (ha : isBlank a = false) (hb : isBlank b = false)
    (h : words text = words text') (hpair : [a, b] <:+: text) : [a, b] <:+: text' := by
  obtain ⟨s, t, rfl⟩ := hpair
  have hplace : s ++ [a, b] ++ t = s ++ a :: b :: t := by simp
  rw [hplace] at h
  obtain ⟨s', t', rfl, -⟩ := Text.place_of_words_eq ha hb h
  exact ⟨s', t', by simp⟩

/-- **The first block comment** stands in the same place of the words, with the same words before it
and behind it. -/
theorem exists_isFirst_of_words_eq (h : words text = words text')
    (hfirst : Style.block.IsFirst text found) :
    ∃ found', Style.block.IsFirst text' found' ∧ words found'.code = words found.code ∧
      words found'.rest = words found.rest := by
  obtain ⟨body, hbody, hcomment⟩ := hfirst.comment
  have htext : text = found.code ++ '/' :: '*' :: (body ++ '*' :: '/' :: found.rest) := by
    rw [← hfirst.append, hcomment]
    simp
  rw [htext] at h
  obtain ⟨code', tail', rfl, hcode, hslash, htail⟩ := Text.place_of_words_eq rfl rfl h
  obtain ⟨body', rest', rfl, -, hstar, hrest⟩ := Text.place_of_words_eq rfl rfl htail.symm
  refine ⟨⟨code', '/' :: '*' :: body' ++ ['*', '/'], rest'⟩, ⟨?_, ?_, body', ?_, rfl⟩, hcode, hrest⟩
  · simp
  · intro hopen
    exact hfirst.code (pair_infix_of_words_eq rfl rfl hslash hopen)
  · intro hclose
    exact hbody (pair_infix_of_words_eq rfl rfl hstar hclose)

/-- **With spaces for block comments** texts with the same words leave the same words. -/
theorem words_fill_of_words_eq (h : words text = words text') :
    words (Style.block.fill [' '] text) = words (Style.block.fill [' '] text') := by
  induction text using comment_induction .block generalizing text' with
  | plain text hnone =>
    have hnone' : ¬ Style.block.Occurs text' := fun ho => hnone (block_occurs_of_words_eq h.symm ho)
    rw [fill_of_not_occurs _ hnone, fill_of_not_occurs _ hnone', h]
  | cut text found hfirst ih =>
    obtain ⟨found', hfirst', hcode, hrest⟩ := exists_isFirst_of_words_eq h hfirst
    have hspace : isBlank ' ' = true := rfl
    rw [fill_of_isFirst _ hfirst, fill_of_isFirst _ hfirst', List.singleton_append,
      List.singleton_append, Text.words_append_blank hspace, Text.words_append_blank hspace, hcode,
      ih hrest.symm]

end Comment

/-! ## Sanitized texts and sessions -/

/-- The code of a text with `filler` in the place of each line comment, and then of each block
comment of what that has made of it. -/
def Comment.filledCode (filler text : List Char) : List Char :=
  Style.block.fill filler (Style.line.fill filler text)

/-- The sanitized form that an ASCII text has with `filler` in the place of its comments. -/
def Sanitized.filling (filler text : List Char) : Sanitized :=
  let code := Comment.filledCode filler text
  { text := compact code
    bytesIn := text.length
    removed := text.length - code.length
    dropped := (Text.lines code).countP isBlankLine }

/-- The sanitized form of a text has nothing in the place of comments. -/
theorem Sanitized.filling_nil (text : List Char) : Sanitized.filling [] text = .ofAscii text := by
  unfold Sanitized.filling Comment.filledCode
  rw [Style.fill_nil, Style.fill_nil]
  rfl

/-- **Spaces for comments that stand apart** change no word of a sanitized text. -/
theorem words_filling {text : List Char} (hline : (Style.line.divide text).Apart)
    (hblock : (Style.block.divide (Style.line.strip text)).Apart) :
    words (Sanitized.filling [' '] text).text = words (Sanitized.ofAscii text).text := by
  have hfirst : words (Style.line.fill [' '] text) = words (Style.line.strip text) :=
    Comment.words_filled hline
  have hsecond : words (Style.block.fill [' '] (Style.line.strip text)) =
      words (uncommented text) := Comment.words_filled hblock
  show words (compact (Comment.filledCode [' '] text)) = words (compact (uncommented text))
  rw [words_compact, words_compact, ← hsecond]
  exact Comment.words_fill_of_words_eq hfirst

/-- **Sessions over the same words** come to the same tokens and the same fault, wherever the words
stand. -/
theorem yields_of_words_eq (settings : Settings) (file : String) {a b : Sanitized}
    (h : words a.text = words b.text) :
    ∃ tokens error? tokens' error?', (Session.ofSanitized settings file a).Yields tokens error? ∧
      (Session.ofSanitized settings file b).Yields tokens' error?' ∧ (tokens' == tokens) = true ∧
      error?'.map (·.fault) = error?.map (·.fault) := by
  rw [← @Text.map_text_wordsFrom 0, ← @Text.map_text_wordsFrom 0] at h
  obtain ⟨htokens, hfault⟩ := settings.read_of_texts_eq file file h.symm
  exact ⟨_, _, _, _, Session.yields_read rfl, Session.yields_read rfl, htokens, hfault⟩

/-- **Comments that stand apart** might be spaces as well. For an ASCII text let the line comments
stand apart, and the block comments of what is left without them. If in both passes each comment is
replaced by a space, and the lines of the code are kept or dropped as ever, a session over the result
gives the same tokens as one over the text, and then comes to the end or to the same fault like
it. -/
theorem session_yields_filled (settings : Settings) (file : String) {text : List Char}
    (h : ∀ c ∈ text, Text.isAscii c = true) (hline : (Style.line.divide text).Apart)
    (hblock : (Style.block.divide (Style.line.strip text)).Apart) :
    ∃ s tokens error? tokens' error?', (Session.start settings file text).value = .ok s ∧
      s.source = Sanitized.filling [] text ∧ s.Yields tokens error? ∧
      (Session.ofSanitized settings file (Sanitized.filling [' '] text)).Yields tokens' error?' ∧
      (tokens' == tokens) = true ∧ error?'.map (·.fault) = error?.map (·.fault) := by
  obtain ⟨tokens, error?, tokens', error?', hyields, hyields', htokens, herror⟩ :=
    yields_of_words_eq settings file (words_filling hline hblock).symm
  exact ⟨_, tokens, error?, tokens', error?', start_of_ascii settings file h,
    (Sanitized.filling_nil text).symm, hyields, hyields', htokens, herror⟩

/-- A group of two line comments behind a blank, and a block comment behind one. Where the comment
touches words on both sides they grow into one. -/
theorem session_yields_filled_group :
    let text := "if // c\n// d\nx /* e\n*/y".toList
    (∀ c ∈ text, Text.isAscii c = true) ∧ (Style.line.divide text).Apart ∧
      (Style.block.divide (Style.line.strip text)).Apart ∧
      (Sanitized.filling [' '] text).text = "if   x  y\n".toList ∧
      (∃ tokens, (Session.ofSanitized {} "f" (Sanitized.filling [' '] text)).Yields tokens none ∧
        (tokens == [⟨.keyword, "if", ⟨.ofByte "f" 0, .ofByte "f" 2⟩⟩,
          ⟨.identifier, "x", ⟨.ofByte "f" 3, .ofByte "f" 4⟩⟩,
          ⟨.identifier, "y", ⟨.ofByte "f" 5, .ofByte "f" 6⟩⟩]) = true) ∧
      ∃ s, (Session.start {} "f" "if// c\nx".toList).value = .ok s ∧
        s.Yields [⟨.identifier, "ifx", ⟨.ofByte "f" 0, .ofByte "f" 3⟩⟩] none := by
  intro text
  have hascii : ∀ c ∈ text, Text.isAscii c = true := List.all_eq_true.1 rfl
  have hfirst : Style.line.divide "if // c\n// d\nx /* e\n*/y".toList =
      ⟨[⟨"if ".toList, "// c\n".toList⟩, ⟨[], "// d\n".toList⟩], "x /* e\n*/y".toList⟩ := by cbv
  have hsecond : Style.block.divide (Style.line.strip "if // c\n// d\nx /* e\n*/y".toList) =
      ⟨[⟨"if x ".toList, "/* e\n*/".toList⟩], "y".toList⟩ := by cbv
  have hline : (Style.line.divide text).Apart := by
    change Style.line.divide text = _ at hfirst
    rw [hfirst]
    intro before cut behind hcuts
    left
    rcases before with _ | ⟨first, _ | ⟨second, before⟩⟩
    · obtain ⟨rfl, -⟩ := List.cons.inj hcuts
      simp [Division.code, Text.isBlank]
    · obtain ⟨hcut, hcuts⟩ := List.cons.inj hcuts
      obtain ⟨rfl, -⟩ := List.cons.inj hcuts
      rw [← hcut]
      simp [Division.code, Text.isBlank]
    · simp at hcuts
  have hblock : (Style.block.divide (Style.line.strip text)).Apart := by
    change Style.block.divide (Style.line.strip text) = _ at hsecond
    rw [hsecond]
    intro before cut behind hcuts
    left
    rcases before with _ | ⟨first, before⟩
    · obtain ⟨rfl, -⟩ := List.cons.inj hcuts
      simp [Division.code, Text.isBlank]
    · simp at hcuts
  have hfilled : (Sanitized.filling [' '] "if // c\n// d\nx /* e\n*/y".toList).text =
      "if   x  y\n".toList := by cbv
  have hsource : Sanitized.filling [] "if // c\n// d\nx /* e\n*/y".toList =
      ⟨"if x y\n".toList, 23, 17, 0⟩ := by cbv
  have hglued : Sanitized.ofAscii "if// c\nx".toList = ⟨"ifx\n".toList, 8, 5, 0⟩ := by cbv
  refine ⟨hascii, hline, hblock, hfilled, ?_, ?_⟩
  · obtain ⟨s, tokens, error?, tokens', error?', hstart, hs, hyields, hyields', htokens, hfault⟩ :=
      session_yields_filled {} "f" hascii hline hblock
    obtain ⟨-, rfl⟩ := start_eq_ok_iff.1 hstart
    have hread : Settings.read {} "f" (Text.wordsFrom 0 "if x y\n".toList) =
        ⟨[⟨.keyword, "if", ⟨.ofByte "f" 0, .ofByte "f" 2⟩⟩,
          ⟨.identifier, "x", ⟨.ofByte "f" 3, .ofByte "f" 4⟩⟩,
          ⟨.identifier, "y", ⟨.ofByte "f" 5, .ofByte "f" 6⟩⟩], none⟩ := rfl
    change Sanitized.ofAscii text = _ at hs
    rw [hs] at hyields
    change (Session.ofSanitized {} "f" (Sanitized.filling [] text)).Yields _ _ at hyields
    change Sanitized.filling [] text = _ at hsource
    rw [hsource] at hyields
    obtain ⟨rfl, rfl⟩ := hyields.unique (Session.yields_ofSanitized hread)
    rw [Option.map_none, Option.map_eq_none_iff] at hfault
    rw [hfault] at hyields'
    exact ⟨tokens', hyields', htokens⟩
  · have hascii' : ∀ c ∈ "if// c\nx".toList, Text.isAscii c = true := List.all_eq_true.1 rfl
    have hread : Settings.read {} "f" (Text.wordsFrom 0 "ifx\n".toList) =
        ⟨[⟨.identifier, "ifx", ⟨.ofByte "f" 0, .ofByte "f" 3⟩⟩], none⟩ := rfl
    have hstart := start_of_ascii {} "f" hascii'
    rw [hglued] at hstart
    exact ⟨_, hstart, Session.yields_ofSanitized hread⟩

end Lexis
