import Lexis.Proofs.Alphabet
import Lexis.Proofs.Requests
import Mathlib.Data.List.Forall2

/-!
# Words that are written out and read again

`printed` writes words down with blanks around them. As words of the language have no slash, there
is no comment in what is written, however the words and the blanks are chosen, and as they have no
blank, the words are found again.

* `words_printed`: words that are set apart by blanks are the words of their text.
* `session_reads_printed`: **a session gives back the words of the language that are written out**,
  and so the tokens of a text whose values are written out.
-/

namespace Lexis

open Text (isBlank words Word)

/-- A word and the blanks that are put behind it. -/
structure Piece where
  word : List Char
  blanks : List Char
deriving DecidableEq, Repr

/-- The text of some pieces with blanks in front of it. -/
def printed (lead : List Char) (pieces : List Piece) : List Char :=
  lead ++ pieces.flatMap fun p => p.word ++ p.blanks

/-- **Words set apart**: blanks and nothing else stand around them, and there is one at least
between any two. -/
structure SetApart (lead : List Char) (pieces : List Piece) : Prop where
  lead : ∀ c ∈ lead, isBlank c = true
  blanks : ∀ p ∈ pieces, ∀ c ∈ p.blanks, isBlank c = true
  between : ∀ p ∈ pieces.dropLast, p.blanks ≠ []

variable {lead : List Char} {pieces : List Piece} {settings : Settings}

/-! ## The words of what is written -/

/-- What follows a word that is set apart starts with a blank. -/
theorem SetApart.isBlank_head {p : Piece} (h : SetApart lead (p :: pieces)) :
    ∀ c ∈ (p.blanks ++ printed [] pieces).head?, isBlank c = true := by
  intro c hc
  have hblanks := h.blanks p List.mem_cons_self
  cases hb : p.blanks with
  | nil =>
    -- no blanks are put behind the last word only, and there the text ends
    cases pieces with
    | nil => rw [hb] at hc; cases hc
    | cons q pieces => exact absurd hb (h.between p List.mem_cons_self)
  | cons d blanks =>
    rw [hb] at hc hblanks
    have hd : d = c := by simpa using hc
    rw [← hd]
    exact hblanks d List.mem_cons_self

theorem SetApart.tail {p : Piece} (h : SetApart lead (p :: pieces)) : SetApart [] pieces := by
  refine ⟨by simp, fun q hq => h.blanks q (List.mem_cons_of_mem p hq), ?_⟩
  intro q hq
  apply h.between q
  cases pieces with
  | nil => simp at hq
  | cons r pieces => exact List.mem_cons_of_mem p hq

/-- **Words that are set apart** are the words of their text. -/
theorem words_printed (h : SetApart lead pieces)
    (hwords : ∀ p ∈ pieces, p.word ≠ [] ∧ ∀ c ∈ p.word, isBlank c = false) :
    words (printed lead pieces) = pieces.map (·.word) := by
  induction pieces generalizing lead with
  | nil => exact Text.words_blanks_append h.lead
  | cons p pieces ih =>
    obtain ⟨⟨hne, hword⟩, hwords⟩ := List.forall_mem_cons.1 hwords
    have hsplit : printed lead (p :: pieces) =
        lead ++ (p.word ++ (p.blanks ++ printed [] pieces)) := by
      simp [printed]
    rw [hsplit, Text.words_blanks_append h.lead, Text.words_append hne hword h.isBlank_head,
      Text.words_blanks_append (h.blanks p List.mem_cons_self), ih h.tail hwords, List.map_cons]

theorem mem_printed {c : Char} (hc : c ∈ printed lead pieces) :
    c ∈ lead ∨ ∃ p ∈ pieces, c ∈ p.word ∨ c ∈ p.blanks := by
  rcases List.mem_append.1 hc with hc | hc
  · exact .inl hc
  · obtain ⟨p, hp, hc⟩ := List.mem_flatMap.1 hc
    exact .inr ⟨p, hp, List.mem_append.1 hc⟩

/-- Blanks and plain characters are ASCII, and no slashes. -/
theorem SetApart.isAscii_of_mem (h : SetApart lead pieces)
    (hplain : ∀ p ∈ pieces, ∀ c ∈ p.word, isPlain c = true) :
    ∀ c ∈ printed lead pieces, Text.isAscii c = true ∧ c ≠ '/' := by
  have hblank : ∀ c, isBlank c = true → Text.isAscii c = true ∧ c ≠ '/' := by
    intro c hc
    rcases Text.isBlank_iff.1 hc with rfl | rfl | rfl | rfl | rfl | rfl <;> decide
  intro c hc
  rcases mem_printed hc with hc | ⟨p, hp, hc | hc⟩
  · exact hblank c (h.lead c hc)
  · obtain ⟨hascii, -, hslash⟩ := isPlain_iff.1 (hplain p hp c hc)
    exact ⟨hascii, hslash⟩
  · exact hblank c (h.blanks p hp c hc)

/-! ## Sessions over what is written -/

/-- **A session over words of the language** that are set apart has these words to read. -/
theorem start_printed (file : String) (hstandard : settings.table = .standard)
    (h : SetApart lead pieces) (htakes : ∀ p ∈ pieces, settings.Takes p.word) :
    ∃ s, (Session.start settings file (printed lead pieces)).value = .ok s ∧
      s.words.map Word.text = pieces.map (·.word) := by
  have hkind : ∀ p ∈ pieces, ∃ kind, Table.standard.classify p.word = some kind := by
    intro p hp
    rw [← hstandard]
    exact (htakes p hp).2
  have hplain : ∀ p ∈ pieces, ∀ c ∈ p.word, isPlain c = true := by
    intro p hp
    obtain ⟨kind, hclassify⟩ := hkind p hp
    exact isPlain_of_classify hclassify
  have hwords : ∀ p ∈ pieces, p.word ≠ [] ∧ ∀ c ∈ p.word, isBlank c = false := by
    intro p hp
    obtain ⟨kind, hclassify⟩ := hkind p hp
    exact ⟨ne_nil_of_classify hclassify, fun c hc => (isPlain_iff.1 (hplain p hp c hc)).2.1⟩
  have hchars := h.isAscii_of_mem hplain
  have hascii : ∀ c ∈ printed lead pieces, Text.isAscii c = true := fun c hc => (hchars c hc).1
  have hslash : '/' ∉ printed lead pieces := fun hc => (hchars '/' hc).2 rfl
  refine ⟨_, start_of_ascii settings file hascii, ?_⟩
  have hcode : Comment.uncommented (printed lead pieces) = printed lead pieces :=
    Comment.uncommented_of_not_occurs fun _ => Comment.not_occurs_of_not_mem hslash
  show (Text.wordsFrom 0 (Sanitized.ofAscii (printed lead pieces)).text).map Word.text = _
  rw [Text.map_text_wordsFrom, ofAscii_text, words_compact, hcode, words_printed h hwords]

/-- **Words of the language are read back.** Let the words of some pieces be words of the language
within the limit, set apart by blanks. A session over the text of the pieces answers with a token
for each of the words in turn, of its kind and with its text, and has finished behind them. So if a
text has tokens and their values are written out, set apart by blanks in whatever way, what is
written has the same tokens; and these are the ones that sessions over the two texts come to when
they are asked for token after token. -/
theorem session_reads_printed (limit : Nat) :
    (∀ file lead pieces, SetApart lead pieces →
      (∀ p ∈ pieces, p.word.length ≤ limit ∧
        ∃ kind, Table.standard.classify p.word = some kind) →
      ∃ s, (Session.start { limit := limit } file (printed lead pieces)).value = .ok s ∧
        (∀ i p kind, pieces[i]? = some p → Table.standard.classify p.word = some kind →
          ∃ span, s.answer i = .token ⟨kind, String.ofList p.word, span⟩) ∧
        ∀ i, pieces.length ≤ i → s.answer i = .finished) ∧
    ∀ file text tokens, (tokenize { limit := limit } file text).value = .ok tokens →
      ∀ file' lead pieces, SetApart lead pieces →
        pieces.map (·.word) = tokens.map (·.value.toList) →
        ∃ tokens', (tokenize { limit := limit } file' (printed lead pieces)).value = .ok tokens' ∧
          (tokens' == tokens) = true ∧
          (∃ s, (Session.start { limit := limit } file text).value = .ok s ∧
            s.Loops tokens .finished) ∧
          ∃ s', (Session.start { limit := limit } file' (printed lead pieces)).value = .ok s' ∧
            s'.Loops tokens' .finished := by
  constructor
  · intro file lead pieces hapart htakes
    obtain ⟨s, hstart, hwords⟩ :=
      @start_printed lead pieces { limit := limit } file rfl hapart htakes
    obtain ⟨hstatus, hsettings, -⟩ := scanning_of_start hstart
    have hall : ∀ text ∈ pieces.map (·.word), s.settings.Takes text := by
      rw [hsettings]
      exact List.forall_mem_map.2 htakes
    obtain ⟨htoken, hfinished⟩ := Session.answers_of_texts hstatus hwords hall
    refine ⟨s, hstart, ?_, ?_⟩
    · intro i p kind hp hkind
      refine htoken i p.word kind ?_ (by rw [hsettings]; exact hkind)
      rw [List.getElem?_map, hp]
      rfl
    · intro i hi
      exact hfinished i (by rwa [List.length_map])
  · intro file text tokens htokens file' lead pieces hapart hvalues
    obtain ⟨a, ha⟩ := start_of_tokenize htokens
    have hloops := (tokenize_eq_ok_iff ha).1 htokens
    rw [tokenize_of_start ha, Reading.collected_eq_ok_iff] at htokens
    obtain ⟨rfl, herror⟩ := htokens
    -- the words of the pieces are those of the text, and those are taken
    rw [Settings.values_read herror] at hvalues
    have htakes : ∀ p ∈ pieces, Settings.Takes { limit := limit } p.word := by
      rw [← List.forall_mem_map (f := fun p : Piece => p.word), hvalues]
      exact List.forall_mem_map.2 (Settings.error?_read_eq_none_iff.1 herror)
    obtain ⟨b, hb, hwords⟩ :=
      @start_printed lead pieces { limit := limit } file' rfl hapart htakes
    obtain ⟨htokens, hfault⟩ :=
      Settings.read_of_texts_eq { limit := limit } file' file (hwords.trans hvalues)
    have hnone : (Settings.read { limit := limit } file' b.words).error? = none := by
      rw [herror, Option.map_none, Option.map_eq_none_iff] at hfault
      exact hfault
    have hprinted : (tokenize { limit := limit } file' (printed lead pieces)).value =
        .ok (Settings.read { limit := limit } file' b.words).tokens := by
      rw [tokenize_of_start hb]
      exact Reading.collected_eq_ok_iff.2 ⟨rfl, hnone⟩
    exact ⟨_, hprinted, htokens, ⟨a, ha, hloops⟩, b, hb, (tokenize_eq_ok_iff hb).1 hprinted⟩

/-- Words between a line feed, a vertical tab and a return, and a text whose tokens they are. -/
theorem session_reads_printed_controls :
    let pieces : List Piece := [⟨"if".toList, "\x0b".toList⟩, ⟨"<=".toList, "\r".toList⟩]
    SetApart "\n".toList pieces ∧
      (∀ p ∈ pieces, p.word.length ≤ 2 ∧ ∃ kind, Table.standard.classify p.word = some kind) ∧
      (∃ s, (Session.start { limit := 2 } "f" (printed "\n".toList pieces)).value = .ok s ∧
        (∃ span, s.answer 1 = .token ⟨.operator, "<=", span⟩) ∧ s.answer 2 = .finished) ∧
      ∃ tokens tokens', (tokenize { limit := 2 } "g" "if/**/ <=//".toList).value = .ok tokens ∧
        (tokenize { limit := 2 } "f" (printed "\n".toList pieces)).value = .ok tokens' ∧
        (tokens' == tokens) = true ∧
        (∃ s, (Session.start { limit := 2 } "g" "if/**/ <=//".toList).value = .ok s ∧
          s.Loops tokens .finished) ∧
        ∃ s', (Session.start { limit := 2 } "f" (printed "\n".toList pieces)).value = .ok s' ∧
          s'.Loops tokens' .finished := by
  intro pieces
  obtain ⟨hsession, htokens⟩ := session_reads_printed 2
  have hapart : SetApart "\n".toList pieces :=
    ⟨List.all_eq_true.1 rfl, by simp [pieces, isBlank], by simp [pieces]⟩
  have htakes : ∀ p ∈ pieces,
      p.word.length ≤ 2 ∧ ∃ kind, Table.standard.classify p.word = some kind := by
    intro p hp
    rcases List.mem_pair.1 hp with rfl | rfl
    · exact ⟨by decide, .keyword, by decide⟩
    · exact ⟨by decide, .operator, by decide⟩
  refine ⟨hapart, htakes, ?_, ?_⟩
  · obtain ⟨s, hstart, htoken, hfinished⟩ := hsession "f" _ pieces hapart htakes
    exact ⟨s, hstart, htoken 1 _ .operator rfl (by decide), hfinished 2 (by decide)⟩
  · have hascii : ∀ c ∈ "if/**/ <=//".toList, Text.isAscii c = true := List.all_eq_true.1 rfl
    have hstart := start_of_ascii { limit := 2 } "g" hascii
    have htext : (Sanitized.ofAscii "if/**/ <=//".toList).text = "if <=\n".toList := by cbv
    have hgiven : (tokenize { limit := 2 } "g" "if/**/ <=//".toList).value =
        .ok [⟨.keyword, "if", ⟨.ofByte "g" 0, .ofByte "g" 2⟩⟩,
          ⟨.operator, "<=", ⟨.ofByte "g" 3, .ofByte "g" 5⟩⟩] := by
      rw [tokenize_of_start hstart]
      show Reading.collected (Settings.read _ _ (Text.wordsFrom 0
        (Sanitized.ofAscii "if/**/ <=//".toList).text)) = _
      rw [htext]
      rfl
    obtain ⟨tokens', hprinted, hsame⟩ := htokens "g" _ _ hgiven "f" _ pieces hapart rfl
    exact ⟨_, tokens', hgiven, hprinted, hsame⟩

end Lexis
