import Lexis.Proofs.Requests

/-!
# One text behind another

A text that a line feed ends can be read apart from what is put behind it, if no comment reaches
over the seam: its last line has no line comment, which would take the line feed along, and nothing
is left of it that opens a block comment.

* `strip_append`: **comments are taken out of two texts apart** where none opens in what is left of
  the first.
* `ofAscii_append`: so the sanitized forms of the two texts are put together.
* `read_append`: what comes of the words of the first text comes first, and then, if nothing is
  wrong, what comes of the others.
* `session_yields_append`: **a session over both texts** reads as one over each in turn, further on
  by the length of what the first has read.
-/

namespace Lexis

open Comment (Style Found uncommented)
open Text (unlines withoutReturn Word wordsFrom)

variable {a b text code : List Char} {style : Style} {found : Found}

/-! ## Comments -/

namespace Comment

/-- No opener stands across the end of a line. -/
theorem not_slash_seam {c : Char} (hended : a = [] ∨ a.getLast? = some '\n') :
    ¬ (a.getLast? = some '/' ∧ b.head? = some c) := by
  rintro ⟨hlast, -⟩
  rcases hended with rfl | hlf
  · cases hlast
  · rw [hlf] at hlast
    cases hlast

/-- **What no opener stands before** has all the comments of the text. -/
theorem not_occurs_append (hended : a = [] ∨ a.getLast? = some '\n')
    (hopen : ¬ style.opener <:+: a) (h : ¬ style.Occurs b) : ¬ style.Occurs (a ++ b) := by
  cases style with
  | line => exact fun hoccurs => h (infix_of_infix_append hopen (not_slash_seam hended) hoccurs)
  | block =>
    rintro ⟨body, hbody⟩
    exact h ⟨body, infix_of_infix_append hopen (not_slash_seam hended) hbody⟩

/-- So the first comment of what stands behind is the first of all. -/
theorem Style.IsFirst.append_left (hended : a = [] ∨ a.getLast? = some '\n')
    (hopen : ¬ style.opener <:+: a) (h : style.IsFirst b found) :
    style.IsFirst (a ++ b) ⟨a ++ found.code, found.comment, found.rest⟩ := by
  obtain ⟨c, hc, -⟩ := style.opener_eq
  refine ⟨?_, ?_, h.comment⟩
  · rw [← h.append]
    simp
  · have hcode := h.code
    rw [hc] at hopen hcode ⊢
    rw [List.append_assoc, pair_infix_append, not_or, not_or]
    exact ⟨hopen, hcode, not_slash_seam hended⟩

/-- A comment in a text that a line feed ends does not need the end of the text. -/
theorem Style.IsFirst.append_right (hended : a = [] ∨ a.getLast? = some '\n')
    (h : style.IsFirst a found) (b : List Char) :
    style.IsFirst (a ++ b) ⟨found.code, found.comment, found.rest ++ b⟩ := by
  refine ⟨?_, h.code, ?_⟩
  · rw [← h.append]
    simp
  · have happend := h.append
    cases style with
    | block => exact h.comment
    | line =>
      obtain ⟨body, hbody, hcomment | ⟨hcomment, hrest⟩⟩ := h.comment
      · exact ⟨body, hbody, .inl hcomment⟩
      · -- the line feed at the end would be a character of the comment
        rw [hrest, hcomment, List.append_nil] at happend
        rcases hended with rfl | hlf
        · simp at happend
        · rw [← happend, List.getLast?_append_of_ne_nil _ (by simp)] at hlf
          have hmem := List.mem_of_getLast? hlf
          simp [hbody] at hmem

theorem strip_append_of_not_opener (hended : a = [] ∨ a.getLast? = some '\n')
    (hopen : ¬ style.opener <:+: a) (b : List Char) :
    style.strip (a ++ b) = a ++ style.strip b := by
  cases hfirst : style.first? b with
  | none =>
    have hb := first?_eq_none_iff.1 hfirst
    rw [strip_of_not_occurs hb, strip_of_not_occurs (not_occurs_append hended hopen hb)]
  | some found =>
    have hb := first?_eq_some_iff.1 hfirst
    rw [strip_of_isFirst hb, strip_of_isFirst (hb.append_left hended hopen), List.append_assoc]

/-- **Comments are taken out of two texts apart** if a line feed ends the first and no comment opens
in what is left of it. -/
theorem strip_append (hended : a = [] ∨ a.getLast? = some '\n')
    (hopen : ¬ style.opener <:+: style.strip a) (b : List Char) :
    style.strip (a ++ b) = style.strip a ++ style.strip b := by
  induction a using comment_induction style with
  | plain a h =>
    rw [strip_of_not_occurs h] at hopen ⊢
    exact strip_append_of_not_opener hended hopen b
  | cut a found h ih =>
    have hstrip := strip_of_isFirst h
    have hended' : found.rest = [] ∨ found.rest.getLast? = some '\n' := by
      rw [← h.append] at hended
      exact Text.ended_of_append hended
    have hrest : ¬ style.opener <:+: style.strip found.rest := by
      intro hr
      rw [hstrip] at hopen
      exact hopen (hr.trans (List.suffix_append _ _).isInfix)
    rw [hstrip, strip_of_isFirst (h.append_right hended b), ih hended' hrest,
      List.append_assoc]

/-- For line comments nothing more is needed: none is left when they are gone. -/
theorem strip_line_append (hended : a = [] ∨ a.getLast? = some '\n') (b : List Char) :
    Style.line.strip (a ++ b) = Style.line.strip a ++ Style.line.strip b := by
  have hnone : ¬ Style.line.opener <:+: Style.line.strip a := not_occurs_strip a
  exact strip_append hended hnone b

/-- Behind a block comment a text goes on, if a line feed ends it. -/
theorem getLast?_strip_block (h : a.getLast? = some '\n') :
    (Style.block.strip a).getLast? = some '\n' := by
  induction a using comment_induction .block with
  | plain a hnone => rwa [strip_of_not_occurs hnone]
  | cut a found hfirst ih =>
    obtain ⟨body, -, hcomment⟩ := hfirst.comment
    have hne : found.rest ≠ [] := by
      intro hrest
      rw [← hfirst.append, hrest, hcomment, List.append_nil, ← List.append_assoc,
        List.getLast?_append_of_ne_nil _ (by simp)] at h
      exact absurd h (by decide)
    rw [← hfirst.append, List.getLast?_append_of_ne_nil _ hne] at h
    have hlast := ih h
    have hstrip : Style.block.strip found.rest ≠ [] := by
      intro hnil
      rw [hnil] at hlast
      cases hlast
    rw [strip_of_isFirst hfirst, List.getLast?_append_of_ne_nil _ hstrip, hlast]

end Comment

/-! ## Lines -/

/-- **The last line** of a text that a line feed ends, if there is one. -/
theorem Text.exists_last_line (hended : a = [] ∨ a.getLast? = some '\n') :
    a = [] ∨ ∃ before line, a = before ++ line ∧ (before = [] ∨ before.getLast? = some '\n') ∧
      (Text.lines a).getLast? = some line ∧ line.getLast? = some '\n' := by
  obtain ⟨terminated, last, hlines⟩ := Text.exists_isLines a
  have hlast := hlines.last_eq_nil hended
  have hjoin := hlines.join
  have hall := Text.lines_of_isLines hlines
  rw [hlast, List.append_nil] at hjoin
  rw [hlast, if_pos rfl, List.append_nil] at hall
  rcases List.eq_nil_or_concat terminated with hnil | ⟨before, line, hterm⟩
  · left
    rw [hjoin, hnil, unlines_nil]
  · right
    rw [List.concat_eq_append] at hterm
    refine ⟨unlines before, line ++ ['\n'], ?_, ?_, ?_, ?_⟩
    · rw [hjoin, hterm, unlines, List.flatMap_append]
      simp [unlines]
    · rw [or_iff_not_imp_left]
      exact Text.unlines_getLast? before
    · rw [hall, hterm]
      simp
    · simp

/-- **Code is compacted line by line.** -/
theorem compact_append_of_ended (hended : a = [] ∨ a.getLast? = some '\n') (b : List Char) :
    compact (a ++ b) = compact a ++ compact b := by
  induction a using Text.lines_induction with
  | single line h =>
    -- without a line feed in it there is nothing that a line feed ends
    rcases hended with rfl | hlf
    · rfl
    · exact absurd (List.mem_of_getLast? hlf) h
  | cons line rest h ih =>
    have hrest : rest = [] ∨ rest.getLast? = some '\n' := by
      rw [← List.singleton_append, ← List.append_assoc] at hended
      exact Text.ended_of_append hended
    rw [List.append_assoc, List.cons_append, compact_append h, compact_append h, ih hrest,
      List.append_assoc]

/-- **Compacting keeps the pairs** of characters that are not blank: they make their line one that
is kept. -/
theorem pair_infix_compact_iff {c d : Char} (hc : Text.isBlank c = false)
    (hd : Text.isBlank d = false) : [c, d] <:+: compact code ↔ [c, d] <:+: code := by
  have hne : ∀ {x y : Char}, Text.isBlank x = false → Text.isBlank y = true → y ≠ x := by
    intro x y hx hy h
    rw [h, hx] at hy
    cases hy
  have hlf : '\n' ≠ c ∧ '\n' ≠ d := ⟨hne hc rfl, hne hd rfl⟩
  have hcr : '\r' ≠ c ∧ '\r' ≠ d := ⟨hne hc rfl, hne hd rfl⟩
  have hkept : ∀ {line}, [c, d] <:+: line → ¬ isBlankLine line = true := by
    intro line hline hb
    have hblank := isBlankLine_iff.1 hb c (hline.subset List.mem_cons_self)
    rw [hc] at hblank
    cases hblank
  refine ⟨pair_infix_compact hlf.1.symm hlf.2.symm, ?_⟩
  intro h
  induction code using Text.lines_induction with
  | single line hline =>
    rw [compact_single hline, if_neg (hkept h)]
    exact h.trans (List.prefix_append _ _).isInfix
  | cons line rest hline ih =>
    rw [compact_append hline]
    rcases (Comment.pair_infix_append_cons hlf.1 hlf.2).1 h with h | h
    · have hbody : [c, d] <:+: withoutReturn line := by
        -- the pair does not reach to a return at the end of the line
        rcases Text.withoutReturn_cases line with hline | ⟨hline, -⟩
        · rw [hline] at h
          have hnil : ¬ [c, d] <:+: ([] : List Char) := by simp
          exact ((Comment.pair_infix_append_cons hcr.1 hcr.2).1 h).resolve_right hnil
        · rwa [hline]
      rw [if_neg (hkept h), List.append_assoc]
      exact hbody.trans (List.prefix_append _ _).isInfix
    · exact (ih h).trans (List.suffix_append _ _).isInfix

/-! ## Sanitized texts -/

/-- A last line without a line comment keeps its line feed. -/
theorem Comment.ended_strip_line (hended : a = [] ∨ a.getLast? = some '\n')
    (hline : ∀ line ∈ (Text.lines a).getLast?, ¬ ['/', '/'] <:+: line) :
    Style.line.strip a = [] ∨ (Style.line.strip a).getLast? = some '\n' := by
  rcases Text.exists_last_line hended with rfl | ⟨before, line, rfl, hbefore, hlast, hlf⟩
  · left
    exact strip_of_not_occurs (not_occurs_of_not_mem List.not_mem_nil)
  · right
    have hplain : Style.line.strip line = line := strip_of_not_occurs (hline line hlast)
    have hne : line ≠ [] := by
      rintro rfl
      cases hlf
    rw [strip_line_append hbefore, hplain, List.getLast?_append_of_ne_nil _ hne, hlf]

theorem Comment.ended_strip_block (hended : a = [] ∨ a.getLast? = some '\n') :
    Style.block.strip a = [] ∨ (Style.block.strip a).getLast? = some '\n' := by
  rcases hended with rfl | hlf
  · exact .inl (strip_of_not_occurs (not_occurs_of_not_mem List.not_mem_nil))
  · exact .inr (getLast?_strip_block hlf)

/-- **Sanitized forms are put together** where no comment reaches from the first text into the
second. -/
theorem ofAscii_append (hended : a = [] ∨ a.getLast? = some '\n')
    (hline : ∀ line ∈ (Text.lines a).getLast?, ¬ ['/', '/'] <:+: line)
    (hopen : ¬ ['/', '*'] <:+: (Sanitized.ofAscii a).text) (b : List Char) :
    (Sanitized.ofAscii (a ++ b)).text =
      (Sanitized.ofAscii a).text ++ (Sanitized.ofAscii b).text := by
  have hstrip := Comment.ended_strip_line hended hline
  have hcode : ¬ Style.block.opener <:+: uncommented a :=
    fun h => hopen ((pair_infix_compact_iff rfl rfl).2 h)
  have happend : uncommented (a ++ b) = uncommented a ++ uncommented b := by
    rw [uncommented, Comment.strip_line_append hended, Comment.strip_append hstrip hcode]
    rfl
  have hended' : uncommented a = [] ∨ (uncommented a).getLast? = some '\n' :=
    Comment.ended_strip_block hstrip
  rw [ofAscii_text, ofAscii_text, ofAscii_text, happend, compact_append_of_ended hended']

/-- A line comment on the last line takes the line feed along, and an opener that is left reaches
for a closer. -/
example : (Sanitized.ofAscii "a//\nb".toList).text = "ab\n".toList ∧
    (Sanitized.ofAscii "a/*\n*/b".toList).text = "ab\n".toList := by
  constructor
  · cbv
  · cbv

/-! ## Words and what comes of them -/

/-- The words of a text that a line feed ends do not grow by what is put behind it. -/
theorem Text.wordsFrom_append_of_ended (hended : a = [] ∨ a.getLast? = some '\n') (b : List Char) :
    wordsFrom 0 (a ++ b) = wordsFrom 0 a ++ (wordsFrom 0 b).map (Word.move a.length) := by
  rw [← wordsFrom_add]
  rcases hended with rfl | hlf
  · rfl
  · obtain ⟨body, rfl⟩ := List.getLast?_eq_some_iff.1 hlf
    rw [List.append_assoc, List.singleton_append, wordsFrom_append_blank (by rfl),
      wordsFrom_append_blank (by rfl), wordsFrom_nil, List.append_nil, List.length_append,
      List.length_singleton]
    congr 2
    omega

/-- A position `n` bytes further on. -/
def Position.move (n : Nat) (p : Position) : Position := { p with offset := p.offset + .ofNat n }

/-- A token `n` bytes further on. -/
def Token.move (n : Nat) (t : Token) : Token :=
  { t with span := ⟨t.span.start.move n, t.span.stop.move n⟩ }

/-- An error `n` bytes further on. -/
def Error.move (n : Nat) (e : Error) : Error := { e with position := e.position.move n }

/-- What comes of words `n` bytes further on. -/
def Reading.move (n : Nat) (r : Reading) : Reading :=
  ⟨r.tokens.map (·.move n), r.error?.map (·.move n)⟩

/-- One reading after another. With the second it goes on only if nothing is wrong in the first. -/
def Reading.append : Reading → Reading → Reading
  | ⟨tokens, none⟩, next => ⟨tokens ++ next.tokens, next.error?⟩
  | ⟨tokens, some error⟩, _ => ⟨tokens, some error⟩

theorem Reading.append_of_none {r : Reading} (h : r.error? = none) (next : Reading) :
    r.append next = ⟨r.tokens ++ next.tokens, next.error?⟩ := by
  obtain ⟨tokens, error?⟩ := r
  obtain rfl := h
  rfl

theorem Reading.append_of_some {r : Reading} {error : Error} (h : r.error? = some error)
    (next : Reading) : r.append next = r := by
  obtain ⟨tokens, error?⟩ := r
  obtain rfl := h
  rfl

theorem Position.ofByte_add (file : String) (n byte : Nat) :
    Position.ofByte file (n + byte) = (Position.ofByte file byte).move n := by
  rw [Position.ofByte, Position.ofByte, Position.move, Nat.add_comm, UInt32.ofNat_add]

theorem Text.Word.token_move (n : Nat) (file : String) (kind : Kind) (w : Word) :
    (w.move n).token file kind = (w.token file kind).move n := by
  rw [Word.token, Word.token, Token.move, Word.move, Position.ofByte_add, Nat.add_assoc,
    Position.ofByte_add]

/-- **What comes of words further on** is further on itself, and else the same. -/
theorem Settings.read_move (settings : Settings) (file : String) (n : Nat) (ws : List Word) :
    settings.read file (ws.map (Word.move n)) = (settings.read file ws).move n := by
  induction ws with
  | nil => rfl
  | cons w ws ih =>
    have htext : (w.move n).text = w.text := rfl
    have hstart : Position.ofByte file (w.move n).start = (Position.ofByte file w.start).move n :=
      Position.ofByte_add file n w.start
    rw [List.map_cons, Settings.read, Settings.read, htext, ih, hstart]
    cases settings.judge w.text with
    | error fault => rfl
    | ok kind =>
      simp only [Text.Word.token_move]
      rfl

/-- **What comes of words and of others behind them.** -/
theorem Settings.read_append (settings : Settings) (file : String) (ws vs : List Word) :
    settings.read file (ws ++ vs) = (settings.read file ws).append (settings.read file vs) := by
  induction ws with
  | nil => rfl
  | cons w ws ih =>
    rw [List.cons_append, Settings.read, Settings.read, ih]
    cases settings.judge w.text with
    | error fault => rfl
    | ok kind =>
      obtain ⟨tokens, error?⟩ := settings.read file ws
      cases error? with
      | none => rfl
      | some e => rfl

/-! ## Sessions -/

/-- **A text behind another is read as it is read alone.** Let a line feed end the first text, with
no line comment on the line that it ends, and let nothing be left of the text that opens a block
comment. Then both texts together have the sanitized form of the first and then that of the second.
If a session over the first comes to the end, one over both gives its tokens and then all that a
session over the second gives, further on by the length of the first form; and if it fails, one over
both gives the same tokens and the same error. -/
theorem session_yields_append (file : String) {a b : List Char}
    (ha : ∀ c ∈ a, Text.isAscii c = true) (hb : ∀ c ∈ b, Text.isAscii c = true)
    (hended : a = [] ∨ a.getLast? = some '\n')
    (hline : ∀ line ∈ (Text.lines a).getLast?, ¬ ['/', '/'] <:+: line) :
    ∃ sa sb sab, (sanitize file a).value = .ok sa ∧ (sanitize file b).value = .ok sb ∧
      (sanitize file (a ++ b)).value = .ok sab ∧
      (¬ ['/', '*'] <:+: sa.text →
        sab.text = sa.text ++ sb.text ∧
        ∀ settings, ∃ first second both tokens error? more last?,
          (Session.start settings file a).value = .ok first ∧
          (Session.start settings file b).value = .ok second ∧
          (Session.start settings file (a ++ b)).value = .ok both ∧
          first.Yields tokens error? ∧ second.Yields more last? ∧
          (error? = none → both.Yields (tokens ++ more.map (·.move sa.text.length))
            (last?.map (·.move sa.text.length))) ∧
          ∀ error, error? = some error → both.Yields tokens (some error)) := by
  have hab : ∀ c ∈ a ++ b, Text.isAscii c = true := List.forall_mem_append.2 ⟨ha, hb⟩
  refine ⟨_, _, _, sanitize_of_ascii file ha, sanitize_of_ascii file hb, sanitize_of_ascii file hab,
    ?_⟩
  intro hopen
  have htext := ofAscii_append hended hline hopen b
  refine ⟨htext, ?_⟩
  intro settings
  set n := (Sanitized.ofAscii a).text.length
  set first := Session.ofSanitized settings file (Sanitized.ofAscii a)
  set second := Session.ofSanitized settings file (Sanitized.ofAscii b)
  set both := Session.ofSanitized settings file (Sanitized.ofAscii (a ++ b))
  have hwords : both.words = first.words ++ second.words.map (Word.move n) := by
    show wordsFrom 0 (Sanitized.ofAscii (a ++ b)).text = _
    rw [htext]
    exact Text.wordsFrom_append_of_ended (isNormal_ofAscii a).ended _
  have hread : settings.read file both.words =
      (settings.read file first.words).append ((settings.read file second.words).move n) := by
    rw [hwords, Settings.read_append, Settings.read_move]
  have hyields : both.Yields (settings.read file both.words).tokens
      (settings.read file both.words).error? := Session.yields_read rfl
  refine ⟨first, second, both, _, _, _, _, start_of_ascii settings file ha,
    start_of_ascii settings file hb, start_of_ascii settings file hab, Session.yields_read rfl,
    Session.yields_read rfl, ?_, ?_⟩
  · intro hnone
    change (settings.read file first.words).error? = none at hnone
    rw [hread, Reading.append_of_none hnone] at hyields
    exact hyields
  · intro error herror
    change (settings.read file first.words).error? = some error at herror
    rw [hread, Reading.append_of_some herror, herror] at hyields
    exact hyields

/-- Comments end on both sides of the seam, and the error stands behind it. -/
theorem session_yields_append_comments :
    let a := "if/* */\n//\ny\n".toList
    let b := "/*\n*/? z".toList
    (∀ c ∈ a, Text.isAscii c = true) ∧ (∀ c ∈ b, Text.isAscii c = true) ∧
      (a = [] ∨ a.getLast? = some '\n') ∧
      (∀ line ∈ (Text.lines a).getLast?, ¬ ['/', '/'] <:+: line) ∧
      ∃ s, (Session.start {} "f" (a ++ b)).value = .ok s ∧
        s.source.text = "if\ny\n? z\n".toList ∧
        s.Yields [⟨.keyword, "if", ⟨.ofByte "f" 0, .ofByte "f" 2⟩⟩,
          ⟨.identifier, "y", ⟨.ofByte "f" 3, .ofByte "f" 4⟩⟩]
          (some ⟨.unrecognized "?", .ofByte "f" 5⟩) := by
  intro a b
  have ha : ∀ c ∈ a, Text.isAscii c = true := List.all_eq_true.1 rfl
  have hb : ∀ c ∈ b, Text.isAscii c = true := List.all_eq_true.1 rfl
  have hended : a = [] ∨ a.getLast? = some '\n' := .inr rfl
  have hline : ∀ line ∈ (Text.lines a).getLast?, ¬ ['/', '/'] <:+: line := by
    intro line hmem
    have hlast : (Text.lines a).getLast? = some ['y', '\n'] := rfl
    rw [hlast, Option.mem_some] at hmem
    rw [← hmem]
    decide
  have hfirst : Sanitized.ofAscii "if/* */\n//\ny\n".toList = ⟨"if\ny\n".toList, 13, 8, 0⟩ := by cbv
  have hsecond : Sanitized.ofAscii "/*\n*/? z".toList = ⟨"? z\n".toList, 8, 5, 0⟩ := by cbv
  obtain ⟨sa, sb, sab, hsa, hsb, hsab, happend⟩ := session_yields_append "f" ha hb hended hline
  obtain rfl := Except.ok.inj ((sanitize_of_ascii "f" ha).symm.trans hsa)
  obtain rfl := Except.ok.inj ((sanitize_of_ascii "f" hb).symm.trans hsb)
  change Sanitized.ofAscii a = _ at hfirst
  change Sanitized.ofAscii b = _ at hsecond
  rw [hfirst, hsecond] at happend
  obtain ⟨htext, hsessions⟩ := happend (by decide)
  obtain ⟨first, second, both, tokens, error?, more, last?, hstart, hstart', hboth, hyields,
    hyields', hended, -⟩ := hsessions {}
  obtain rfl := Except.ok.inj ((start_of_ascii {} "f" ha).symm.trans hstart)
  obtain rfl := Except.ok.inj ((start_of_ascii {} "f" hb).symm.trans hstart')
  rw [hfirst] at hyields
  rw [hsecond] at hyields'
  have hread : Settings.read {} "f" (wordsFrom 0 "if\ny\n".toList) =
      ⟨[⟨.keyword, "if", ⟨.ofByte "f" 0, .ofByte "f" 2⟩⟩,
        ⟨.identifier, "y", ⟨.ofByte "f" 3, .ofByte "f" 4⟩⟩], none⟩ := rfl
  have hread' : Settings.read {} "f" (wordsFrom 0 "? z\n".toList) =
      ⟨[], some ⟨.unrecognized "?", .ofByte "f" 0⟩⟩ := rfl
  obtain ⟨rfl, rfl⟩ := hyields.unique (Session.yields_ofSanitized hread)
  obtain ⟨rfl, rfl⟩ := hyields'.unique (Session.yields_ofSanitized hread')
  obtain ⟨-, hsession⟩ := start_eq_ok_iff.1 hboth
  refine ⟨ha, hb, .inr rfl, hline, both, hboth, ?_, hended rfl⟩
  rw [hsession]
  show (Sanitized.ofAscii (a ++ b)).text = _
  rw [Except.ok.inj ((sanitize_of_ascii "f" (List.forall_mem_append.2 ⟨ha, hb⟩)).symm.trans hsab),
    htext]
  rfl

end Lexis
