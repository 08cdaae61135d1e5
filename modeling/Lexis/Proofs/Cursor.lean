import Lexis.Proofs.Requests

/-!
# Where a session stands

The cursor of a session moves from word to word. It is never behind the end of the text, and it is
at the end when the session has found the end and not before: behind the last word there is a line
feed that the session has still to read.

* `rest_of_words`: **what comes next** in a text that a line feed ends: blanks, a word and a blank.
* `placed_ask`, `placed_after`: **where the cursor stands** is kept by each request and so by all.
* `passBlanks?_eq`: the cursor does not leave the text while blanks are passed one by one.
* `scan?_eq`: **reading a word one character at a time**, with the limit checked at each, comes to what
  is told of the word as a whole.
* `session_placed`: all this holds of each session that is started, and the tokens it gives are at
  most half as many as the characters of its text.
-/

namespace Lexis

open Text (isBlank Word)

namespace Text

/-- **Words need blanks between them**: there are at most half as many as there are characters,
with one more for a text that no blank ends. -/
theorem two_mul_length_words_le (text : List Char) :
    2 * (words text).length ≤ text.length + 1 := by
  -- one that starts with a blank has no need of the one more
  have key : 2 * (words text).length ≤ text.length + 1 ∧
      ((∀ c ∈ text.head?, isBlank c = true) → 2 * (words text).length ≤ text.length) := by
    induction text using words_induction with
    | nil => simp
    | blank c rest hc ih =>
      have hwords : words (c :: rest) = words rest :=
        @words_blanks_append rest [c] (by simpa using hc)
      rw [hwords, List.length_cons]
      exact ⟨by omega, fun _ => ih.1⟩
    | word w rest hne hw hrest ih =>
      have hpos := List.length_pos_iff.2 hne
      have hle := ih.2 hrest
      rw [words_append hne hw hrest, List.length_cons, List.length_append]
      refine ⟨by omega, ?_⟩
      intro hhead
      obtain ⟨c, chars, rfl⟩ := List.exists_cons_of_ne_nil hne
      have hc := hhead c rfl
      rw [hw c List.mem_cons_self] at hc
      cases hc
  exact key.1

/-- A blank at the end of a text makes up for the last word. -/
theorem two_mul_length_words_le_of_ended {text : List Char}
    (h : text = [] ∨ text.getLast? = some '\n') : 2 * (words text).length ≤ text.length := by
  rcases h with rfl | h
  · exact Nat.le_refl _
  · obtain ⟨body, rfl⟩ := List.getLast?_eq_some_iff.1 h
    have hwords : words (body ++ ['\n']) = words body := by
      rw [words_append_blank (by rfl), words_nil, List.append_nil]
    rw [hwords, List.length_append, List.length_singleton]
    exact two_mul_length_words_le body

end Text

theorem Settings.length_tokens_le (settings : Settings) (file : String) (ws : List Word) :
    (settings.read file ws).tokens.length ≤ ws.length := by
  induction ws with
  | nil => exact Nat.le_refl _
  | cons w ws ih =>
    rw [Settings.read]
    cases settings.judge w.text with
    | error fault => exact Nat.zero_le _
    | ok kind => exact Nat.succ_le_succ ih

namespace Session

/-- **Where a session stands in its text.** While it reads, the cursor is at the start or behind a
word; when it has found the end, the cursor is there; and when it has failed, the cursor is not yet
there. -/
structure Placed (s : Session) : Prop where
  pos_le : s.pos ≤ s.source.text.length
  scanning : s.status = .scanning → s.pos = 0 ∨
    (∃ c, s.source.text[s.pos - 1]? = some c ∧ isBlank c = false) ∧
      ∃ c, s.source.text[s.pos]? = some c ∧ isBlank c = true
  exhausted : s.status = .exhausted → s.pos = s.source.text.length
  failed : ∀ e, s.status = .failed e → s.pos < s.source.text.length

/-- Passes blanks one at a time as long as the text goes on. Each is looked up by its index, which
comes to nothing outside the text. -/
def passBlanks? (s : Session) : Option Session :=
  if _h : s.atEnd = true then some s
  else
    match s.source.text[s.pos]? with
    | none => none
    | some c => if isBlank c then (s.skip 1).passBlanks? else some s
termination_by s.rest.length
decreasing_by
  have hne : s.rest ≠ [] := by rwa [atEnd, List.isEmpty_iff] at _h
  have hpos := List.length_pos_iff.2 hne
  rw [length_rest_skip]
  omega

/-- What has come of reading a word: its characters, the session behind them, and whether they are
too many. -/
structure Gathered where
  lexeme : List Char
  session : Session
  excess : Bool

/-- Reads a word one character at a time, behind the characters `lexeme` that have been read of it.
It ends where a blank or no character comes next, or with the first character in excess. -/
def gather (lexeme : List Char) (s : Session) : Gathered :=
  match _h : s.source.text[s.pos]? with
  | none => ⟨lexeme, s, false⟩
  | some c =>
    if isBlank c then ⟨lexeme, s, false⟩
    else
      let lexeme := lexeme ++ [c]
      let next := s.skip 1
      if s.settings.limit < lexeme.length then ⟨lexeme, next, true⟩ else next.gather lexeme
termination_by s.rest.length
decreasing_by
  have hlt := (List.getElem?_eq_some_iff.1 _h).1
  show (s.rest.drop 1).length < s.rest.length
  rw [s.rest_eq, List.length_drop, List.length_drop]
  omega

/-- What a session fails with over a word that has been read from `start` on. -/
def Gathered.fail (start : Session) (g : Gathered) (fault : Fault) : Step :=
  let error : Error := ⟨fault, start.position⟩
  ⟨.failed error, { g.session with status := .failed error }, []⟩

/-- What comes of a word that has been read from `start` on. -/
def Gathered.step (start : Session) (g : Gathered) : Step :=
  let lexeme := String.ofList g.lexeme
  if g.excess then g.fail start (.tooLong lexeme start.settings.limit)
  else
    match start.settings.table.classify g.lexeme with
    | none => g.fail start (.unrecognized lexeme)
    | some kind =>
      ⟨.token ⟨kind, lexeme, ⟨start.position, g.session.position⟩⟩, g.session,
        [.token kind lexeme start.pos]⟩

/-- Reads what comes next one character at a time: blanks, and if the text goes on, a word. -/
def scan? (s : Session) : Option Step :=
  s.passBlanks?.map fun start =>
    if start.atEnd then start.finish else (start.gather []).step start

variable {s : Session} {w : Word} {ws : List Word}

/-! ## The text at the cursor -/

theorem atEnd_iff_rest : s.atEnd = true ↔ s.rest = [] := List.isEmpty_iff

theorem getElem?_pos_add (s : Session) (i : Nat) : s.source.text[s.pos + i]? = s.rest[i]? := by
  rw [s.rest_eq, List.getElem?_drop]

theorem length_rest (s : Session) : s.rest.length = s.source.text.length - s.pos := by
  rw [s.rest_eq, List.length_drop]

/-- A text that a line feed ends is ended by it wherever the cursor stands. -/
theorem ended_rest (h : s.source.text = [] ∨ s.source.text.getLast? = some '\n') :
    s.rest = [] ∨ s.rest.getLast? = some '\n' := by
  rw [s.rest_eq]
  rw [← List.take_append_drop s.pos s.source.text] at h
  exact Text.ended_of_append h

/-- **What comes next** where there are words: blanks, the first word, and a blank behind it. -/
theorem rest_of_words (hended : s.source.text = [] ∨ s.source.text.getLast? = some '\n')
    (h : s.words = w :: ws) :
    ∃ blanks c behind, s.rest = blanks ++ (w.text ++ c :: behind) ∧
      s.skipBlanks.pos = s.pos + blanks.length ∧ w.text ≠ [] ∧
      (∀ d ∈ w.text, isBlank d = false) ∧ isBlank c = true := by
  obtain ⟨hword, hne, -, -⟩ := skipBlanks_of_words h
  have hsplit : s.rest =
      s.rest.takeWhile isBlank ++ (w.text ++ s.skipBlanks.rest.dropWhile (!isBlank ·)) := by
    rw [← hword, word, List.takeWhile_append_dropWhile, rest_skipBlanks,
      List.takeWhile_append_dropWhile]
  have hw : ∀ d ∈ w.text, isBlank d = false := by
    intro d hd
    rw [← hword] at hd
    simpa using List.mem_takeWhile_imp hd
  cases hbehind : s.skipBlanks.rest.dropWhile (!isBlank ·) with
  | nil =>
    -- then the line feed at the end would be a character of the word
    rw [hbehind, List.append_nil] at hsplit
    have hrest := ended_rest hended
    rw [hsplit] at hrest
    rcases Text.ended_of_append hrest with hnil | hlast
    · exact absurd hnil hne
    · have hlf := hw '\n' (List.mem_of_getLast? hlast)
      cases hlf
  | cons c behind =>
    rw [hbehind] at hsplit
    refine ⟨_, c, behind, hsplit, rfl, hne, hw, ?_⟩
    have hc : (!isBlank c) = false := Text.head?_dropWhile c (by rw [hbehind]; rfl)
    simpa using hc

/-- Where there are no words there are blanks only. -/
theorem rest_skipBlanks_of_nil (h : s.words = []) : s.skipBlanks.rest = [] := by
  rcases s.words_cases with ⟨hrest, -, -⟩ | ⟨-, hcons⟩
  · exact hrest
  · rw [hcons] at h
    cases h

/-! ## One request -/

theorem status_cases (s : Session) :
    s.status = .scanning ∨ ∃ error?, s.status = .ofError? error? := by
  cases h : s.status with
  | scanning => exact .inl rfl
  | exhausted => exact .inr ⟨none, rfl⟩
  | failed e => exact .inr ⟨some e, rfl⟩

/-- A request leaves alone what the session is over. -/
theorem session_ask_keeps (s : Session) (r : Request) :
    (s.ask r).session.settings = s.settings ∧ (s.ask r).session.file = s.file ∧
      (s.ask r).session.source = s.source := by
  rcases s.status_cases with hs | ⟨error?, hs⟩
  · rw [ask_of_scanning hs]
    rcases next_cases hs with ⟨-, hnext⟩ | ⟨w, ws, fault, n, -, -, -, -, hnext⟩ |
      ⟨w, ws, kind, -, -, hnext⟩
    · rw [hnext]; exact ⟨rfl, rfl, rfl⟩
    · rw [hnext]; exact ⟨rfl, rfl, rfl⟩
    · rw [hnext]; exact ⟨rfl, rfl, rfl⟩
  · have hsession : (s.ask r).session = s := after_of_ended hs [r]
    rw [hsession]
    exact ⟨rfl, rfl, rfl⟩

/-- The cursor only moves on, and a request to a session that still reads moves it, unless it finds
the end. -/
theorem pos_ask (s : Session) (r : Request) :
    s.pos ≤ (s.ask r).session.pos ∧
      (s.status = .scanning →
        s.pos < (s.ask r).session.pos ∨ (s.ask r).session.status = .exhausted) := by
  rcases s.status_cases with hs | ⟨error?, hs⟩
  · rw [ask_of_scanning hs]
    have hblanks : s.pos ≤ s.skipBlanks.pos := Nat.le_add_right _ _
    rcases next_cases hs with ⟨-, hnext⟩ | ⟨w, ws, fault, n, -, -, hn, -, hnext⟩ |
      ⟨w, ws, kind, hws, -, hnext⟩
    · rw [hnext]
      exact ⟨hblanks, fun _ => .inr rfl⟩
    · have hpos : s.next.session.pos = s.skipBlanks.pos + n := by rw [hnext]; rfl
      rw [hpos]
      exact ⟨by omega, fun _ => .inl (by omega)⟩
    · obtain ⟨hword, hne, -, -⟩ := skipBlanks_of_words hws
      have hlen := List.length_pos_iff.2 hne
      have hpos : s.next.session.pos = s.skipBlanks.pos + w.text.length := by
        rw [hnext, accept, hword]; rfl
      rw [hpos]
      exact ⟨by omega, fun _ => .inl (by omega)⟩
  · have hsession : (s.ask r).session = s := after_of_ended hs [r]
    rw [hsession]
    refine ⟨Nat.le_refl _, ?_⟩
    intro hscanning
    rw [hscanning] at hs
    cases error? <;> cases hs

theorem Placed.atEnd_iff (h : s.Placed) :
    s.atEnd = true ↔ s.source.text = [] ∨ s.status = .exhausted := by
  have hlen := s.length_rest
  rw [atEnd_iff_rest, ← List.length_eq_zero_iff, ← List.length_eq_zero_iff]
  constructor
  · intro hrest
    have hle := h.pos_le
    cases hs : s.status with
    | scanning =>
      left
      rcases h.scanning hs with hzero | ⟨-, c, hc, -⟩
      · omega
      · have hlt := (List.getElem?_eq_some_iff.1 hc).1
        omega
    | exhausted => exact .inr rfl
    | failed e =>
      have hlt := h.failed e hs
      omega
  · rintro (hnil | hs)
    · omega
    · have hpos := h.exhausted hs
      omega

/-- Where no words are left, the blanks lead to the end. -/
theorem placed_finish (hle : s.pos ≤ s.source.text.length) (h : s.words = []) :
    s.skipBlanks.finish.session.Placed := by
  have hlen := s.length_rest
  have hrest := s.skipBlanks.length_rest
  rw [rest_skipBlanks_of_nil h, List.length_nil] at hrest
  have hblanks := (List.takeWhile_sublist (p := isBlank) (l := s.rest)).length_le
  have hpos : s.skipBlanks.pos = s.pos + (s.rest.takeWhile isBlank).length := rfl
  have hsource : s.skipBlanks.source = s.source := rfl
  rw [hsource] at hrest
  have hend : s.skipBlanks.pos = s.source.text.length := by omega
  refine ⟨Nat.le_of_eq hend, ?_, fun _ => hend, ?_⟩
  · intro h; cases h
  · intro e h; cases h

/-- The part of a word on which a request fails does not reach behind the word. -/
theorem placed_fail (hended : s.source.text = [] ∨ s.source.text.getLast? = some '\n')
    (hle : s.pos ≤ s.source.text.length) (h : s.words = w :: ws) {n : Nat}
    (hn : n ≤ w.text.length) (fault : Fault) : (s.skipBlanks.fail n fault).session.Placed := by
  obtain ⟨blanks, c, behind, hrest, hblanks, -⟩ := rest_of_words hended h
  have hlen := s.length_rest
  have hlt : s.skipBlanks.pos + n < s.source.text.length := by
    rw [hrest, List.length_append, List.length_append, List.length_cons] at hlen
    omega
  refine ⟨Nat.le_of_lt hlt, ?_, ?_, fun _ _ => hlt⟩
  · intro h; cases h
  · intro h; cases h

/-- Behind a word that is taken stands a blank. -/
theorem placed_accept (hended : s.source.text = [] ∨ s.source.text.getLast? = some '\n')
    (hs : s.status = .scanning) (h : s.words = w :: ws) (kind : Kind) :
    (s.skipBlanks.accept kind).session.Placed := by
  obtain ⟨blanks, c, behind, hrest, hblanks, hne, hw, hc⟩ := rest_of_words hended h
  obtain ⟨hword, -, -, -⟩ := skipBlanks_of_words h
  have hsession : (s.skipBlanks.accept kind).session = s.skipBlanks.skip w.text.length := by
    rw [accept, hword]
  have hpos : (s.skipBlanks.accept kind).session.pos =
      s.pos + (blanks.length + w.text.length) := by
    rw [hsession, ← Nat.add_assoc, ← hblanks]
    rfl
  have hsource : (s.skipBlanks.accept kind).session.source = s.source := rfl
  have hget : ∀ i, s.source.text[s.pos + (blanks.length + i)]? = (w.text ++ c :: behind)[i]? := by
    intro i
    rw [getElem?_pos_add, hrest, List.getElem?_append_right (Nat.le_add_right _ _),
      Nat.add_sub_cancel_left]
  have hnext : s.source.text[s.pos + (blanks.length + w.text.length)]? = some c := by
    rw [hget, List.getElem?_append_right (Nat.le_refl _), Nat.sub_self]
    rfl
  have hstatus : (s.skipBlanks.accept kind).session.status = .scanning := hs
  refine ⟨?_, ?_, ?_, ?_⟩
  · have hlt := (List.getElem?_eq_some_iff.1 hnext).1
    rw [hpos, hsource]
    exact Nat.le_of_lt hlt
  · intro _
    right
    rw [hpos, hsource]
    refine ⟨?_, c, hnext, hc⟩
    obtain ⟨d, hd⟩ := Option.isSome_iff_exists.1 (List.getLast?_isSome.2 hne)
    have hlen := List.length_pos_iff.2 hne
    have hbefore : s.pos + (blanks.length + w.text.length) - 1 =
        s.pos + (blanks.length + (w.text.length - 1)) := by omega
    rw [hbefore, hget, List.getElem?_append_left (by omega), ← List.getLast?_eq_getElem?]
    exact ⟨d, hd, hw d (List.mem_of_getLast? hd)⟩
  · intro h
    rw [hstatus] at h
    cases h
  · intro e h
    rw [hstatus] at h
    cases h

/-- **Each request leaves the cursor where it can stand.** -/
theorem placed_ask (hended : s.source.text = [] ∨ s.source.text.getLast? = some '\n')
    (h : s.Placed) (r : Request) : (s.ask r).session.Placed := by
  rcases s.status_cases with hs | ⟨error?, hs⟩
  · rw [ask_of_scanning hs]
    rcases next_cases hs with ⟨hnil, hnext⟩ | ⟨w, ws, fault, n, hws, -, -, hn, hnext⟩ |
      ⟨w, ws, kind, hws, -, hnext⟩
    · rw [hnext]
      exact placed_finish h.pos_le hnil
    · rw [hnext]
      exact placed_fail hended h.pos_le hws hn fault
    · rw [hnext]
      exact placed_accept hended hs hws kind
  · have hsession : (s.ask r).session = s := after_of_ended hs [r]
    rw [hsession]
    exact h

/-- **Text is left behind every answer** but that there is no more. -/
theorem atEnd_ask (hended : s.source.text = [] ∨ s.source.text.getLast? = some '\n')
    (h : s.Placed) (r : Request) (hpull : (s.ask r).pull ≠ .finished) :
    (s.ask r).session.atEnd = false := by
  have hplaced := placed_ask hended h r
  obtain ⟨-, -, hsource⟩ := session_ask_keeps s r
  rw [Bool.eq_false_iff, ne_eq, hplaced.atEnd_iff, hsource, not_or]
  rcases s.status_cases with hs | ⟨error?, hs⟩
  · have hne : ∀ {w ws}, s.words = w :: ws → s.source.text ≠ [] := by
      intro w ws hws hnil
      have hrest : s.rest = [] := by rw [s.rest_eq, hnil, List.drop_nil]
      rw [words, hrest, Text.wordsFrom_nil] at hws
      cases hws
    rw [ask_of_scanning hs] at hpull ⊢
    rcases next_cases hs with ⟨hnil, hnext⟩ | ⟨w, ws, fault, n, hws, -, -, -, hnext⟩ |
      ⟨w, ws, kind, hws, -, hnext⟩
    · rw [hnext] at hpull
      exact absurd rfl hpull
    · refine ⟨hne hws, ?_⟩
      rw [hnext]
      intro h; cases h
    · refine ⟨hne hws, ?_⟩
      have hstatus : s.next.session.status = .scanning := by rw [hnext]; exact hs
      rw [hstatus]
      intro h; cases h
  · -- only an error that is told again is left
    have hsession : (s.ask r).session = s := after_of_ended hs [r]
    cases error? with
    | none =>
      cases r with
      | token => rw [ask, next_of_ended hs] at hpull; exact absurd rfl hpull
      | item => rw [ask, nextItem_of_ended hs] at hpull; exact absurd rfl hpull
    | some e =>
      have hlt := h.failed e hs
      rw [hsession, hs]
      refine ⟨?_, ?_⟩
      · intro hnil
        rw [hnil] at hlt
        cases hlt
      · intro h; cases h

/-! ## Request after request -/

/-- **What requests leave alone, they all leave alone.** -/
theorem session_after_keeps (s : Session) (requests : List Request) :
    (s.after requests).settings = s.settings ∧ (s.after requests).file = s.file ∧
      (s.after requests).source = s.source := by
  induction requests generalizing s with
  | nil => exact ⟨rfl, rfl, rfl⟩
  | cons r requests ih =>
    obtain ⟨hsettings, hfile, hsource⟩ := session_ask_keeps s r
    obtain ⟨hsettings', hfile', hsource'⟩ := ih (s.ask r).session
    exact ⟨hsettings'.trans hsettings, hfile'.trans hfile, hsource'.trans hsource⟩

theorem placed_after (hended : s.source.text = [] ∨ s.source.text.getLast? = some '\n')
    (h : s.Placed) (requests : List Request) : (s.after requests).Placed := by
  induction requests generalizing s with
  | nil => exact h
  | cons r requests ih =>
    obtain ⟨-, -, hsource⟩ := session_ask_keeps s r
    exact ih (by rwa [hsource]) (placed_ask hended h r)

theorem pos_after (s : Session) (requests : List Request) : s.pos ≤ (s.after requests).pos := by
  induction requests generalizing s with
  | nil => exact Nat.le_refl _
  | cons r requests ih => exact Nat.le_trans (pos_ask s r).1 (ih _)

/-! ## One character at a time -/

theorem skip_skip (s : Session) (m n : Nat) : (s.skip m).skip n = s.skip (m + n) := by
  simp only [skip, List.drop_drop, Nat.add_assoc]

theorem getElem?_pos (s : Session) : s.source.text[s.pos]? = s.rest.head? := by
  rw [List.head?_eq_getElem?, ← getElem?_pos_add, Nat.add_zero]

/-- The character at the cursor comes next. -/
theorem rest_eq_cons {c : Char} (hc : s.source.text[s.pos]? = some c) :
    s.rest = c :: (s.skip 1).rest := by
  rw [getElem?_pos, List.head?_eq_some_iff] at hc
  obtain ⟨rest, hrest⟩ := hc
  show s.rest = c :: s.rest.drop 1
  rw [hrest]
  rfl

/-- **Passing blanks one by one does not leave the text**, and leads behind them all. -/
theorem passBlanks?_eq (s : Session) : s.passBlanks? = some s.skipBlanks := by
  fun_induction passBlanks? s with
  | case1 s hend =>
    have hrest := atEnd_iff_rest.1 hend
    rw [skipBlanks, hrest]
    rfl
  | case2 s hend hnone =>
    rw [getElem?_pos, List.head?_eq_none_iff] at hnone
    exact absurd (atEnd_iff_rest.2 hnone) hend
  | case3 s hend c hc hblank ih =>
    rw [ih, skipBlanks, skipBlanks, rest_eq_cons hc, List.takeWhile_cons_of_pos hblank,
      skip_skip, List.length_cons, Nat.add_comm]
  | case4 s hend c hc hblank =>
    rw [skipBlanks, rest_eq_cons hc, List.takeWhile_cons_of_neg hblank]
    rfl

/-- There is no word where a blank or no character comes next. -/
theorem word_eq_nil (h : ∀ c, s.source.text[s.pos]? = some c → isBlank c = true) :
    s.word = [] := by
  rw [getElem?_pos] at h
  unfold word
  cases hrest : s.rest with
  | nil => rfl
  | cons c rest =>
    have hc : isBlank c = true := h c (by rw [hrest]; rfl)
    rw [List.takeWhile_cons_of_neg (by simp [hc])]

/-- A word goes on as long as no blank comes. -/
theorem word_eq_cons {c : Char} (hc : s.source.text[s.pos]? = some c) (hblank : ¬ isBlank c = true) :
    s.word = c :: (s.skip 1).word := by
  rw [word, word, rest_eq_cons hc, List.takeWhile_cons_of_pos (by simp [hblank])]

/-- A word within the limit is read to its end. -/
theorem gather_of_le {lexeme : List Char}
    (h : lexeme.length + s.word.length ≤ s.settings.limit) :
    s.gather lexeme = ⟨lexeme ++ s.word, s.skip s.word.length, false⟩ := by
  fun_induction gather lexeme s with
  | case1 lexeme s hnone =>
    have hword : s.word = [] := s.word_eq_nil (by simp [hnone])
    rw [hword, List.append_nil]
    rfl
  | case2 lexeme s c hc hblank =>
    have hword : s.word = [] := s.word_eq_nil (by simp [hc, hblank])
    rw [hword, List.append_nil]
    rfl
  | case3 lexeme s c hc hblank longer next hexcess =>
    have hlen : longer.length = lexeme.length + 1 := List.length_append
    rw [word_eq_cons hc hblank, List.length_cons] at h
    omega
  | case4 lexeme s c hc hblank longer next hexcess ih =>
    have hlen : longer.length = lexeme.length + 1 := List.length_append
    have hword : s.word = c :: next.word := word_eq_cons hc hblank
    have hlimit : next.settings.limit = s.settings.limit := rfl
    rw [hword, List.length_cons] at h
    rw [ih (by omega), hword, skip_skip, List.length_cons, Nat.add_comm, List.append_assoc]
    rfl

/-- A word beyond the limit is read up to the first character in excess. -/
theorem gather_of_lt {lexeme : List Char} (hle : lexeme.length ≤ s.settings.limit)
    (h : s.settings.limit < lexeme.length + s.word.length) :
    s.gather lexeme = ⟨lexeme ++ s.word.take (s.settings.limit + 1 - lexeme.length),
      s.skip (s.settings.limit + 1 - lexeme.length), true⟩ := by
  fun_induction gather lexeme s with
  | case1 lexeme s hnone =>
    have hword : s.word = [] := s.word_eq_nil (by simp [hnone])
    rw [hword, List.length_nil] at h
    omega
  | case2 lexeme s c hc hblank =>
    have hword : s.word = [] := s.word_eq_nil (by simp [hc, hblank])
    rw [hword, List.length_nil] at h
    omega
  | case3 lexeme s c hc hblank longer next hexcess =>
    have hlen : longer.length = lexeme.length + 1 := List.length_append
    have hone : s.settings.limit + 1 - lexeme.length = 1 := by omega
    rw [hone, word_eq_cons hc hblank]
    rfl
  | case4 lexeme s c hc hblank longer next hexcess ih =>
    have hlen : longer.length = lexeme.length + 1 := List.length_append
    have hword : s.word = c :: next.word := word_eq_cons hc hblank
    have hlimit : next.settings.limit = s.settings.limit := rfl
    have hrest : s.settings.limit + 1 - lexeme.length =
        1 + (next.settings.limit + 1 - longer.length) := by omega
    rw [hword, List.length_cons] at h
    rw [ih (by omega) (by omega), hrest, hword, Nat.add_comm 1, List.take_succ_cons, skip_skip,
      Nat.add_comm 1, List.append_assoc]
    rfl

theorem step_gather (h : s.word ≠ []) : (s.gather []).step s = s.readWord := by
  rw [readWord, if_neg h]
  by_cases hlong : s.settings.limit < s.word.length
  · rw [if_pos hlong, gather_of_lt (Nat.zero_le _) (by simpa using hlong)]
    rfl
  · rw [if_neg hlong, gather_of_le (by simpa using hlong)]
    rfl

/-- Behind the blanks there is a word, or the text has ended. -/
theorem word_skipBlanks (s : Session) :
    s.skipBlanks.word = [] ↔ s.skipBlanks.atEnd = true := by
  rw [atEnd_iff_rest, word]
  have hhead := @Text.head?_dropWhile isBlank s.rest
  rw [← rest_skipBlanks] at hhead
  cases hrest : s.skipBlanks.rest with
  | nil => simp
  | cons c rest =>
    rw [hrest] at hhead
    have hc : isBlank c = false := hhead c rfl
    simp [hc]

/-- **Reading character by character** comes to what is told of words as a whole. -/
theorem scan?_eq (s : Session) : s.scan? = some s.skipBlanks.readWord := by
  rw [scan?, passBlanks?_eq, Option.map_some]
  by_cases hend : s.skipBlanks.atEnd = true
  · rw [if_pos hend, readWord, if_pos (s.word_skipBlanks.2 hend)]
  · rw [if_neg hend, step_gather (mt s.word_skipBlanks.1 hend)]

/-- **So the next token is read**, as long as the session reads. -/
theorem scan?_of_scanning (hs : s.status = .scanning) : s.scan? = some s.next := by
  rw [scan?_eq, next, hs]

end Session

/-- **Where a session stands at any time.** Behind any requests to a session that is started, the
session is over the same text with the same settings, and its cursor stands where it can; it has
moved on only, and passing blanks does not take it out of the text. The session is at the end if
there is no text or it has found the end, and so not behind any other answer. A request to a session
that still reads moves the cursor or finds the end. So at most half as many tokens are given as the
text has characters, and then asking for token after token comes to an end. -/
theorem session_placed {settings : Settings} {file : String} {text : List Char} {s : Session}
    (h : (Session.start settings file text).value = .ok s) :
    (∀ requests, let t := s.after requests
      t.settings = settings ∧ t.file = file ∧ t.source = s.source ∧ t.Placed ∧
      (∀ more, t.pos ≤ (s.after (requests ++ more)).pos) ∧ t.passBlanks? = some t.skipBlanks ∧
      (t.atEnd = true ↔ s.source.text = [] ∨ t.status = .exhausted) ∧
      (∀ r, (t.ask r).pull ≠ .finished → (t.ask r).session.atEnd = false) ∧
      (t.status = .scanning →
        t.pos < t.next.session.pos ∨ t.next.session.status = .exhausted) ∧
      ((s.replies requests).filterMap Pull.token?).length ≤ s.source.text.length / 2) ∧
    ∃ n ≤ s.source.text.length / 2, s.answer n = .finished ∨ ∃ e, s.answer n = .failed e := by
  obtain ⟨hstatus, hsettings, hfile⟩ := scanning_of_start h
  obtain ⟨-, hs⟩ := start_eq_ok_iff.1 h
  have hnormal := isNormal_ofAscii text
  have hended : s.source.text = [] ∨ s.source.text.getLast? = some '\n' := by
    rw [hs]
    exact hnormal.ended
  have hstart : s.Placed := by
    rw [hs]
    refine ⟨Nat.zero_le _, fun _ => .inl rfl, ?_, ?_⟩
    · intro h; cases h
    · intro e h; cases h
  have hyields := Session.yields_read hstatus
  have htokens : (s.settings.read s.file s.words).tokens.length ≤ s.source.text.length / 2 := by
    have hle := s.settings.length_tokens_le s.file s.words
    have hwords : s.words.length = (Text.words s.source.text).length := by
      rw [hs, ← @Text.map_text_wordsFrom 0, List.length_map]
      rfl
    have hhalf := Text.two_mul_length_words_le_of_ended hended
    omega
  constructor
  · intro requests t
    have hplaced := Session.placed_after hended hstart requests
    obtain ⟨hsettings', hfile', hsource⟩ := s.session_after_keeps requests
    have hatEnd := hplaced.atEnd_iff
    rw [hsource] at hatEnd
    refine ⟨hsettings'.trans hsettings, hfile'.trans hfile, hsource, hplaced, ?_,
      t.passBlanks?_eq, hatEnd, ?_, (t.pos_ask .token).2, ?_⟩
    · intro more
      rw [Session.after_append]
      exact t.pos_after more
    · intro r hpull
      exact Session.atEnd_ask (by rwa [hsource]) hplaced r hpull
    · have hle := List.length_take_le' requests.length (s.settings.read s.file s.words).tokens
      rw [hyields.taken]
      omega
  · refine ⟨_, htokens, ?_⟩
    have hlast := hyields.loops.2
    rw [hlast]
    cases (s.settings.read s.file s.words).error? with
    | none => exact .inl rfl
    | some e => exact .inr ⟨e, rfl⟩

/-- A word is cut at the limit, one character before the end of the text. -/
theorem session_placed_cut :
    ∃ s, (Session.start { limit := 2 } "f" "x abc".toList).value = .ok s ∧
      s.source.text = "x abc\n".toList ∧ (s.after [.token, .item]).Placed ∧
      (s.after [.token, .item]).pos = 5 ∧ (s.after [.token, .item]).atEnd = false ∧
      ∃ n ≤ 3, s.answer n = .finished ∨ ∃ e, s.answer n = .failed e := by
  have hascii : ∀ c ∈ "x abc".toList, Text.isAscii c = true := List.all_eq_true.1 rfl
  have hsource : Sanitized.ofAscii "x abc".toList = ⟨"x abc\n".toList, 5, 0, 0⟩ := by cbv
  have hstart := start_of_ascii { limit := 2 } "f" hascii
  rw [hsource] at hstart
  obtain ⟨hall, hend⟩ := session_placed hstart
  obtain ⟨-, -, -, hplaced, -, -, hatEnd, -⟩ := hall [.token, .item]
  refine ⟨_, hstart, rfl, hplaced, rfl, ?_, hend⟩
  rw [Bool.eq_false_iff, ne_eq, hatEnd, not_or]
  constructor
  · intro h; cases h
  · intro h; cases h

end Lexis
