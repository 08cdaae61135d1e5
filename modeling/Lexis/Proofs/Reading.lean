import Lexis.Proofs.NormalForm
import Lexis.Session
import Mathlib.Data.List.Forall2

/-!
# What a session reads

`Session.words` are the words that a session has still to read. A request takes the first of them
(`next_token`), fails on it (`next_tooLong`, `next_unrecognized`) or finds that there are none
(`next_finished`); skipping and cutting the text is not seen any further.

* `answers_words`: **the answers of a session are its words in order**, up to the first that is too
  long or not classified.
* `reading_eq`: what a session reads is told by its answer to one request.
* `drain_eq_read`: **the items that are left in a session** are told by its words alone.
* `read_of_forall₂`: words that differ in their places only give the same tokens and the same fault.
* `start_eq_ok_iff`, `tokenize_of_start`: a session is started over ASCII text, and the tokens of the
  text are what comes of the words of the session.
-/

namespace Lexis

open Text (isBlank Word wordsFrom)

/-- A word that a session takes for a token. -/
def Settings.Takes (settings : Settings) (word : List Char) : Prop :=
  word.length ≤ settings.limit ∧ ∃ kind, settings.table.classify word = some kind

/-- **The answer to a word**: a token of its kind with its text and span; if it is longer than the
limit, whatever its kind, an error with one character more than the limit; and if it has no kind, an
error with all of it. -/
structure Settings.Answers (settings : Settings) (file : String) (w : Word) (pull : Pull) :
    Prop where
  token : ∀ kind, w.text.length ≤ settings.limit → settings.table.classify w.text = some kind →
    pull = .token ⟨kind, String.ofList w.text,
      ⟨.ofByte file w.start, .ofByte file (w.start + w.text.length)⟩⟩
  tooLong : settings.limit < w.text.length →
    pull = .failed ⟨.tooLong (String.ofList (w.text.take (settings.limit + 1))) settings.limit,
      .ofByte file w.start⟩
  unrecognized : w.text.length ≤ settings.limit → settings.table.classify w.text = none →
    pull = .failed ⟨.unrecognized (String.ofList w.text), .ofByte file w.start⟩

/-- What comes of a word: its kind, or what is wrong with it. -/
def Settings.judge (settings : Settings) (word : List Char) : Except Fault Kind :=
  if settings.limit < word.length then
    .error (.tooLong (String.ofList (word.take (settings.limit + 1))) settings.limit)
  else
    match settings.table.classify word with
    | none => .error (.unrecognized (String.ofList word))
    | some kind => .ok kind

/-- Tokens and, where something was wrong, an error behind them. -/
structure Reading where
  tokens : List Token
  error? : Option Error

/-- The tokens, if nothing was wrong. -/
def Reading.collected (r : Reading) : Except Error (List Token) :=
  match r.error? with
  | some error => .error error
  | none => .ok r.tokens

theorem Reading.collected_eq_ok_iff {r : Reading} {tokens : List Token} :
    r.collected = .ok tokens ↔ r.tokens = tokens ∧ r.error? = none := by
  unfold collected
  split
  · rename_i herror
    simp [herror]
  · rename_i herror
    simp [herror]

theorem Reading.collected_eq_error_iff {r : Reading} {error : Error} :
    r.collected = .error error ↔ r.error? = some error := by
  unfold collected
  split
  · rename_i herror
    simp [herror]
  · rename_i herror
    simp [herror]

/-- A word as a token of some kind. -/
def Text.Word.token (file : String) (kind : Kind) (w : Word) : Token :=
  ⟨kind, String.ofList w.text, ⟨.ofByte file w.start, .ofByte file (w.start + w.text.length)⟩⟩

/-- What comes of words: a token of each, up to the first with which something is wrong. -/
def Settings.read (settings : Settings) (file : String) : List Word → Reading
  | [] => ⟨[], none⟩
  | w :: ws =>
    match settings.judge w.text with
    | .error fault => ⟨[], some ⟨fault, .ofByte file w.start⟩⟩
    | .ok kind =>
      let reading := settings.read file ws
      { reading with tokens := w.token file kind :: reading.tokens }

theorem Settings.judge_cases (settings : Settings) (word : List Char) :
    (settings.limit < word.length ∧ settings.judge word =
      .error (.tooLong (String.ofList (word.take (settings.limit + 1))) settings.limit)) ∨
    (word.length ≤ settings.limit ∧ settings.table.classify word = none ∧
      settings.judge word = .error (.unrecognized (String.ofList word))) ∨
    ∃ kind, word.length ≤ settings.limit ∧ settings.table.classify word = some kind ∧
      settings.judge word = .ok kind := by
  unfold judge
  by_cases hlen : settings.limit < word.length
  · rw [if_pos hlen]
    exact .inl ⟨hlen, rfl⟩
  · have hle := Nat.not_lt.1 hlen
    rw [if_neg hlen]
    cases hkind : settings.table.classify word with
    | none => exact .inr (.inl ⟨hle, rfl, rfl⟩)
    | some kind => exact .inr (.inr ⟨kind, hle, rfl, rfl⟩)

theorem Settings.takes_iff_judge {settings : Settings} {word : List Char} :
    settings.Takes word ↔ ∃ kind, settings.judge word = .ok kind := by
  rcases settings.judge_cases word with ⟨hlen, hj⟩ | ⟨-, hkind, hj⟩ | ⟨kind, hlen, hkind, hj⟩
  · rw [hj]
    exact iff_of_false (fun h => Nat.not_lt.2 h.1 hlen) (by simp)
  · rw [hj]
    refine iff_of_false ?_ (by simp)
    rintro ⟨-, kind, h⟩
    rw [hkind] at h
    cases h
  · exact iff_of_true ⟨hlen, kind, hkind⟩ ⟨kind, hj⟩

section

variable {settings : Settings} {file : String} {ws : List Word}

/-- **Nothing is wrong** exactly if all the words are taken. -/
theorem Settings.error?_read_eq_none_iff :
    (settings.read file ws).error? = none ↔ ∀ w ∈ ws, settings.Takes w.text := by
  induction ws with
  | nil => simp [Settings.read]
  | cons w ws ih =>
    rw [List.forall_mem_cons, ← ih, takes_iff_judge, Settings.read]
    cases hj : settings.judge w.text with
    | error fault => simp
    | ok kind => simp

/-- If nothing is wrong, the values of the tokens are the words. -/
theorem Settings.values_read (h : (settings.read file ws).error? = none) :
    (settings.read file ws).tokens.map (·.value.toList) = ws.map (·.text) := by
  induction ws with
  | nil => rfl
  | cons w ws ih =>
    rw [Settings.read] at h ⊢
    cases hj : settings.judge w.text with
    | error fault => rw [hj] at h; cases h
    | ok kind =>
      rw [hj] at h
      show (String.ofList w.text).toList ::
        (settings.read file ws).tokens.map (·.value.toList) = _
      rw [ih h, String.toList_ofList, List.map_cons]

/-- The tokens are the first of the words, each of its word's kind. -/
theorem Settings.getElem?_read {i : Nat} {t : Token}
    (h : (settings.read file ws).tokens[i]? = some t) :
    ∃ w kind, ws[i]? = some w ∧ settings.judge w.text = .ok kind ∧ t = w.token file kind := by
  induction ws generalizing i with
  | nil => cases h
  | cons w ws ih =>
    rw [Settings.read] at h
    cases hj : settings.judge w.text with
    | error fault =>
      rw [hj] at h
      cases h
    | ok kind =>
      rw [hj] at h
      cases i with
      | zero => exact ⟨w, kind, rfl, hj, (Option.some.inj h).symm⟩
      | succ i => exact ih h

/-- Every token is one of the words, and of the word's kind. -/
theorem Settings.mem_read {t : Token} (h : t ∈ (settings.read file ws).tokens) :
    ∃ w ∈ ws, ∃ kind, settings.judge w.text = .ok kind ∧ t = w.token file kind := by
  obtain ⟨i, hi⟩ := List.mem_iff_getElem?.1 h
  obtain ⟨w, kind, hw, hj, ht⟩ := Settings.getElem?_read hi
  exact ⟨w, List.mem_of_getElem? hw, kind, hj, ht⟩

/-- The word that something is wrong with first. -/
theorem Settings.exists_of_read_error {e : Error} (h : (settings.read file ws).error? = some e) :
    ∃ w ∈ ws, settings.judge w.text = .error e.fault ∧ e.position = .ofByte file w.start := by
  induction ws with
  | nil => cases h
  | cons w ws ih =>
    rw [Settings.read] at h
    cases hj : settings.judge w.text with
    | error fault =>
      rw [hj] at h
      obtain rfl := Option.some.inj h
      exact ⟨w, List.mem_cons_self, hj, rfl⟩
    | ok kind =>
      rw [hj] at h
      obtain ⟨w', hw', herror⟩ := ih h
      exact ⟨w', List.mem_cons_of_mem _ hw', herror⟩

end

namespace Session

/-- The words that a session has still to read. -/
def words (s : Session) : List Word := wordsFrom s.pos s.rest

/-- The answer to the request that follows on `n` requests. -/
def answer (s : Session) : Nat → Pull
  | 0 => s.next.pull
  | n + 1 => s.next.session.answer n

variable {s : Session} {w : Word} {ws : List Word}

/-! ## One request -/

theorem rest_skipBlanks (s : Session) : s.skipBlanks.rest = s.rest.dropWhile isBlank :=
  Text.drop_length_takeWhile _ _

theorem rest_skip_word (s : Session) :
    (s.skip s.word.length).rest = s.rest.dropWhile (!isBlank ·) :=
  Text.drop_length_takeWhile _ _

/-- Skipping blanks skips no word. -/
theorem words_skipBlanks (s : Session) : s.skipBlanks.words = s.words := by
  rw [words, rest_skipBlanks]
  exact Text.wordsFrom_dropWhile

/-- Where no blank comes next there is a word or nothing. -/
theorem words_of_head (hhead : ∀ c ∈ s.rest.head?, isBlank c = false) :
    (s.rest = [] ∧ s.word = [] ∧ s.words = []) ∨
      (s.word ≠ [] ∧ s.words = ⟨s.pos, s.word⟩ :: (s.skip s.word.length).words) := by
  cases hrest : s.rest with
  | nil => left; rw [word, words, hrest]; exact ⟨rfl, rfl, rfl⟩
  | cons c rest =>
    right
    have hc : isBlank c = false := hhead c (by rw [hrest]; rfl)
    have hne : s.word ≠ [] := by
      rw [word, hrest, List.takeWhile_cons_of_pos (by simpa using hc)]; simp
    have hsplit : s.word ++ (s.skip s.word.length).rest = s.rest := by
      rw [rest_skip_word, word, List.takeWhile_append_dropWhile]
    refine ⟨hne, ?_⟩
    rw [words, ← hsplit, Text.wordsFrom_append hne]
    · rfl
    · intro d hd
      simpa using List.mem_takeWhile_imp hd
    · intro d hd
      rw [rest_skip_word] at hd
      simpa using Text.head?_dropWhile d hd

/-- Behind the blanks that come next there is a word or nothing. -/
theorem words_cases (s : Session) :
    (s.skipBlanks.rest = [] ∧ s.skipBlanks.word = [] ∧ s.words = []) ∨
      (s.skipBlanks.word ≠ [] ∧ s.words = ⟨s.skipBlanks.pos, s.skipBlanks.word⟩ ::
        (s.skipBlanks.skip s.skipBlanks.word.length).words) := by
  have hhead : ∀ c ∈ s.skipBlanks.rest.head?, isBlank c = false := by
    rw [rest_skipBlanks]
    exact Text.head?_dropWhile
  rw [← words_skipBlanks s]
  exact words_of_head hhead

/-- **Skipping blanks leads to the first word** of a session that has words. -/
theorem skipBlanks_of_words (h : s.words = w :: ws) :
    s.skipBlanks.word = w.text ∧ w.text ≠ [] ∧ s.skipBlanks.pos = w.start ∧
      (s.skipBlanks.skip w.text.length).words = ws := by
  rcases s.words_cases with ⟨-, -, hnil⟩ | ⟨hne, hcons⟩
  · rw [hnil] at h; cases h
  · rw [hcons] at h
    obtain ⟨rfl, hws⟩ := List.cons.inj h
    exact ⟨rfl, hne, rfl, hws⟩

theorem next_of_scanning (hs : s.status = .scanning) : s.next = s.skipBlanks.readWord := by
  rw [next, hs]

/-- A request to a session without words finds the end. -/
theorem next_finished (hs : s.status = .scanning) (h : s.words = []) :
    s.next = s.skipBlanks.finish := by
  rcases s.words_cases with ⟨-, hnil, -⟩ | ⟨-, hcons⟩
  · rw [next_of_scanning hs, readWord, if_pos hnil]
  · rw [hcons] at h; cases h

/-- A request fails on a first word beyond the limit, before its kind is looked up. -/
theorem next_tooLong (hs : s.status = .scanning) (h : s.words = w :: ws)
    (hlen : s.settings.limit < w.text.length) :
    s.next = s.skipBlanks.fail (s.settings.limit + 1)
      (.tooLong (String.ofList (w.text.take (s.settings.limit + 1))) s.settings.limit) := by
  obtain ⟨hword, hne, -, -⟩ := skipBlanks_of_words h
  have hlen : s.skipBlanks.settings.limit < w.text.length := hlen
  rw [next_of_scanning hs, readWord, hword, if_neg hne, if_pos hlen]
  rfl

/-- A request fails on a first word that has no kind. -/
theorem next_unrecognized (hs : s.status = .scanning) (h : s.words = w :: ws)
    (hlen : w.text.length ≤ s.settings.limit) (hkind : s.settings.table.classify w.text = none) :
    s.next = s.skipBlanks.fail w.text.length (.unrecognized (String.ofList w.text)) := by
  obtain ⟨hword, hne, -, -⟩ := skipBlanks_of_words h
  have hlen : ¬ s.skipBlanks.settings.limit < w.text.length := Nat.not_lt.2 hlen
  have hkind : s.skipBlanks.settings.table.classify w.text = none := hkind
  rw [next_of_scanning hs, readWord, hword, if_neg hne, if_neg hlen, hkind]

/-- **A request takes the first word** if it is not too long and has a kind. -/
theorem next_token (hs : s.status = .scanning) (h : s.words = w :: ws) {kind : Kind}
    (hlen : w.text.length ≤ s.settings.limit)
    (hkind : s.settings.table.classify w.text = some kind) :
    s.next = s.skipBlanks.accept kind := by
  obtain ⟨hword, hne, -, -⟩ := skipBlanks_of_words h
  have hlen : ¬ s.skipBlanks.settings.limit < w.text.length := Nat.not_lt.2 hlen
  have hkind : s.skipBlanks.settings.table.classify w.text = some kind := hkind
  rw [next_of_scanning hs, readWord, hword, if_neg hne, if_neg hlen, hkind]

/-- A request fails over a part of a first word with which something is wrong. -/
theorem next_of_judge_error (hs : s.status = .scanning) (h : s.words = w :: ws) {fault : Fault}
    (hj : s.settings.judge w.text = .error fault) :
    ∃ n, 0 < n ∧ n ≤ w.text.length ∧ s.next = s.skipBlanks.fail n fault := by
  obtain ⟨-, hne, -, -⟩ := skipBlanks_of_words h
  have hpos := List.length_pos_iff.2 hne
  rcases s.settings.judge_cases w.text with ⟨hlen, hj'⟩ | ⟨hlen, hkind, hj'⟩ | ⟨kind, -, -, hj'⟩
  · obtain rfl := Except.error.inj (hj'.symm.trans hj)
    exact ⟨_, by omega, hlen, next_tooLong hs h hlen⟩
  · obtain rfl := Except.error.inj (hj'.symm.trans hj)
    exact ⟨_, hpos, Nat.le_refl _, next_unrecognized hs h hlen hkind⟩
  · rw [hj'] at hj
    cases hj

theorem next_of_judge_ok (hs : s.status = .scanning) (h : s.words = w :: ws) {kind : Kind}
    (hj : s.settings.judge w.text = .ok kind) : s.next = s.skipBlanks.accept kind := by
  rcases s.settings.judge_cases w.text with ⟨-, hj'⟩ | ⟨-, -, hj'⟩ | ⟨kind', hlen, hkind, hj'⟩
  · rw [hj'] at hj
    cases hj
  · rw [hj'] at hj
    cases hj
  · obtain rfl := Except.ok.inj (hj'.symm.trans hj)
    exact next_token hs h hlen hkind

/-- **Behind a token** the session still reads, and has the other words to read. -/
theorem session_next_token (hs : s.status = .scanning) (h : s.words = w :: ws)
    (htakes : s.settings.Takes w.text) :
    s.next.session.status = .scanning ∧ s.next.session.words = ws ∧
      s.next.session.settings = s.settings ∧ s.next.session.file = s.file := by
  obtain ⟨hlen, kind, hkind⟩ := htakes
  obtain ⟨hword, -, -, hws⟩ := skipBlanks_of_words h
  have hsession : s.next.session = s.skipBlanks.skip w.text.length := by
    rw [next_token hs h hlen hkind, accept, hword]
  rw [hsession]
  exact ⟨hs, hws, rfl, rfl⟩

theorem answers_first (hs : s.status = .scanning) (h : s.words = w :: ws) :
    s.settings.Answers s.file w s.next.pull := by
  obtain ⟨hword, -, hpos, -⟩ := skipBlanks_of_words h
  have hfail : ∀ n fault, (s.skipBlanks.fail n fault).pull =
      .failed ⟨fault, .ofByte s.file w.start⟩ := by
    intro n fault; rw [← hpos]; rfl
  refine ⟨?_, ?_, ?_⟩
  · intro kind hlen hkind
    rw [next_token hs h hlen hkind, ← hword, ← hpos]; rfl
  · intro hlen
    rw [next_tooLong hs h hlen, hfail]
  · intro hlen hkind
    rw [next_unrecognized hs h hlen hkind, hfail]

/-! ## Request after request -/

theorem answer_of_exhausted (hs : s.status = .exhausted) (n : Nat) : s.answer n = .finished := by
  have hnext : s.next = ⟨.finished, s, []⟩ := by rw [next, hs]
  induction n with
  | zero => rw [answer, hnext]
  | succ n ih => rw [answer, hnext]; exact ih

/-- **The answers of a session are its words in order**, as far as it takes them. -/
theorem answers_words (hs : s.status = .scanning) {i : Nat} (hw : s.words[i]? = some w)
    (htakes : ∀ v ∈ s.words.take i, s.settings.Takes v.text) :
    s.settings.Answers s.file w (s.answer i) := by
  induction i generalizing s with
  | zero =>
    cases hwords : s.words with
    | nil => rw [hwords] at hw; cases hw
    | cons v vs =>
      rw [hwords] at hw
      cases hw
      exact answers_first hs hwords
  | succ i ih =>
    cases hwords : s.words with
    | nil => rw [hwords] at hw; cases hw
    | cons v vs =>
      rw [hwords, List.take_succ_cons, List.forall_mem_cons] at htakes
      rw [hwords, List.getElem?_cons_succ] at hw
      obtain ⟨hstatus, hws, hsettings, hfile⟩ := session_next_token hs hwords htakes.1
      rw [← hsettings, ← hfile]
      refine ih hstatus (by rw [hws]; exact hw) ?_
      rw [hws, hsettings]
      exact htakes.2

/-- **A session that takes all its words comes to the end**, and stays there. -/
theorem answer_finished (hs : s.status = .scanning)
    (htakes : ∀ v ∈ s.words, s.settings.Takes v.text) {n : Nat} (hn : s.words.length ≤ n) :
    s.answer n = .finished := by
  induction n generalizing s with
  | zero =>
    have hnil : s.words = [] := List.eq_nil_of_length_eq_zero (Nat.le_zero.1 hn)
    rw [answer, next_finished hs hnil]; rfl
  | succ n ih =>
    cases hwords : s.words with
    | nil =>
      rw [answer]
      refine answer_of_exhausted ?_ n
      rw [next_finished hs hwords]; rfl
    | cons v vs =>
      rw [hwords, List.forall_mem_cons] at htakes
      rw [hwords, List.length_cons] at hn
      obtain ⟨hstatus, hws, hsettings, -⟩ := session_next_token hs hwords htakes.1
      refine ih hstatus ?_ (by rw [hws]; omega)
      rw [hws, hsettings]
      exact htakes.2

/-- If all the words are taken, their texts tell the answers but for the spans. -/
theorem answers_of_texts {texts : List (List Char)} (hs : s.status = .scanning)
    (htexts : s.words.map Word.text = texts) (htakes : ∀ text ∈ texts, s.settings.Takes text) :
    (∀ i text kind, texts[i]? = some text → s.settings.table.classify text = some kind →
      ∃ span, s.answer i = .token ⟨kind, String.ofList text, span⟩) ∧
    ∀ i, texts.length ≤ i → s.answer i = .finished := by
  subst htexts
  have hall : ∀ w ∈ s.words, s.settings.Takes w.text :=
    fun w hw => htakes w.text (List.mem_map_of_mem hw)
  constructor
  · intro i text kind htext hkind
    rw [List.getElem?_map] at htext
    obtain ⟨w, hw, rfl⟩ := Option.map_eq_some_iff.1 htext
    have hanswer := answers_words hs hw fun v hv => hall v (List.mem_of_mem_take hv)
    exact ⟨_, hanswer.token kind (hall w (List.mem_of_getElem? hw)).1 hkind⟩
  · intro i hi
    rw [List.length_map] at hi
    exact answer_finished hs hall hi

/-! ## All items -/

/-- What comes of the words that a session has still to read. -/
def reading (s : Session) : Reading := s.settings.read s.file s.words

theorem nextItem_of_scanning (hs : s.status = .scanning) : s.nextItem = s.next := by
  rw [nextItem, hs]

/-- A request answers with what comes of the first word. -/
theorem pull_of_judge (hs : s.status = .scanning) (h : s.words = w :: ws) :
    (∀ fault, s.settings.judge w.text = .error fault →
      s.next.pull = .failed ⟨fault, .ofByte s.file w.start⟩) ∧
    ∀ kind, s.settings.judge w.text = .ok kind →
      s.next.pull = .token (w.token s.file kind) ∧ s.settings.Takes w.text := by
  obtain ⟨hword, -, hpos, -⟩ := skipBlanks_of_words h
  constructor
  · intro fault hj
    obtain ⟨n, -, -, hnext⟩ := next_of_judge_error hs h hj
    rw [hnext, ← hpos]
    rfl
  · intro kind hj
    refine ⟨?_, Settings.takes_iff_judge.2 ⟨kind, hj⟩⟩
    rw [next_of_judge_ok hs h hj, Text.Word.token, ← hword, ← hpos]
    rfl

/-- **What a session reads is told by its answer**: behind a token the session that goes on from there
reads the rest, and there is nothing behind the end or an error. -/
theorem reading_eq (hs : s.status = .scanning) :
    s.reading = match s.next.pull with
      | .token t => ⟨t :: s.next.session.reading.tokens, s.next.session.reading.error?⟩
      | .finished => ⟨[], none⟩
      | .failed e => ⟨[], some e⟩ := by
  unfold reading
  cases hws : s.words with
  | nil =>
    rw [next_finished hs hws]
    rfl
  | cons w ws =>
    obtain ⟨herror, hok⟩ := pull_of_judge hs hws
    rw [Settings.read]
    cases hj : s.settings.judge w.text with
    | error fault => rw [herror fault hj]
    | ok kind =>
      obtain ⟨hpull, htakes⟩ := hok kind hj
      obtain ⟨-, hrest, hsettings, hfile⟩ := session_next_token hs hws htakes
      rw [hpull, hrest, hsettings, hfile]

/-- Behind a token the session still reads. -/
theorem scanning_next {t : Token} (hs : s.status = .scanning) (h : s.next.pull = .token t) :
    s.next.session.status = .scanning := by
  cases hws : s.words with
  | nil =>
    rw [next_finished hs hws] at h
    cases h
  | cons w ws =>
    obtain ⟨herror, hok⟩ := pull_of_judge hs hws
    cases hj : s.settings.judge w.text with
    | error fault =>
      rw [herror fault hj] at h
      cases h
    | ok kind => exact (session_next_token hs hws (hok kind hj).2).1

theorem drainFrom_eq_reading {tokens : List Token} {events : List Event}
    (hs : s.status = .scanning) :
    (s.drainFrom tokens events).tokens = tokens.reverse ++ s.reading.tokens ∧
      (s.drainFrom tokens events).error? = s.reading.error? := by
  induction tokens, events, s using drainFrom.induct with
  | case1 tokens events s t next more hitem ih =>
    have hnext : s.next = ⟨.token t, next, more⟩ := (nextItem_of_scanning hs).symm.trans hitem
    have hstatus := scanning_next hs (congrArg Step.pull hnext)
    have hreading := reading_eq hs
    rw [hnext] at hstatus hreading
    obtain ⟨htokens, herror⟩ := ih hstatus
    -- the token goes to the front of those taken before, and so behind them in the end
    rw [drainFrom, hitem, hreading]
    refine ⟨?_, herror⟩
    rw [htokens, List.reverse_cons, List.append_assoc]
    rfl
  | case2 tokens events s next more hitem =>
    have hnext := (nextItem_of_scanning hs).symm.trans hitem
    rw [drainFrom, hitem, reading_eq hs, hnext]
    exact ⟨(List.append_nil _).symm, rfl⟩
  | case3 tokens events s next more e hitem =>
    have hnext := (nextItem_of_scanning hs).symm.trans hitem
    rw [drainFrom, hitem, reading_eq hs, hnext]
    exact ⟨(List.append_nil _).symm, rfl⟩

/-- **The items that are left** are what comes of the words that are left. -/
theorem drain_eq_read (hs : s.status = .scanning) :
    s.drain.tokens = (s.settings.read s.file s.words).tokens ∧
      s.drain.error? = (s.settings.read s.file s.words).error? :=
  drainFrom_eq_reading hs

theorem collected_drain (hs : s.status = .scanning) :
    s.drain.collected = (s.settings.read s.file s.words).collected := by
  obtain ⟨htokens, herror⟩ := drain_eq_read hs
  rw [Drained.collected, htokens, herror]
  obtain ⟨tokens, error?⟩ := s.settings.read s.file s.words
  cases error? with
  | none => rfl
  | some error => rfl

end Session

/-- **Places do not matter**: words with the same texts give the same tokens, and the same fault. -/
theorem Settings.read_of_forall₂ (settings : Settings) (file file' : String)
    {R : Word → Word → Prop} (htext : ∀ w w', R w w' → w.text = w'.text) {ws ws' : List Word}
    (h : List.Forall₂ R ws ws') :
    ((settings.read file ws).tokens == (settings.read file' ws').tokens) = true ∧
      Option.Rel (fun e e' => e.fault = e'.fault ∧ ∃ w w', R w w' ∧
          e.position = .ofByte file w.start ∧ e'.position = .ofByte file' w'.start)
        (settings.read file ws).error? (settings.read file' ws').error? := by
  induction h with
  | nil => exact ⟨rfl, .none⟩
  | @cons w w' ws ws' hw _ ih =>
    rw [Settings.read, Settings.read, ← htext w w' hw]
    cases settings.judge w.text with
    | error fault => exact ⟨rfl, .some ⟨rfl, w, w', hw, rfl, rfl⟩⟩
    | ok kind =>
      obtain ⟨htokens, herror⟩ := ih
      refine ⟨?_, herror⟩
      have hhead : (w.token file kind == w'.token file' kind) = true := by
        rw [Token.beq_iff, Text.Word.token, Text.Word.token, htext w w' hw]
        exact ⟨rfl, rfl⟩
      rw [List.cons_beq_cons, hhead, htokens]
      rfl

/-- **The texts of the words** tell the tokens but for their places, and the fault. -/
theorem Settings.read_of_texts_eq (settings : Settings) (file file' : String) {ws ws' : List Word}
    (h : ws.map Word.text = ws'.map Word.text) :
    ((settings.read file ws).tokens == (settings.read file' ws').tokens) = true ∧
      (settings.read file ws).error?.map (·.fault) =
        (settings.read file' ws').error?.map (·.fault) := by
  have hsame : List.Forall₂ (fun w w' : Word => w.text = w'.text) ws ws' := by
    rw [← List.forall₂_eq_eq_eq, List.forall₂_map_left_iff, List.forall₂_map_right_iff] at h
    exact h
  obtain ⟨htokens, herror⟩ := settings.read_of_forall₂ file file' (fun _ _ htext => htext) hsame
  refine ⟨htokens, ?_⟩
  generalize (settings.read file ws).error? = error? at herror ⊢
  generalize (settings.read file' ws').error? = error?' at herror ⊢
  cases herror with
  | none => rfl
  | some hrel => exact congrArg some hrel.1

/-- **A session over an ASCII text** starts at the start of the sanitized text. -/
theorem start_of_ascii (settings : Settings) (file : String) {text : List Char}
    (h : ∀ c ∈ text, Text.isAscii c = true) :
    (Session.start settings file text).value =
      .ok (.ofSanitized settings file (Sanitized.ofAscii text)) := by
  rw [Session.start, Logged.map, sanitize_of_ascii file h]; rfl

/-- **A session is started over ASCII text** and over no other. -/
theorem start_eq_ok_iff {settings : Settings} {file : String} {text : List Char} {s : Session} :
    (Session.start settings file text).value = .ok s ↔
      (∀ c ∈ text, Text.isAscii c = true) ∧
        s = .ofSanitized settings file (Sanitized.ofAscii text) := by
  constructor
  · intro h
    have hascii : ∀ c ∈ text, Text.isAscii c = true := by
      rw [← List.dropWhile_eq_nil_iff]
      rw [Session.start, Logged.map, sanitize] at h
      cases hdrop : text.dropWhile Text.isAscii with
      | nil => rfl
      | cons c rest => rw [hdrop] at h; cases h
    rw [start_of_ascii settings file hascii] at h
    exact ⟨hascii, (Except.ok.inj h).symm⟩
  · rintro ⟨hascii, rfl⟩
    exact start_of_ascii settings file hascii

theorem scanning_of_start {settings : Settings} {file : String} {text : List Char} {s : Session}
    (h : (Session.start settings file text).value = .ok s) :
    s.status = .scanning ∧ s.settings = settings ∧ s.file = file := by
  obtain ⟨-, rfl⟩ := start_eq_ok_iff.1 h
  exact ⟨rfl, rfl, rfl⟩

/-- **The tokens of a text** are what comes of the words of its session. -/
theorem tokenize_of_start {settings : Settings} {file : String} {text : List Char} {s : Session}
    (h : (Session.start settings file text).value = .ok s) :
    (tokenize settings file text).value = (settings.read file s.words).collected := by
  obtain ⟨hstatus, hsettings, hfile⟩ := scanning_of_start h
  have hdrain : (tokenize settings file text).value = s.drain.collected := by
    unfold tokenize
    split
    · rename_i heq
      rw [heq] at h
      cases h
    · rename_i heq
      rw [heq] at h
      rw [Except.ok.inj h]
  rw [hdrain, Session.collected_drain hstatus, hsettings, hfile]

theorem start_of_tokenize {settings : Settings} {file : String} {text : List Char}
    {tokens : List Token} (h : (tokenize settings file text).value = .ok tokens) :
    ∃ s, (Session.start settings file text).value = .ok s := by
  unfold tokenize at h
  split at h
  · cases h
  · rename_i s _ heq
    exact ⟨s, by rw [heq]⟩

theorem ascii_ofAscii {text : List Char} (h : ∀ c ∈ text, Text.isAscii c = true) :
    ∀ c ∈ (Sanitized.ofAscii text).text, Text.isAscii c = true := by
  intro c hc
  rcases List.mem_append.1 ((ofAscii_sublist text).subset hc) with hc | hc
  · exact h c hc
  · rw [List.mem_singleton.1 hc]; rfl

/-- **A session reads the words of its text.** Let `ws` be the maximal runs of the sanitized text in
order. To request `i` the session answers with word `i`, if it takes the words before it; and if it
takes them all, it answers to every request behind the last word that it has finished. -/
theorem session_reads_words (settings : Settings) (file : String) {text : List Char}
    (h : ∀ c ∈ text, Text.isAscii c = true) :
    ∃ (s : Session) (ws : List Word), (Session.start settings file text).value = .ok s ∧
      (sanitize file text).value = .ok s.source ∧
      (∀ w, w ∈ ws ↔ Text.IsWord 0 s.source.text w) ∧
      ws.Pairwise (fun v w => v.start + v.text.length < w.start) ∧
      (∀ i w, ws[i]? = some w → (∀ v ∈ ws.take i, settings.Takes v.text) →
        settings.Answers file w (s.answer i)) ∧
      ((∀ v ∈ ws, settings.Takes v.text) → ∀ i, ws.length ≤ i → s.answer i = .finished) := by
  set s := Session.ofSanitized settings file (Sanitized.ofAscii text)
  refine ⟨s, s.words, start_of_ascii settings file h, sanitize_of_ascii file h, ?_,
    (Text.wordsFrom_pairwise 0 _).2, ?_, ?_⟩
  · intro w
    exact Text.mem_wordsFrom_iff (ascii_ofAscii h)
  · intro i w hw htakes
    exact Session.answers_words rfl hw htakes
  · intro htakes i hi
    exact Session.answer_finished rfl htakes hi

/-- The second word is cut behind the limit, before its kind is told. -/
theorem session_reads_words_cut :
    let text := "if /*\n*/ abcd\r\n".toList
    (∀ c ∈ text, Text.isAscii c = true) ∧
      ∃ s : Session, (Session.start { limit := 2 } "f" text).value = .ok s ∧
        s.answer 0 = .token ⟨.keyword, "if", ⟨.ofByte "f" 0, .ofByte "f" 2⟩⟩ ∧
        s.answer 1 = .failed ⟨.tooLong "abc" 2, .ofByte "f" 4⟩ := by
  have hascii : ∀ c ∈ "if /*\n*/ abcd\r\n".toList, Text.isAscii c = true :=
    List.all_eq_true.1 rfl
  refine ⟨hascii, ?_⟩
  obtain ⟨s, ws, hstart, hsource, hmem, hpair, hanswers, -⟩ :=
    session_reads_words { limit := 2 } "f" hascii
  have htext : s.source.text = "if  abcd\n".toList := by
    rw [← Except.ok.inj ((sanitize_of_ascii "f" hascii).symm.trans hsource)]
    cbv
  rw [htext] at hmem
  obtain rfl := Text.eq_wordsFrom (List.all_eq_true.1 rfl) hmem hpair
  have hif := hanswers 0 ⟨0, "if".toList⟩ rfl (by simp)
  have habcd := hanswers 1 ⟨4, "abcd".toList⟩ rfl ?_
  · exact ⟨s, hstart, hif.token .keyword (by decide) (by decide), habcd.tooLong (by decide)⟩
  · intro v hv
    obtain rfl := List.mem_singleton.1 hv
    exact ⟨by decide, .keyword, by decide⟩

end Lexis
