import Lexis.Proofs.Requests

/-!
# What the log tells of a session

A request for a token or an item makes one record at most: of the token that it takes, or of the end
when it finds it. A failure is not told, nor is anything that is asked for behind it or behind the
end.

* `tell_cases`: **what one request tells** of a session that still reads, and what is left to tell.
* `log_eq_take`: **what requests tell**, in whatever order the two sorts of them are mixed.
* `events_after`: so each request tells what is next, if anything is left.
* `session_logs`: so it is for each session that is started, and starting it makes two records.
-/

namespace Lexis

open Text (Word)

/-- An event as the log has it: its level and its text. -/
def Event.record (e : Event) : Level × String := (e.level, e.message)

/-- The record of a token that is the word `w`. -/
def Token.record (t : Token) (w : Word) : Level × String :=
  (.trace, s!"{t.kind.name} ({t.value}) at {w.start}")

/-- The records of some tokens, which are the first of the words `ws`, and behind them the record of
the end, if there is no error. -/
def records (file : String) (ws : List Word) (tokens : List Token) (error? : Option Error) :
    List (Level × String) :=
  tokens.zipWith Token.record ws ++
    if error? = none then [(.debug, s!"End of {file} reached")] else []

/-- What there is to tell of words: a token of each, up to the first with which something is wrong,
and the end if there is none such. -/
def Settings.tell (settings : Settings) (file : String) : List Word → List Event
  | [] => [.ended file]
  | w :: ws =>
    match settings.judge w.text with
    | .error _ => []
    | .ok kind => .token kind (String.ofList w.text) w.start :: settings.tell file ws

namespace Session

/-- What the log tells of some requests. -/
def log (s : Session) : List Request → List Event
  | [] => []
  | r :: requests => (s.ask r).events ++ (s.ask r).session.log requests

/-- What there is still to tell of a session that reads. -/
def tell (s : Session) : List Event := s.settings.tell s.file s.words

/-- **What the log tells of a session**, whose words are `ws`, when it comes to some tokens and an
error or the end. -/
structure Logs (s : Session) (ws : List Word) (tokens : List Token) (error? : Option Error) :
    Prop where
  /-- The tokens are words in their order. -/
  words : ∀ (i : Nat) (t : Token), tokens[i]? = some t →
    ∃ w : Word, ws[i]? = some w ∧ t.value.toList = w.text
  /-- Each request makes the record that is next, if one is left. -/
  request : ∀ before r, ((s.after before).ask r).events.map Event.record =
    (records s.file ws tokens error?)[before.length]?.toList
  /-- So requests make the records in their order, as far as the requests go. -/
  run : ∀ requests, (s.log requests).map Event.record =
    (records s.file ws tokens error?).take requests.length
  /-- Nothing is told of a failure, when it is met or when it is told again. -/
  failed : ∀ before r e, ((s.after before).ask r).pull = .failed e →
    ((s.after before).ask r).events = []
  /-- Nothing is told behind the request that has met the end or an error. -/
  silent : ∀ before r, tokens.length < before.length → ((s.after before).ask r).events = []
  /-- The end is told once at most. -/
  once : ∀ requests, (s.log requests).count (.ended s.file) ≤ 1
  /-- It is not told of a session that fails. -/
  never : error? ≠ none → ∀ requests file, .ended file ∉ s.log requests

end Session

/-! ## What there is to tell -/

section

variable (settings : Settings) (file : String) (ws : List Word)

/-- **The records of what there is to tell** are those of the tokens and of the end. -/
theorem Settings.map_record_tell :
    (settings.tell file ws).map Event.record =
      records file ws (settings.read file ws).tokens (settings.read file ws).error? := by
  induction ws with
  | nil => rfl
  | cons w ws ih =>
    unfold tell read
    cases settings.judge w.text with
    | error fault => rfl
    | ok kind =>
      rw [List.map_cons, ih]
      rfl

theorem Settings.count_ended_tell : (settings.tell file ws).count (.ended file) ≤ 1 := by
  induction ws with
  | nil => simp [tell]
  | cons w ws ih =>
    unfold tell
    cases settings.judge w.text with
    | error fault => exact Nat.zero_le 1
    | ok kind => rwa [List.count_cons_of_ne (by simp)]

/-- The end is told only of words with which nothing is wrong. -/
theorem Settings.error?_of_ended_mem_tell {name : String}
    (h : Event.ended name ∈ settings.tell file ws) : (settings.read file ws).error? = none := by
  induction ws with
  | nil => rfl
  | cons w ws ih =>
    unfold tell at h
    unfold read
    cases hj : settings.judge w.text with
    | error fault =>
      rw [hj] at h
      cases h
    | ok kind =>
      rw [hj] at h
      exact ih ((List.mem_cons.1 h).resolve_left (by simp))

end

/-- There is a record for each token, and one more if there is no error. -/
theorem length_records {file : String} {ws : List Word} {tokens : List Token}
    {error? : Option Error} (h : tokens.length ≤ ws.length) :
    (records file ws tokens error?).length = tokens.length + if error? = none then 1 else 0 := by
  unfold records
  rw [List.length_append, List.length_zipWith, Nat.min_eq_left h]
  split <;> rfl

namespace Session

variable {s : Session}

/-! ## One request -/

/-- **What one request tells** of a session that still reads: it ends the session and tells all that
is left, one event at most; or it tells the first event that is left and goes on. -/
theorem tell_cases (hs : s.status = .scanning) :
    (∃ error?, s.next.session.status = .ofError? error? ∧ s.tell = s.next.events ∧
      s.next.events.length ≤ 1) ∨
    ∃ e, s.next.session.status = .scanning ∧ s.next.events = [e] ∧
      s.tell = e :: s.next.session.tell := by
  unfold tell
  rcases next_cases hs with ⟨hnil, hnext⟩ | ⟨w, ws, fault, n, hws, hj, -, -, hnext⟩ |
    ⟨w, ws, kind, hws, hj, hnext⟩
  · left
    rw [hnil, hnext]
    exact ⟨none, rfl, rfl, Nat.le_refl 1⟩
  · left
    rw [hws, Settings.tell, hj, hnext]
    exact ⟨some ⟨fault, s.skipBlanks.position⟩, rfl, rfl, Nat.zero_le 1⟩
  · right
    obtain ⟨hword, -, hstart, -⟩ := skipBlanks_of_words hws
    obtain ⟨hstatus, hrest, hsettings, hfile⟩ :=
      session_next_token hs hws (Settings.takes_iff_judge.2 ⟨kind, hj⟩)
    refine ⟨.token kind (String.ofList w.text) w.start, hstatus, ?_, ?_⟩
    · rw [hnext, accept, hword, hstart]
    · rw [hrest, hsettings, hfile, hws, Settings.tell, hj]

theorem events_of_ended {error? : Option Error} (h : s.status = .ofError? error?) (r : Request) :
    (s.ask r).events = [] := by
  cases r with
  | token => rw [ask, next_of_ended h]
  | item => rw [ask, nextItem_of_ended h]

/-! ## Request after request -/

theorem log_of_ended {error? : Option Error} (h : s.status = .ofError? error?)
    (requests : List Request) : s.log requests = [] := by
  induction requests with
  | nil => rfl
  | cons r requests ih =>
    have hsession : (s.ask r).session = s := after_of_ended h [r]
    rw [log, events_of_ended h, hsession, ih]
    rfl

/-- **Requests tell what there is to tell**, one event each, whatever their sorts. -/
theorem log_eq_take (hs : s.status = .scanning) (requests : List Request) :
    s.log requests = s.tell.take requests.length := by
  induction requests generalizing s with
  | nil => rfl
  | cons r requests ih =>
    rw [log, ask_of_scanning hs, List.length_cons]
    rcases tell_cases hs with ⟨error?, hended, htell, hlen⟩ | ⟨e, hstatus, hevents, htell⟩
    · rw [log_of_ended hended, List.append_nil, htell, List.take_of_length_le (by omega)]
    · rw [hevents, ih hstatus, htell]
      rfl

theorem log_append (s : Session) (before more : List Request) :
    s.log (before ++ more) = s.log before ++ (s.after before).log more := by
  induction before generalizing s with
  | nil => rfl
  | cons r before ih => rw [List.cons_append, log, log, after, ih, List.append_assoc]

/-- So the request behind some requests tells what is next, if anything is left. -/
theorem events_after (hs : s.status = .scanning) (before : List Request) (r : Request) :
    ((s.after before).ask r).events = s.tell[before.length]?.toList := by
  have hone : (s.after before).log [r] = ((s.after before).ask r).events := List.append_nil _
  have hlog := s.log_append before [r]
  rw [hone, log_eq_take hs, log_eq_take hs, List.length_append, List.length_singleton,
    List.take_add_one] at hlog
  exact (List.append_cancel_left hlog).symm

/-- A request that fails tells nothing, whether the failure is new or not. -/
theorem events_of_failed {r : Request} {e : Error} (h : (s.ask r).pull = .failed e) :
    (s.ask r).events = [] := by
  cases hs : s.status with
  | exhausted => exact @events_of_ended s none hs r
  | failed e' => exact @events_of_ended s (some e') hs r
  | scanning =>
    rw [ask_of_scanning hs] at h ⊢
    rcases next_cases hs with ⟨-, hnext⟩ | ⟨w, ws, fault, n, -, -, -, -, hnext⟩ |
      ⟨w, ws, kind, -, -, hnext⟩
    · rw [hnext] at h
      cases h
    · rw [hnext]
      rfl
    · rw [hnext] at h
      cases h

/-- **The log of a session** that is not asked yet. -/
theorem logs_read (hs : s.status = .scanning) :
    s.Logs s.words (s.settings.read s.file s.words).tokens
      (s.settings.read s.file s.words).error? := by
  set reading := s.settings.read s.file s.words
  have htell : s.tell.map Event.record = records s.file s.words reading.tokens reading.error? :=
    s.settings.map_record_tell s.file s.words
  have hwords : ∀ (i : Nat) (t : Token), reading.tokens[i]? = some t →
      ∃ w : Word, s.words[i]? = some w ∧ t.value.toList = w.text := by
    intro i t ht
    obtain ⟨w, kind, hw, -, rfl⟩ := Settings.getElem?_read ht
    exact ⟨w, hw, String.toList_ofList⟩
  have hle : reading.tokens.length ≤ s.words.length := by
    by_contra hlt
    obtain ⟨w, hw, -⟩ := hwords _ _ (List.getElem?_eq_getElem (Nat.not_le.1 hlt))
    rw [List.getElem?_eq_none (Nat.le_refl _)] at hw
    cases hw
  have hsublist : ∀ requests, (s.log requests).Sublist s.tell := by
    intro requests
    rw [log_eq_take hs]
    exact List.take_sublist _ _
  refine ⟨hwords, ?_, ?_, ?_, ?_, ?_, ?_⟩
  · intro before r
    rw [events_after hs, ← htell, List.getElem?_map]
    cases s.tell[before.length]? <;> rfl
  · intro requests
    rw [log_eq_take hs, List.map_take, htell]
  · intro before r e hfailed
    exact events_of_failed hfailed
  · intro before r hlen
    have hshort : s.tell.length ≤ before.length := by
      have hlength := congrArg List.length htell
      rw [List.length_map, length_records hle] at hlength
      split at hlength <;> omega
    rw [events_after hs, List.getElem?_eq_none hshort]
    rfl
  · intro requests
    exact Nat.le_trans ((hsublist requests).count_le _)
      (s.settings.count_ended_tell s.file s.words)
  · intro herror requests file hmem
    exact herror (s.settings.error?_of_ended_mem_tell s.file s.words
      ((hsublist requests).subset hmem))

end Session

/-- **The log mirrors the run.** A text that is refused is not told of. If a text is ASCII, starting
a session over it makes two records, of its comments and of its sanitized form. The words of the
form being `ws`, requests in any order come to some tokens and an error or the end, and the log
tells of just these: of each token, by the request that takes it, with the place of its word; and of
the end if there is no error, by the request that finds it and by no other. -/
theorem session_logs (settings : Settings) (file : String) (text : List Char) :
    let started := Session.start settings file text
    ((∃ c ∈ text, Text.isAscii c = false) →
      (∃ e, started.value = .error e) ∧ started.events = []) ∧
    ((∀ c ∈ text, Text.isAscii c = true) →
      ∃ (s : Session) (ws : List Word) (tokens : List Token) (error? : Option Error),
      started.value = .ok s ∧
      started.events = [.uncommented s.source.removed file,
        .sanitized file text.length s.source.text.length s.source.dropped] ∧
      (∀ w, w ∈ ws ↔ Text.IsWord 0 s.source.text w) ∧
      ws.Pairwise (fun v w => v.start + v.text.length < w.start) ∧
      s.file = file ∧ s.Yields tokens error? ∧ s.Logs ws tokens error?) := by
  intro started
  constructor
  · rintro ⟨c, hmem, hc⟩
    have hdrop : text.dropWhile Text.isAscii ≠ [] := by
      rw [ne_eq, List.dropWhile_eq_nil_iff]
      intro hall
      rw [hall c hmem] at hc
      cases hc
    obtain ⟨d, behind, hcons⟩ := List.exists_cons_of_ne_nil hdrop
    have hsanitize : sanitize file text =
        ⟨.error ⟨.nonAscii d, .ofByte file (text.takeWhile Text.isAscii).length⟩, []⟩ := by
      rw [sanitize, hcons]
    have hstarted : started = (sanitize file text).map (·.map (.ofSanitized settings file)) := rfl
    rw [hstarted, hsanitize]
    exact ⟨⟨_, rfl⟩, rfl⟩
  · intro h
    have hdrop : text.dropWhile Text.isAscii = [] := List.dropWhile_eq_nil_iff.2 h
    set s := Session.ofSanitized settings file (Sanitized.ofAscii text)
    refine ⟨s, s.words, _, _, start_of_ascii settings file h, ?_, ?_,
      (Text.wordsFrom_pairwise 0 _).2, rfl, Session.yields_read rfl, Session.logs_read rfl⟩
    · show (sanitize file text).events = _
      rw [sanitize, hdrop]
      rfl
    · intro w
      exact Text.mem_wordsFrom_iff (ascii_ofAscii h)

/-- A refused text, and a session that is asked beyond its end. -/
theorem session_logs_mixed :
    let refused := "if \u00e9".toList
    let text := "if /*\n*/ 12".toList
    let requests : List Request := [.item, .token, .item, .token, .item]
    (∃ c ∈ refused, Text.isAscii c = false) ∧ (Session.start {} "f" refused).events = [] ∧
      (∀ c ∈ text, Text.isAscii c = true) ∧ ∃ s, (Session.start {} "f" text).value = .ok s ∧
        (Session.start {} "f" text).events = [.uncommented 5 "f", .sanitized "f" 11 7 0] ∧
        (s.log requests).map Event.record = [(.trace, "Keyword (if) at 0"),
          (.trace, "Integer (12) at 4"), (.debug, "End of f reached")] := by
  intro refused text requests
  have hrefused : ∃ c ∈ refused, Text.isAscii c = false :=
    ⟨'\u00e9', List.mem_of_elem_eq_true rfl, rfl⟩
  have hascii : ∀ c ∈ text, Text.isAscii c = true := List.all_eq_true.1 rfl
  have hsource : Sanitized.ofAscii "if /*\n*/ 12".toList = ⟨"if  12\n".toList, 11, 5, 0⟩ := by cbv
  change Sanitized.ofAscii text = _ at hsource
  obtain ⟨-, hnone⟩ := (session_logs {} "f" refused).1 hrefused
  obtain ⟨s, ws, tokens, error?, hstart, hevents, hmem, hpair, -, hyields, hlogs⟩ :=
    (session_logs {} "f" text).2 hascii
  obtain ⟨-, rfl⟩ := start_eq_ok_iff.1 hstart
  rw [hsource] at hstart hevents hmem hyields hlogs
  obtain rfl := Text.eq_wordsFrom (List.all_eq_true.1 rfl) hmem hpair
  have hread : Settings.read {} "f" (Text.wordsFrom 0 "if  12\n".toList) =
      ⟨[⟨.keyword, "if", ⟨.ofByte "f" 0, .ofByte "f" 2⟩⟩,
        ⟨.integer, "12", ⟨.ofByte "f" 4, .ofByte "f" 6⟩⟩], none⟩ := rfl
  obtain ⟨rfl, rfl⟩ := hyields.unique (Session.yields_ofSanitized hread)
  exact ⟨hrefused, hnone, hascii, _, hstart, hevents, (hlogs.run requests).trans rfl⟩

end Lexis
