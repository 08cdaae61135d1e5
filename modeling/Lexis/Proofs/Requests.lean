import Lexis.Proofs.Reading

/-!
# Requests in any order

A session is asked for its next token or for its next item. Both go on from the same place; they
differ in what they answer once an error has been met.

* `next_cases`: **all that a request can do** to a session that still reads.
* `yields_read`: **what requests come to**, in whatever order the two sorts of them are mixed.
* `tokenize_eq_ok_iff`: collecting tokens is asking for token after token.
* `session_yields`: so it is for each session that is started, and the tokens of a text are those
  that its session gives when it is asked for token after token.
-/

namespace Lexis

open Text (Word)

/-- The two sorts of requests: for the next token and for the next item. -/
inductive Request where
  | token
  | item
deriving DecidableEq, Repr

/-- The token of an answer, if it is one. -/
def Pull.token? : Pull → Option Token
  | token t => some t
  | finished | failed _ => none

/-- The answer behind the last token: the error that stands there, or the end. -/
def Pull.ofError? : Option Error → Pull
  | none => finished
  | some error => failed error

/-- The status behind the last token. -/
def Status.ofError? : Option Error → Status
  | none => exhausted
  | some error => failed error

namespace Session

/-- The step that a request takes. -/
def ask (s : Session) : Request → Step
  | .token => s.next
  | .item => s.nextItem

/-- The session behind some requests. -/
def after (s : Session) : List Request → Session
  | [] => s
  | r :: requests => (s.ask r).session.after requests

/-- The answers to some requests. -/
def replies (s : Session) : List Request → List Pull
  | [] => []
  | r :: requests => (s.ask r).pull :: (s.ask r).session.replies requests

/-- **What requests to a session come to**, whatever their sorts: tokens, and then an error or the
end. -/
structure Yields (s : Session) (tokens : List Token) (error? : Option Error) : Prop where
  /-- Each request takes the token that is next. -/
  token : ∀ before r t, tokens[before.length]? = some t → ((s.after before).ask r).pull = .token t
  /-- The first request behind the last token meets the error or the end. -/
  last : ∀ before r, before.length = tokens.length →
    ((s.after before).ask r).pull = .ofError? error?
  /-- From then on there is the same answer to requests for a token. -/
  again : ∀ before, tokens.length < before.length →
    ((s.after before).ask .token).pull = .ofError? error?
  /-- And there are no more items. -/
  silent : ∀ before, tokens.length < before.length → ((s.after before).ask .item).pull = .finished
  /-- The session stays as it is. -/
  still : ∀ before more, tokens.length < before.length → s.after (before ++ more) = s.after before
  /-- So the tokens among the answers are these in their order, as far as the requests go. -/
  taken : ∀ requests, (s.replies requests).filterMap Pull.token? = tokens.take requests.length

/-- **Token after token**: requests for tokens are answered with these and then with `last`. -/
def Loops (s : Session) (tokens : List Token) (last : Pull) : Prop :=
  (∀ i t, tokens[i]? = some t → s.answer i = .token t) ∧ s.answer tokens.length = last

variable {s : Session} {w : Word} {ws : List Word} {error? : Option Error}

/-! ## One request -/

/-- **All that a request can do** to a session that still reads: it finds the end, if there are no
words; it fails on the first word, of which it reads a part; or it takes it. -/
theorem next_cases (hs : s.status = .scanning) :
    (s.words = [] ∧ s.next = s.skipBlanks.finish) ∨
    (∃ w ws fault n, s.words = w :: ws ∧ s.settings.judge w.text = .error fault ∧ 0 < n ∧
      n ≤ w.text.length ∧ s.next = s.skipBlanks.fail n fault) ∨
    ∃ w ws kind, s.words = w :: ws ∧ s.settings.judge w.text = .ok kind ∧
      s.next = s.skipBlanks.accept kind := by
  cases hws : s.words with
  | nil => exact .inl ⟨rfl, next_finished hs hws⟩
  | cons w ws =>
    right
    cases hj : s.settings.judge w.text with
    | error fault =>
      obtain ⟨n, hpos, hle, hnext⟩ := next_of_judge_error hs hws hj
      exact .inl ⟨w, ws, fault, n, rfl, hj, hpos, hle, hnext⟩
    | ok kind => exact .inr ⟨w, ws, kind, rfl, hj, next_of_judge_ok hs hws hj⟩

theorem ask_of_scanning (hs : s.status = .scanning) (r : Request) : s.ask r = s.next := by
  cases r with
  | token => rfl
  | item => exact nextItem_of_scanning hs

/-- A session that has ended repeats how it has ended to requests for a token. -/
theorem next_of_ended (h : s.status = .ofError? error?) :
    s.next = ⟨.ofError? error?, s, []⟩ := by
  cases error? with
  | none => rw [next, h]; rfl
  | some e => rw [next, h]; rfl

/-- A session that has ended has no more items. -/
theorem nextItem_of_ended (h : s.status = .ofError? error?) :
    s.nextItem = ⟨.finished, s, []⟩ := by
  cases error? with
  | none => rw [nextItem, h, next_of_ended h]; rfl
  | some e => rw [nextItem, h]; rfl

theorem after_of_ended (h : s.status = .ofError? error?) (requests : List Request) :
    s.after requests = s := by
  induction requests with
  | nil => rfl
  | cons r requests ih =>
    have hsession : (s.ask r).session = s := by
      cases r with
      | token => rw [ask, next_of_ended h]
      | item => rw [ask, nextItem_of_ended h]
    rw [after, hsession, ih]

theorem replies_of_ended (h : s.status = .ofError? error?) (requests : List Request) :
    (s.replies requests).filterMap Pull.token? = [] := by
  induction requests with
  | nil => rfl
  | cons r requests ih =>
    have hask : (s.ask r).session = s ∧ (s.ask r).pull.token? = none := by
      cases r with
      | token =>
        rw [ask, next_of_ended h]
        cases error? <;> exact ⟨rfl, rfl⟩
      | item =>
        rw [ask, nextItem_of_ended h]
        exact ⟨rfl, rfl⟩
    rw [replies, List.filterMap_cons_none hask.2, hask.1, ih]

/-! ## Request after request -/

theorem after_append (s : Session) (before more : List Request) :
    s.after (before ++ more) = (s.after before).after more := by
  induction before generalizing s with
  | nil => rfl
  | cons r before ih => rw [List.cons_append, after, after, ih]

/-- A request to a session that still reads, and those that follow it. -/
theorem after_cons (hs : s.status = .scanning) (r : Request) (requests : List Request) :
    s.after (r :: requests) = s.next.session.after requests := by
  rw [after, ask_of_scanning hs]

/-- **No token is left** if the next request ends the session. -/
theorem yields_nil (hs : s.status = .scanning) (hpull : s.next.pull = .ofError? error?)
    (hended : s.next.session.status = .ofError? error?) : s.Yields [] error? := by
  have hafter : ∀ before : List Request, 0 < before.length → s.after before = s.next.session := by
    intro before hpos
    cases before with
    | nil => exact absurd hpos (Nat.lt_irrefl 0)
    | cons r before => rw [after_cons hs, after_of_ended hended]
  refine ⟨?_, ?_, ?_, ?_, ?_, ?_⟩
  · intro before r t ht
    cases ht
  · intro before r hlen
    obtain rfl := List.eq_nil_of_length_eq_zero hlen
    rw [after, ask_of_scanning hs, hpull]
  · intro before hlen
    rw [hafter before hlen, ask, next_of_ended hended]
  · intro before hlen
    rw [hafter before hlen, ask, nextItem_of_ended hended]
  · intro before more hlen
    rw [after_append, hafter before hlen, after_of_ended hended]
  · intro requests
    rw [List.take_nil]
    cases requests with
    | nil => rfl
    | cons r requests =>
      have hnone : s.next.pull.token? = none := by
        rw [hpull]
        cases error? <;> rfl
      rw [replies, ask_of_scanning hs, List.filterMap_cons_none hnone, replies_of_ended hended]

/-- **A token comes first** if the next request takes it. -/
theorem yields_cons {t : Token} {tokens : List Token} (hs : s.status = .scanning)
    (hpull : s.next.pull = .token t) (h : s.next.session.Yields tokens error?) :
    s.Yields (t :: tokens) error? := by
  refine ⟨?_, ?_, ?_, ?_, ?_, ?_⟩
  · intro before r t' ht
    cases before with
    | nil =>
      have heq : t = t' := Option.some.inj ht
      rw [after, ask_of_scanning hs, hpull, heq]
    | cons r' before =>
      rw [after_cons hs]
      exact h.token before r t' ht
  · intro before r hlen
    cases before with
    | nil => cases hlen
    | cons r' before =>
      rw [after_cons hs]
      exact h.last before r (Nat.succ.inj hlen)
  · intro before hlen
    cases before with
    | nil => cases hlen
    | cons r' before =>
      rw [after_cons hs]
      exact h.again before (Nat.lt_of_succ_lt_succ hlen)
  · intro before hlen
    cases before with
    | nil => cases hlen
    | cons r' before =>
      rw [after_cons hs]
      exact h.silent before (Nat.lt_of_succ_lt_succ hlen)
  · intro before more hlen
    cases before with
    | nil => cases hlen
    | cons r' before =>
      rw [List.cons_append, after_cons hs, after_cons hs]
      exact h.still before more (Nat.lt_of_succ_lt_succ hlen)
  · intro requests
    cases requests with
    | nil => rfl
    | cons r requests =>
      have hsome : s.next.pull.token? = some t := by rw [hpull]; rfl
      rw [replies, ask_of_scanning hs, List.filterMap_cons_some hsome, h.taken requests,
        List.length_cons, List.take_succ_cons]

/-- **Requests come to what is told by the words** that are left, whatever their sorts. -/
theorem yields_read (hs : s.status = .scanning) :
    s.Yields (s.settings.read s.file s.words).tokens (s.settings.read s.file s.words).error? := by
  induction hws : s.words generalizing s with
  | nil =>
    have hnext := next_finished hs hws
    exact yields_nil hs (by rw [hnext]; rfl) (by rw [hnext]; rfl)
  | cons w ws ih =>
    obtain ⟨herror, hok⟩ := pull_of_judge hs hws
    rw [Settings.read]
    cases hj : s.settings.judge w.text with
    | error fault =>
      obtain ⟨-, -, hpos, -⟩ := skipBlanks_of_words hws
      obtain ⟨n, -, -, hnext⟩ := next_of_judge_error hs hws hj
      have hended : s.next.session.status = .failed ⟨fault, .ofByte s.file w.start⟩ := by
        rw [hnext, ← hpos]
        rfl
      exact yields_nil hs (herror fault hj) hended
    | ok kind =>
      obtain ⟨hpull, htakes⟩ := hok kind hj
      obtain ⟨hstatus, hrest, hsettings, hfile⟩ := session_next_token hs hws htakes
      have hyields := ih hstatus hrest
      rw [hsettings, hfile] at hyields
      exact yields_cons hs hpull hyields

/-- So a session that is not asked yet comes to what is told by all the words of its text. -/
theorem yields_ofSanitized {settings : Settings} {file : String} {source : Sanitized}
    {tokens : List Token}
    (h : settings.read file (Text.wordsFrom 0 source.text) = ⟨tokens, error?⟩) :
    (ofSanitized settings file source).Yields tokens error? := by
  have hyields := @yields_read (ofSanitized settings file source) rfl
  change (ofSanitized settings file source).Yields
    (settings.read file (Text.wordsFrom 0 source.text)).tokens
    (settings.read file (Text.wordsFrom 0 source.text)).error? at hyields
  rwa [h] at hyields

/-! ## Token after token -/

theorem answer_eq (s : Session) (n : Nat) :
    s.answer n = ((s.after (List.replicate n .token)).ask .token).pull := by
  induction n generalizing s with
  | zero => rfl
  | succ n ih => rw [answer, List.replicate_succ, after, ih]; rfl

/-- Requests for tokens alone are requests. -/
theorem Yields.loops {tokens : List Token} (h : s.Yields tokens error?) :
    s.Loops tokens (.ofError? error?) := by
  constructor
  · intro i t ht
    rw [answer_eq]
    exact h.token _ .token t (by rwa [List.length_replicate])
  · rw [answer_eq]
    exact h.last _ .token List.length_replicate

/-- **Token after token comes to one thing only.** -/
theorem Loops.unique {tokens tokens' : List Token} {last last' : Pull} (h : s.Loops tokens last)
    (h' : s.Loops tokens' last') (hlast : last.token? = none) (hlast' : last'.token? = none) :
    tokens = tokens' ∧ last = last' := by
  -- the shorter list is followed by no token
  have hle : ∀ {tokens tokens' : List Token} {last last' : Pull}, s.Loops tokens last →
      s.Loops tokens' last' → last.token? = none → tokens'.length ≤ tokens.length := by
    intro tokens tokens' last last' h h' hlast
    by_contra hlt
    rw [Nat.not_le] at hlt
    have htoken := h'.1 tokens.length _ (List.getElem?_eq_getElem hlt)
    rw [h.2] at htoken
    rw [htoken] at hlast
    cases hlast
  have hlen : tokens.length = tokens'.length := Nat.le_antisymm (hle h' h hlast') (hle h h' hlast)
  refine ⟨?_, ?_⟩
  · apply List.ext_getElem hlen
    intro i hi hi'
    have htoken := h.1 i _ (List.getElem?_eq_getElem hi)
    rw [h'.1 i _ (List.getElem?_eq_getElem hi')] at htoken
    exact (Pull.token.inj htoken).symm
  · rw [← h.2, ← h'.2, hlen]

end Session

theorem Pull.token?_ofError? (error? : Option Error) : (Pull.ofError? error?).token? = none := by
  cases error? <;> rfl

theorem Pull.ofError?_injective : Function.Injective Pull.ofError? := by
  intro a b h
  cases a with
  | none =>
    cases b with
    | none => rfl
    | some e => cases h
  | some e =>
    cases b with
    | none => cases h
    | some e' => rw [Pull.failed.inj h]

/-- **Requests come to one thing only.** -/
theorem Session.Yields.unique {s : Session} {tokens tokens' : List Token}
    {error? error?' : Option Error} (h : s.Yields tokens error?) (h' : s.Yields tokens' error?') :
    tokens = tokens' ∧ error? = error?' := by
  obtain ⟨htokens, hlast⟩ :=
    h.loops.unique h'.loops (Pull.token?_ofError? error?) (Pull.token?_ofError? error?')
  exact ⟨htokens, Pull.ofError?_injective hlast⟩

/-- **Collecting tokens** is asking for token after token, as long as none fails. -/
theorem tokenize_eq_ok_iff {settings : Settings} {file : String} {text : List Char} {s : Session}
    {tokens : List Token} (h : (Session.start settings file text).value = .ok s) :
    (tokenize settings file text).value = .ok tokens ↔ s.Loops tokens .finished := by
  obtain ⟨hstatus, hsettings, hfile⟩ := scanning_of_start h
  have hloops := (Session.yields_read hstatus).loops
  rw [hsettings, hfile] at hloops
  rw [tokenize_of_start h, Reading.collected_eq_ok_iff]
  constructor
  · rintro ⟨rfl, hnone⟩
    rw [hnone] at hloops
    exact hloops
  · intro hfinished
    obtain ⟨htokens, hend⟩ := hloops.unique hfinished (Pull.token?_ofError? _) rfl
    exact ⟨htokens, @Pull.ofError?_injective _ none hend⟩

/-- **The two sorts of requests agree.** For each session that is started there are tokens and, if
it fails, an error, to which all requests come, and so those for token after token. The tokens of
its text are these tokens, if it does not fail, and else this error. -/
theorem session_yields {settings : Settings} {file : String} {text : List Char} {s : Session}
    (h : (Session.start settings file text).value = .ok s) :
    ∃ tokens error?, s.Yields tokens error? ∧ s.Loops tokens (.ofError? error?) ∧
      (∀ tokens', (tokenize settings file text).value = .ok tokens' ↔ s.Loops tokens' .finished) ∧
      ∀ error, (tokenize settings file text).value = .error error ↔
        ∃ tokens', s.Loops tokens' (.failed error) := by
  obtain ⟨hstatus, hsettings, hfile⟩ := scanning_of_start h
  have hyields := Session.yields_read hstatus
  rw [hsettings, hfile] at hyields
  have hloops := hyields.loops
  refine ⟨_, _, hyields, hloops, fun tokens => tokenize_eq_ok_iff h, ?_⟩
  intro error
  rw [tokenize_of_start h, Reading.collected_eq_error_iff]
  constructor
  · intro herror
    rw [herror] at hloops
    exact ⟨_, hloops⟩
  · rintro ⟨tokens, hfailed⟩
    obtain ⟨-, hend⟩ := hloops.unique hfailed (Pull.token?_ofError? _) rfl
    exact @Pull.ofError?_injective _ (some error) hend

/-- A request for an item meets the error. From then on it is told to requests for a token only. -/
theorem session_yields_failure :
    let text := "if ? x".toList
    let error : Error := ⟨.unrecognized "?", .ofByte "f" 3⟩
    ∃ s, (Session.start {} "f" text).value = .ok s ∧
      ((s.after [.item]).ask .item).pull = .failed error ∧
      ((s.after [.item, .item, .item]).ask .token).pull = .failed error ∧
      ((s.after [.item, .item, .token]).ask .item).pull = .finished ∧
      (tokenize {} "f" text).value = .error error := by
  intro text error
  have hascii : ∀ c ∈ "if ? x".toList, Text.isAscii c = true := List.all_eq_true.1 rfl
  have hsource : Sanitized.ofAscii "if ? x".toList = ⟨"if ? x\n".toList, 6, 0, 0⟩ := by cbv
  have hstart := start_of_ascii {} "f" hascii
  rw [hsource] at hstart
  obtain ⟨tokens, error?, hyields, hloops, -, herror⟩ := session_yields hstart
  set s := Session.ofSanitized {} "f" ⟨"if ? x\n".toList, 6, 0, 0⟩
  have hread : Settings.read {} "f" (Text.wordsFrom 0 "if ? x\n".toList) =
      ⟨[⟨.keyword, "if", ⟨.ofByte "f" 0, .ofByte "f" 2⟩⟩], some error⟩ := rfl
  obtain ⟨rfl, rfl⟩ := hyields.unique (Session.yields_ofSanitized hread)
  exact ⟨s, hstart, hyields.last [.item] .item rfl, hyields.again [.item, .item, .item] (by decide),
    hyields.silent [.item, .item, .token] (by decide), (herror error).2 ⟨_, hloops⟩⟩

end Lexis
