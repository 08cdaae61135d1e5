import Lexis.Proofs.Requests

/-!
# Sessions under a higher limit

A higher limit makes a difference from the first word on that is too long for the lower one. Before
it both limits give the same tokens; at its place the higher one gives more of it.

* `Settings.judge_of_le`: a word within both limits is judged alike.
* `Settings.read_raised`: **what comes of words under a higher limit**.
* `Settings.length_of_mem_read`: the length of a token.
* `session_yields_raised`: **raising the limit** of a session takes no token away and changes no
  end, no word without a kind.
-/

namespace Lexis

open Text (Word)

/-- **What comes under a higher limit of a word that was too long** and was cut to `lexeme`, behind
`tokens` and at a position: a token, a word without a kind, or a word that is still too long. -/
inductive Beyond (limit limit' : Nat) (lexeme : String) (position : Position)
    (tokens : List Token) : Reading → Prop
  | token {t : Token} {more : List Token} {error? : Option Error} :
      t.span.start = position → limit < t.value.length →
      Beyond limit limit' lexeme position tokens ⟨tokens ++ t :: more, error?⟩
  | unrecognized {word : String} : limit < word.length →
      Beyond limit limit' lexeme position tokens ⟨tokens, some ⟨.unrecognized word, position⟩⟩
  | tooLong {longer : String} : lexeme.toList <+: longer.toList →
      Beyond limit limit' lexeme position tokens ⟨tokens, some ⟨.tooLong longer limit', position⟩⟩

/-- **A reading and one under a higher limit** of the same words. -/
structure Reading.Raised (limit limit' : Nat) (r r' : Reading) : Prop where
  /-- No token is taken away. -/
  tokens : r.tokens <+: r'.tokens
  /-- The end stays, and so does a word without a kind. -/
  same : (∀ e ∈ r.error?, ∃ lexeme, e.fault = .unrecognized lexeme) → r' = r
  /-- The tokens before a word that was too long stay, and more is read of the word. -/
  beyond : ∀ lexeme n position, r.error? = some ⟨.tooLong lexeme n, position⟩ →
    n = limit ∧ Beyond limit limit' lexeme position r.tokens r'

variable {settings : Settings} {limit limit' : Nat} {file : String} {ws : List Word}
  {word : List Char} {t : Token} {r r' : Reading}

theorem Beyond.cons {lexeme : String} {position : Position} {tokens : List Token} (t : Token)
    (h : Beyond limit limit' lexeme position tokens r) :
    Beyond limit limit' lexeme position (t :: tokens) ⟨t :: r.tokens, r.error?⟩ := by
  cases h with
  | token hstart hlen => exact .token hstart hlen
  | unrecognized hlen => exact .unrecognized hlen
  | tooLong hprefix => exact .tooLong hprefix

/-- A token that comes first under both limits. -/
theorem Reading.Raised.cons (t : Token) (h : Raised limit limit' r r') :
    Raised limit limit' ⟨t :: r.tokens, r.error?⟩ ⟨t :: r'.tokens, r'.error?⟩ := by
  refine ⟨?_, ?_, ?_⟩
  · exact List.cons_prefix_cons.2 ⟨rfl, h.tokens⟩
  · intro hsame
    rw [h.same hsame]
  · intro lexeme n position herror
    obtain ⟨hn, hbeyond⟩ := h.beyond lexeme n position herror
    exact ⟨hn, hbeyond.cons t⟩

/-! ## One word -/

/-- **A word within the limit** is judged by its kind alone. -/
theorem Settings.judge_of_le (hlen : word.length ≤ settings.limit) :
    settings.judge word = match settings.table.classify word with
      | none => .error (.unrecognized (String.ofList word))
      | some kind => .ok kind := by
  have hlt : ¬ settings.limit < word.length := by omega
  unfold judge
  exact if_neg hlt

/-- A higher limit makes no difference to it. -/
theorem Settings.judge_raise_of_le (hle : settings.limit ≤ limit')
    (hlen : word.length ≤ settings.limit) :
    Settings.judge { settings with limit := limit' } word = settings.judge word := by
  have hlen' : word.length ≤ limit' := by omega
  rw [judge_of_le hlen]
  exact @judge_of_le { settings with limit := limit' } word hlen'

/-- A word beyond the limit is cut behind the limit. -/
theorem Settings.judge_of_lt (hlen : settings.limit < word.length) :
    settings.judge word =
      .error (.tooLong (String.ofList (word.take (settings.limit + 1))) settings.limit) := by
  unfold judge
  rw [if_pos hlen]

/-- **At a word that is too long** a higher limit gives more of the word. -/
theorem Settings.beyond_read (hle : settings.limit ≤ limit') (file : String) {w : Word}
    (ws : List Word) (hlen : settings.limit < w.text.length) :
    Beyond settings.limit limit' (String.ofList (w.text.take (settings.limit + 1)))
      (.ofByte file w.start) []
      (Settings.read { settings with limit := limit' } file (w :: ws)) := by
  rw [read]
  rcases Settings.judge_cases { settings with limit := limit' } w.text with
    ⟨-, hj⟩ | ⟨-, -, hj⟩ | ⟨kind, -, -, hj⟩
  · rw [hj]
    apply Beyond.tooLong
    rw [String.toList_ofList, String.toList_ofList]
    exact List.take_prefix_take_left (Nat.succ_le_succ hle)
  · rw [hj]
    apply Beyond.unrecognized
    rwa [String.length_ofList]
  · rw [hj]
    refine @Beyond.token _ _ _ _ [] (w.token file kind) _ _ rfl ?_
    rwa [Word.token, String.length_ofList]

/-! ## Word after word -/

/-- **What comes of words under a higher limit.** -/
theorem Settings.read_raised (hle : settings.limit ≤ limit') (file : String) (ws : List Word) :
    Reading.Raised settings.limit limit' (settings.read file ws)
      (Settings.read { settings with limit := limit' } file ws) := by
  induction ws with
  | nil =>
    refine ⟨List.prefix_refl _, fun _ => rfl, ?_⟩
    intro lexeme n position herror
    cases herror
  | cons w ws ih =>
    by_cases hlen : w.text.length ≤ settings.limit
    · -- up to here the limits make no difference
      rw [read, read, judge_raise_of_le hle hlen, judge_of_le hlen]
      cases settings.table.classify w.text with
      | none =>
        refine ⟨List.prefix_refl _, fun _ => rfl, ?_⟩
        intro lexeme n position herror
        cases herror
      | some kind => exact ih.cons (w.token file kind)
    · have hlt : settings.limit < w.text.length := by omega
      have hbeyond := beyond_read hle file ws hlt
      rw [read, judge_of_lt hlt]
      refine ⟨List.nil_prefix, ?_, ?_⟩
      · intro hsame
        obtain ⟨lexeme, hfault⟩ := hsame _ rfl
        cases hfault
      · intro lexeme n position herror
        cases herror
        exact ⟨rfl, hbeyond⟩

/-- **The length of a token** is not zero and within the limit. -/
theorem Settings.length_of_mem_read (hne : ∀ w ∈ ws, w.text ≠ [])
    (h : t ∈ (settings.read file ws).tokens) :
    1 ≤ t.value.length ∧ t.value.length ≤ settings.limit := by
  obtain ⟨w, hw, kind, hj, rfl⟩ := mem_read h
  obtain ⟨hlen, -⟩ := takes_iff_judge.2 ⟨kind, hj⟩
  have hpos := List.length_pos_iff.2 (hne w hw)
  rw [Word.token, String.length_ofList]
  omega

/-! ## Sessions -/

theorem Session.text_ne_nil (s : Session) : ∀ w ∈ s.words, w.text ≠ [] := by
  intro w hw
  have hmem := List.mem_map_of_mem (f := Word.text) hw
  unfold words at hmem
  rw [Text.map_text_wordsFrom] at hmem
  exact (Text.mem_words hmem).1

/-- **Raising the limit of a session.** A session over the same text with a higher limit gives at
least the tokens that it gives with the lower one. If it has come to the end or to a word without a
kind, it does so in the same place. If it has come to a word that is too long, it gives the same
tokens before it, and then a longer token, a longer word without a kind, or as much of the word as
before or more. The tokens of a session are as long as its limit at most, and none is empty. -/
theorem session_yields_raised (settings : Settings) {limit : Nat} (hle : settings.limit ≤ limit)
    (file : String) {text : List Char} (h : ∀ c ∈ text, Text.isAscii c = true) :
    ∃ s s' tokens tokens' error? error?',
      (Session.start settings file text).value = .ok s ∧
      (Session.start { settings with limit := limit } file text).value = .ok s' ∧
      s.Yields tokens error? ∧ s'.Yields tokens' error?' ∧
      Reading.Raised settings.limit limit ⟨tokens, error?⟩ ⟨tokens', error?'⟩ ∧
      (∀ t ∈ tokens, 1 ≤ t.value.length ∧ t.value.length ≤ settings.limit) ∧
      ∀ t ∈ tokens', 1 ≤ t.value.length ∧ t.value.length ≤ limit := by
  set s := Session.ofSanitized settings file (Sanitized.ofAscii text)
  set s' := Session.ofSanitized { settings with limit := limit } file (Sanitized.ofAscii text)
  refine ⟨s, s', _, _, _, _, start_of_ascii _ file h, start_of_ascii _ file h,
    Session.yields_read rfl, Session.yields_read rfl, ?_, ?_, ?_⟩
  · exact Settings.read_raised hle file s.words
  · intro t ht
    exact Settings.length_of_mem_read s.text_ne_nil ht
  · intro t ht
    exact Settings.length_of_mem_read s'.text_ne_nil ht

/-- With one character more it shows that the word has no kind. -/
theorem session_yields_raised_unrecognized :
    let text := "if/* */ <=>".toList
    let token : Token := ⟨.keyword, "if", ⟨.ofByte "f" 0, .ofByte "f" 2⟩⟩
    let error : Error := ⟨.tooLong "<=>" 2, .ofByte "f" 3⟩
    let error' : Error := ⟨.unrecognized "<=>", .ofByte "f" 3⟩
    (∀ c ∈ text, Text.isAscii c = true) ∧ 2 ≤ 3 ∧
      ∃ s s', (Session.start { limit := 2 } "f" text).value = .ok s ∧
        (Session.start { limit := 3 } "f" text).value = .ok s' ∧
        s.Yields [token] (some error) ∧ s'.Yields [token] (some error') ∧
        Reading.Raised 2 3 ⟨[token], some error⟩ ⟨[token], some error'⟩ := by
  intro text token error error'
  have hascii : ∀ c ∈ text, Text.isAscii c = true := List.all_eq_true.1 rfl
  have hle : 2 ≤ 3 := by decide
  have hsource : Sanitized.ofAscii "if/* */ <=>".toList = ⟨"if <=>\n".toList, 11, 5, 0⟩ := by cbv
  change Sanitized.ofAscii text = _ at hsource
  obtain ⟨s, s', tokens, tokens', error?, error?', hstart, hstart', hyields, hyields', hraised, -⟩ :=
    session_yields_raised { limit := 2 } hle "f" hascii
  obtain ⟨-, rfl⟩ := start_eq_ok_iff.1 hstart
  obtain ⟨-, rfl⟩ := start_eq_ok_iff.1 hstart'
  rw [hsource] at hstart hstart' hyields hyields'
  have hread : Settings.read { limit := 2 } "f" (Text.wordsFrom 0 "if <=>\n".toList) =
      ⟨[token], some error⟩ := rfl
  have hread' : Settings.read { limit := 3 } "f" (Text.wordsFrom 0 "if <=>\n".toList) =
      ⟨[token], some error'⟩ := rfl
  obtain ⟨rfl, rfl⟩ := hyields.unique (Session.yields_ofSanitized hread)
  obtain ⟨rfl, rfl⟩ := hyields'.unique (Session.yields_ofSanitized hread')
  exact ⟨hascii, hle, _, _, hstart, hstart', hyields, hyields', hraised⟩

end Lexis
