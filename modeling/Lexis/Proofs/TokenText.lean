import Lexis.Proofs.Invocations

/-!
# Tokens told apart by their texts

No name of a kind has a space in it, so the first space of a token's text stands behind its kind,
and what follows is its value in parentheses, whatever characters the value has. A word has no line
feed, so the lines of a listing are the texts of its tokens. And as all sessions have the same
table, a word is of the same kind in all of them.

* `Token.text_inj`: **a token's text** tells the token.
* `Token.beq_iff_text`, `beq_iff_map_text`: so equality of tokens is that of their texts.
* `Session.Returns.mem`: what a session returns is among the tokens that it comes to.
* `Session.Returns.classify`: **the kind of a token** is that of its value.
* `session_tells_apart`: **tokens are told apart** by their texts, by their values if they come from
  sessions, and lists of them by their listings.
-/

namespace Lexis

open Text (unlines)

/-! ## Texts of tokens -/

theorem Kind.name_injective : Function.Injective Kind.name := by
  intro a b h
  cases a <;> cases b <;> simp [name] at h ⊢

theorem Kind.space_not_mem_name (kind : Kind) : ' ' ∉ kind.name.toList := by
  cases kind <;> simp [name]

theorem Token.toList_text (t : Token) :
    t.text.toList = t.kind.name.toList ++ ' ' :: ('(' :: t.value.toList ++ [')']) := by
  show (t.kind.name ++ " (" ++ t.value ++ ")").toList = _
  simp [String.toList_append]

/-- What stands before the first space is the kind. -/
theorem Token.takeWhile_text (t : Token) :
    t.text.toList.takeWhile (· != ' ') = t.kind.name.toList := by
  have hname : ∀ c ∈ t.kind.name.toList, (c != ' ') = true := by
    intro c hc
    rw [bne_iff_ne]
    rintro rfl
    exact t.kind.space_not_mem_name hc
  rw [toList_text, List.takeWhile_append_of_pos hname, List.takeWhile_cons_of_neg (by simp),
    List.append_nil]

/-- **A token's text** tells the kind and the value. -/
theorem Token.text_inj {a b : Token} : a.text = b.text ↔ a.kind = b.kind ∧ a.value = b.value := by
  constructor
  · intro h
    have hkind : a.kind = b.kind := by
      have hname := b.takeWhile_text
      rw [← h, takeWhile_text] at hname
      exact Kind.name_injective (String.toList_inj.1 hname)
    have hchars : a.text.toList = b.text.toList := congrArg String.toList h
    rw [toList_text, toList_text, hkind] at hchars
    have hrest := List.cons.inj (List.append_cancel_left hchars)
    have hvalue := List.append_cancel_right (List.cons.inj hrest.2).2
    exact ⟨hkind, String.toList_inj.1 hvalue⟩
  · rintro ⟨hkind, hvalue⟩
    unfold text
    rw [hkind, hvalue]

theorem Token.beq_iff_text {a b : Token} : (a == b) = true ↔ a.text = b.text := by
  rw [beq_iff, text_inj]

theorem beq_iff_map_text {tokens tokens' : List Token} : (tokens == tokens') = true ↔
    tokens.map (·.text.toList) = tokens'.map (·.text.toList) := by
  induction tokens generalizing tokens' with
  | nil => cases tokens' <;> simp
  | cons t tokens ih =>
    cases tokens' with
    | nil => simp
    | cons t' tokens' =>
      rw [List.cons_beq_cons, Bool.and_eq_true, Token.beq_iff_text, ih, ← String.toList_inj,
        List.map_cons, List.map_cons, List.cons.injEq]

/-! ## Tokens of sessions -/

namespace Session

/-- A session over a text or over a file, with any limit. -/
def Started (s : Session) : Prop :=
  ∃ limit, (∃ file text, (start { limit := limit } file text).value = .ok s) ∨
    ∃ path contents, (ofFile { limit := limit } path contents).value = .ok s

/-- A token that a session returns to some request. -/
def Returns (s : Session) (t : Token) : Prop :=
  ∃ before r, ((s.after before).ask r).pull = .token t

variable {s : Session} {t : Token} {tokens : List Token} {error? : Option Error}

theorem Started.standard (h : s.Started) :
    s.status = .scanning ∧ s.settings.table = .standard := by
  obtain ⟨limit, ⟨file, text, h⟩ | ⟨path, contents, h⟩⟩ := h
  · obtain ⟨-, rfl⟩ := start_eq_ok_iff.1 h
    exact ⟨rfl, rfl⟩
  · obtain ⟨-, -, -, -, rfl⟩ := ofFile_eq_ok_iff.1 h
    exact ⟨rfl, rfl⟩

/-- **What is returned** is one of the tokens that the session comes to. -/
theorem Returns.mem (hreturns : s.Returns t) (h : s.Yields tokens error?) : t ∈ tokens := by
  obtain ⟨before, r, hpull⟩ := hreturns
  -- a request behind the last token is not answered with one, whatever its sort
  rcases Nat.lt_trichotomy before.length tokens.length with hlt | heq | hgt
  · have htoken := h.token before r _ (List.getElem?_eq_getElem hlt)
    obtain rfl := Pull.token.inj (hpull.symm.trans htoken)
    exact List.getElem_mem hlt
  · rw [h.last before r heq] at hpull
    cases error? <;> cases hpull
  · cases r with
    | token =>
      rw [h.again before hgt] at hpull
      cases error? <;> cases hpull
    | item =>
      rw [h.silent before hgt] at hpull
      cases hpull

/-- **The kind of a token** that is returned is the kind of its value. -/
theorem Returns.classify (hreturns : s.Returns t) (h : s.Started) :
    Table.standard.classify t.value.toList = some t.kind := by
  obtain ⟨hstatus, htable⟩ := h.standard
  obtain ⟨w, -, kind, hjudge, rfl⟩ := Settings.mem_read (hreturns.mem (yields_read hstatus))
  obtain ⟨-, hj⟩ | ⟨-, -, hj⟩ | ⟨kind', -, hkind, hj⟩ := s.settings.judge_cases w.text
  · cases hj.symm.trans hjudge
  · cases hj.symm.trans hjudge
  · obtain rfl := Except.ok.inj (hj.symm.trans hjudge)
    rw [htable] at hkind
    show Table.standard.classify (String.ofList w.text).toList = _
    rw [String.toList_ofList, hkind]
    rfl

/-- **The listing** of a session that comes to the end has a line for each token. -/
theorem isLines_list (h : s.status = .scanning) (htokens : s.drain.collected = .ok tokens) :
    s.list.error? = none ∧ s.list.written.toList = unlines (tokens.map (·.text.toList)) ∧
      ∀ line ∈ tokens.map (·.text.toList), '\n' ∉ line := by
  obtain ⟨hwritten, herror, -⟩ := @listFrom_eq_reading s "" 0 [] h
  rw [collected_drain h] at htokens
  obtain ⟨rfl, hnone⟩ := Reading.collected_eq_ok_iff.1 htokens
  refine ⟨herror.trans hnone, hwritten, ?_⟩
  intro line hline
  obtain ⟨t, ht, rfl⟩ := List.mem_map.1 hline
  exact lineFeed_not_mem_text ht

end Session

/-- **Tokens are told apart** by their texts, be they those of sessions or not. Those that sessions
return, over whatever texts and with whatever limits, are told apart by their values. And two
sessions that both come to the end have the same listing exactly if they have the same tokens. -/
theorem session_tells_apart :
    (∀ a b : Token, (a == b) = true ↔ a.text = b.text) ∧
    ∀ s s' : Session, s.Started → s'.Started →
      (∀ t t', s.Returns t → s'.Returns t' → ((t == t') = true ↔ t.value = t'.value)) ∧
      ∀ tokens tokens', s.drain.collected = .ok tokens → s'.drain.collected = .ok tokens' →
        s.list.written.toList = unlines (tokens.map (·.text.toList)) ∧
        s'.list.written.toList = unlines (tokens'.map (·.text.toList)) ∧
        (s.list.written = s'.list.written ↔ (tokens == tokens') = true) := by
  refine ⟨fun a b => Token.beq_iff_text, ?_⟩
  intro s s' hs hs'
  refine ⟨?_, ?_⟩
  · intro t t' ht ht'
    rw [Token.beq_iff]
    refine and_iff_right_of_imp ?_
    intro hvalue
    have hkind := ht.classify hs
    rw [hvalue, ht'.classify hs'] at hkind
    exact (Option.some.inj hkind).symm
  · intro tokens tokens' htokens htokens'
    obtain ⟨-, hwritten, hlines⟩ := Session.isLines_list hs.standard.1 htokens
    obtain ⟨-, hwritten', hlines'⟩ := Session.isLines_list hs'.standard.1 htokens'
    refine ⟨hwritten, hwritten', ?_⟩
    rw [beq_iff_map_text, ← String.toList_inj, hwritten, hwritten', Text.unlines_inj hlines hlines']

/-- The same word in two places of two texts, read with different limits. -/
theorem session_tells_apart_moved :
    let s : Session := .ofSanitized {} "f" ⟨"if\n".toList, 2, 0, 0⟩
    let s' : Session := .ofSanitized { limit := 2 } "g" ⟨" if\n".toList, 3, 0, 0⟩
    let t : Token := ⟨.keyword, "if", ⟨.ofByte "f" 0, .ofByte "f" 2⟩⟩
    let t' : Token := ⟨.keyword, "if", ⟨.ofByte "g" 1, .ofByte "g" 3⟩⟩
    s.Started ∧ s'.Started ∧ s.Returns t ∧ s'.Returns t' ∧ (t == t') = true ∧
      s.drain.collected = .ok [t] ∧ s'.drain.collected = .ok [t'] ∧
      s.list.written = s'.list.written := by
  intro s s' t t'
  have hascii : ∀ c ∈ "if".toList, Text.isAscii c = true := List.all_eq_true.1 rfl
  have hascii' : ∀ c ∈ " if".toList, Text.isAscii c = true := List.all_eq_true.1 rfl
  have hsource : Sanitized.ofAscii "if".toList = ⟨"if\n".toList, 2, 0, 0⟩ := by cbv
  have hsource' : Sanitized.ofAscii " if".toList = ⟨" if\n".toList, 3, 0, 0⟩ := by cbv
  have hstart := start_of_ascii {} "f" hascii
  have hstart' := start_of_ascii { limit := 2 } "g" hascii'
  rw [hsource] at hstart
  rw [hsource'] at hstart'
  have hs : s.Started := ⟨50, .inl ⟨_, _, hstart⟩⟩
  have hs' : s'.Started := ⟨2, .inl ⟨_, _, hstart'⟩⟩
  have hyields : s.Yields [t] none := Session.yields_ofSanitized rfl
  have hyields' : s'.Yields [t'] none := Session.yields_ofSanitized rfl
  have hreturns : s.Returns t := ⟨[], .token, hyields.token _ _ _ rfl⟩
  have hreturns' : s'.Returns t' := ⟨[], .item, hyields'.token _ _ _ rfl⟩
  have hcollected : s.drain.collected = .ok [t] := Session.collected_drain rfl
  have hcollected' : s'.drain.collected = .ok [t'] := Session.collected_drain rfl
  obtain ⟨-, hsessions⟩ := session_tells_apart
  obtain ⟨hvalues, hlists⟩ := hsessions s s' hs hs'
  have hsame : (t == t') = true := (hvalues t t' hreturns hreturns').2 rfl
  obtain ⟨-, -, hlisting⟩ := hlists [t] [t'] hcollected hcollected'
  exact ⟨hs, hs', hreturns, hreturns', hsame, hcollected, hcollected', hlisting.2 rfl⟩

end Lexis
