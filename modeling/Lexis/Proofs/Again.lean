import Lexis.Proofs.Excerpts
import Lexis.Proofs.Reading

/-!
# Sanitizing what is sanitized

A text in normal form has nothing to be taken out but the carriage returns that stand directly
before a line feed. They separate no words and are not shown, so that a session over the text and
one over what is made of it cannot be told apart by what they read and report.

* `ofAscii_of_isNormal`: **the sanitized form of a text in normal form**.
* `readAlike_of_forall₂`: sessions whose words are shown alike read alike.
* `sanitize_again`: **sanitizing again** removes a return before each line feed and nothing else.
-/

namespace Lexis

open Comment (Style uncommented)
open Text (IsLines unlines withoutReturn dropReturns words Word wordsFrom)

variable {text : List Char}

/-! ## Texts in normal form -/

theorem IsNormal.uncommented_eq (h : IsNormal text) : uncommented text = text := by
  refine Comment.uncommented_of_not_occurs ?_
  intro style
  cases style with
  | line => exact h.line
  | block => exact h.block

/-- Each line has a word also without the line feed that ends it. -/
theorem IsNormal.not_isBlankLine {terminated : List (List Char)} {last line : List Char}
    (h : IsNormal text) (hlines : IsLines text terminated last) (hline : line ∈ terminated) :
    isBlankLine line = false := by
  have hmem : line ++ ['\n'] ∈ Text.lines text := by
    rw [Text.lines_of_isLines hlines]
    exact List.mem_append_left _ (List.mem_map_of_mem hline)
  obtain ⟨c, hc, hblank⟩ := h.lines _ hmem
  by_contra hb
  rw [Bool.not_eq_false, isBlankLine_iff] at hb
  rcases List.mem_append.1 hc with hc | hc
  · have := hb c hc
    rw [hblank] at this
    cases this
  · rw [List.mem_singleton.1 hc] at hblank
    cases hblank

/-- **Compacting a text in normal form** drops returns and nothing else. -/
theorem IsNormal.compact_eq (h : IsNormal text) : compact text = dropReturns text := by
  obtain ⟨terminated, last, hlines⟩ := Text.exists_isLines text
  have hlast : last = [] := hlines.last_eq_nil h.ended
  have hjoin : text = unlines terminated := by
    have := hlines.join
    rwa [hlast, List.append_nil] at this
  -- a line is kept for its word, which the return is no part of
  have hall : ∀ line ∈ terminated.map withoutReturn, (!isBlankLine line) = true := by
    intro line hline
    obtain ⟨full, hfull, rfl⟩ := List.mem_map.1 hline
    rw [isBlankLine_withoutReturn, h.not_isBlankLine hlines hfull]
    rfl
  have hkept : keptLines text = terminated.map withoutReturn := by
    rw [keptLines_of_isLines hlines, hlast, List.filter_append, List.filter_eq_self.2 hall]
    exact List.append_nil _
  rw [compact, hkept, hjoin, Text.dropReturns_unlines hlines.terminated]

/-- **The sanitized form of a text in normal form**: no comment is removed and no line dropped. -/
theorem ofAscii_of_isNormal (h : IsNormal text) :
    Sanitized.ofAscii text = ⟨dropReturns text, text.length, 0, 0⟩ := by
  have hcode := h.uncommented_eq
  have htext : (Sanitized.ofAscii text).text = dropReturns text := by
    rw [ofAscii_text, hcode, h.compact_eq]
  have hremoved : (Sanitized.ofAscii text).removed = 0 := by
    show text.length - (uncommented text).length = 0
    rw [hcode, Nat.sub_self]
  have hdropped : (Sanitized.ofAscii text).dropped = 0 := by
    show (Text.lines (uncommented text)).countP isBlankLine = 0
    rw [hcode, List.countP_eq_zero]
    intro line hline hb
    obtain ⟨c, hc, hblank⟩ := h.lines line hline
    rw [isBlankLine_iff.1 hb c hc] at hblank
    cases hblank
  have heta : Sanitized.ofAscii text = ⟨(Sanitized.ofAscii text).text, text.length,
      (Sanitized.ofAscii text).removed, (Sanitized.ofAscii text).dropped⟩ := rfl
  rw [heta, htext, hremoved, hdropped]

/-! ## Sessions that read alike -/

/-- **Sessions that read alike**: equal tokens, and then the end in both or the same fault in both,
shown in the same way, or not at all in both, if their texts are not too long for positions. -/
structure Session.ReadAlike (a b : Session) : Prop where
  tokens : (a.drain.tokens == b.drain.tokens) = true
  error : Option.Rel
    (fun e e' => e.fault = e'.fault ∧
      (a.source.text.length < UInt32.size → b.source.text.length < UInt32.size →
        (Report.ofError e a.source.text).text? = (Report.ofError e' b.source.text).text?))
    a.drain.error? b.drain.error?

theorem offset_ofByte {file : String} {byte : Nat} (h : byte < UInt32.size) :
    (Position.ofByte file byte).offset.toNat = byte :=
  UInt32.toNat_ofNat_of_lt' h

/-- **Sessions read alike** if their words are shown alike. -/
theorem readAlike_of_forall₂ {a b : Session} (ha : a.status = .scanning) (hb : b.status = .scanning)
    (hsettings : a.settings = b.settings) (hfile : a.file = b.file)
    (hascii : ∀ c ∈ a.source.text, Text.isAscii c = true)
    (hascii' : ∀ c ∈ b.source.text, Text.isAscii c = true)
    (hwords : List.Forall₂ (ShownAlike 1 a.source.text b.source.text) a.words b.words) :
    a.ReadAlike b := by
  obtain ⟨htokens, herror⟩ :=
    a.settings.read_of_forall₂ a.file a.file (fun _ _ h => ShownAlike.same h) hwords
  obtain ⟨hatokens, haerror⟩ := Session.drain_eq_read ha
  obtain ⟨hbtokens, hberror⟩ := Session.drain_eq_read hb
  rw [← hsettings, ← hfile] at hbtokens hberror
  rw [← hatokens, ← hbtokens] at htokens
  rw [← haerror, ← hberror] at herror
  refine ⟨htokens, ?_⟩
  generalize a.drain.error? = error? at herror ⊢
  generalize b.drain.error? = error'? at herror ⊢
  cases herror with
  | none => exact .none
  | some h =>
    obtain ⟨hfault, w, w', hw, hpos, hpos'⟩ := h
    refine .some ⟨hfault, ?_⟩
    intro hlen hlen'
    -- the offsets do not wrap, for both words start inside their texts
    have hleft := hw.left
    have hright := hw.right
    rw [Text.byteLength_of_ascii hascii] at hleft
    rw [Text.byteLength_of_ascii hascii'] at hright
    rw [report_eq hfault (by rw [hpos, hpos']; rfl)]
    rw [hpos, hpos', offset_ofByte (by omega), offset_ofByte (by omega)]
    exact hw.excerpt

/-! ## Sanitizing again -/

/-- **Sanitizing again** removes a return before each line feed that has one, and nothing else: no
comment, no line and no word. So it changes a sanitized text exactly if a return stands before a
line feed there; and a session over the text reads like one over its sanitized form. -/
theorem sanitize_again (file : String) {text : List Char}
    (h : ∀ c ∈ text, Text.isAscii c = true) :
    ∃ s s', (sanitize file text).value = .ok s ∧ (sanitize file s.text).value = .ok s' ∧
      s'.text = dropReturns s.text ∧ (s'.text = s.text ↔ ¬ ['\r', '\n'] <:+: s.text) ∧
      uncommented s.text = s.text ∧ s'.removed = 0 ∧ s'.dropped = 0 ∧
      words s'.text = words s.text ∧
      ∀ settings, ∃ a b, (Session.start settings file text).value = .ok a ∧
        (Session.start settings file s.text).value = .ok b ∧ a.source = s ∧ b.source = s' ∧
        a.ReadAlike b := by
  have hascii := ascii_ofAscii h
  have hnormal := isNormal_ofAscii text
  have hagain := ofAscii_of_isNormal hnormal
  set s := Sanitized.ofAscii text
  refine ⟨s, _, sanitize_of_ascii file h, sanitize_of_ascii file hascii, ?_⟩
  rw [hagain]
  refine ⟨rfl, Text.dropReturns_eq_self_iff, hnormal.uncommented_eq, rfl, rfl, ?_, ?_⟩
  · rw [← hnormal.compact_eq, words_compact]
  · intro settings
    have hascii' := ascii_ofAscii hascii
    refine ⟨_, _, start_of_ascii settings file h, start_of_ascii settings file hascii, rfl, hagain,
      ?_⟩
    refine readAlike_of_forall₂ rfl rfl rfl rfl hascii hascii' ?_
    show List.Forall₂ (ShownAlike 1 s.text (Sanitized.ofAscii s.text).text) (wordsFrom 0 s.text)
      (wordsFrom 0 (Sanitized.ofAscii s.text).text)
    rw [hagain]
    exact shownAlike_dropReturns hascii

/-- Of two returns before a line feed each pass takes one; and a return that ends the text stands
before a line feed only after the first pass. -/
theorem sanitize_again_returns :
    ((∀ c ∈ "a\r\r\n".toList, Text.isAscii c = true) ∧
      ∃ s s', (sanitize "f" "a\r\r\n".toList).value = .ok s ∧
        (sanitize "f" s.text).value = .ok s' ∧ s.text = "a\r\n".toList ∧ s'.text = "a\n".toList) ∧
    ((∀ c ∈ "a\r".toList, Text.isAscii c = true) ∧
      ∃ s s', (sanitize "f" "a\r".toList).value = .ok s ∧
        (sanitize "f" s.text).value = .ok s' ∧ s.text = "a\r\n".toList ∧
          s'.text = "a\n".toList) := by
  have hboth : ∀ c ∈ "a\r\r\n".toList, Text.isAscii c = true := List.all_eq_true.1 rfl
  have hlast : ∀ c ∈ "a\r".toList, Text.isAscii c = true := List.all_eq_true.1 rfl
  refine ⟨⟨hboth, ?_⟩, ⟨hlast, ?_⟩⟩
  · obtain ⟨s, s', hs, hs', hdrop, -⟩ := sanitize_again "f" hboth
    obtain rfl := Except.ok.inj (hs.symm.trans (sanitize_of_ascii "f" hboth))
    have htext : (Sanitized.ofAscii "a\r\r\n".toList).text = "a\r\n".toList := by cbv
    refine ⟨_, s', hs, hs', htext, ?_⟩
    rw [hdrop, htext]
    rfl
  · obtain ⟨s, s', hs, hs', hdrop, -⟩ := sanitize_again "f" hlast
    obtain rfl := Except.ok.inj (hs.symm.trans (sanitize_of_ascii "f" hlast))
    have htext : (Sanitized.ofAscii "a\r".toList).text = "a\r\n".toList := by cbv
    refine ⟨_, s', hs, hs', htext, ?_⟩
    rw [hdrop, htext]
    rfl

end Lexis
