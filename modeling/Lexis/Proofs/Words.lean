import Lexis.Text.Blank
import Lexis.Text.Line
import Mathlib.Data.List.DropRight
import Mathlib.Data.List.TakeWhile
import Mathlib.Tactic.Common

/-!
# The words of a text

A word is a maximal run of characters that are not blank. `IsWord` says so of a run and its place;
`wordsFrom` lists the words by splitting the text at its blanks.

* `mem_wordsFrom_iff`, `wordsFrom_pairwise`: **the list has the maximal runs and nothing else**, in
  order and without overlap. By `eq_wordsFrom` there is no other such list.
* `wordsFrom_append_blank`, `words_append_blank`: a blank separates what stands before it from what
  stands behind it.
* `wordsFrom_append`: a run that a blank or the end follows is the first word.
* `wordsFrom_add`: where a text starts tells where its words start and nothing else of them.
* `place_of_words_eq`: a place inside a word is found again in every text with the same words.
-/

namespace Lexis.Text

/-- A word of a text, and where it starts. -/
structure Word where
  start : Nat
  text : List Char
deriving DecidableEq, Repr

/-- The same word in a text that starts `n` bytes further on. -/
def Word.move (n : Nat) (w : Word) : Word := { w with start := n + w.start }

/-- The pieces of a text laid out from `start` on, with a single character after each of them. -/
def layOut (start : Nat) : List (List Char) → List Word
  | [] => []
  | piece :: pieces => ⟨start, piece⟩ :: layOut (start + piece.length + 1) pieces

/-- The words of a text that starts at `start`. -/
def wordsFrom (start : Nat) (text : List Char) : List Word :=
  (layOut start (text.splitOnP isBlank)).filter (·.text ≠ [])

/-- The words of a text, wherever they stand. -/
def words (text : List Char) : List (List Char) := (text.splitOnP isBlank).filter (· ≠ [])

/-- **A maximal run**: not empty, without blanks, and with a blank or nothing on either side. It
starts as many bytes behind `origin` as the text before it has. -/
def IsWord (origin : Nat) (text : List Char) (w : Word) : Prop :=
  ∃ before behind, text = before ++ w.text ++ behind ∧ w.start = origin + byteLength before ∧
    w.text ≠ [] ∧ (∀ c ∈ w.text, isBlank c = false) ∧
      (∀ c ∈ before.getLast?, isBlank c = true) ∧ ∀ c ∈ behind.head?, isBlank c = true

/-- The byte length of an ASCII text is its length. -/
theorem byteLength_of_ascii {text : List Char} (h : ∀ c ∈ text, isAscii c = true) :
    byteLength text = text.length := by
  induction text with
  | nil => rfl
  | cons c text ih =>
    have hc : c.utf8Size = 1 := by
      have := h c List.mem_cons_self
      simp only [isAscii, decide_eq_true_eq] at this
      rw [Char.utf8Size_eq_one_iff, UInt32.le_iff_toNat_le]
      exact Nat.le_of_lt_succ this
    rw [byteLength_cons, ih fun d hd => h d (List.mem_cons_of_mem c hd), hc, List.length_cons]
    omega

section

variable {start : Nat} {text rest w : List Char} {c : Char}

/-- Splitting at a blank lays out what stands before it and then what stands behind it. -/
theorem layOut_splitOnP_append (hc : isBlank c = true) :
    layOut start ((text ++ c :: rest).splitOnP isBlank) =
      layOut start (text.splitOnP isBlank) ++
        layOut (start + text.length + 1) (rest.splitOnP isBlank) := by
  induction text generalizing start with
  | nil => rw [List.nil_append, List.splitOnP_cons_eq_if_modifyHead, if_pos hc]; rfl
  | cons d text ih =>
    have hlen : start + (d :: text).length + 1 = start + 1 + text.length + 1 := by
      rw [List.length_cons]; omega
    have ih := @ih (start + 1)
    rw [List.cons_append, List.splitOnP_cons_eq_if_modifyHead, List.splitOnP_cons_eq_if_modifyHead,
      hlen]
    by_cases hd : isBlank d = true
    · rw [if_pos hd, if_pos hd, layOut, layOut, List.length_nil, Nat.add_zero, ih,
        List.cons_append]
    · rw [if_neg hd, if_neg hd]
      rw [List.splitOnP_append_cons _ _ hc] at ih ⊢
      cases hp : text.splitOnP isBlank with
      | nil => exact absurd hp (List.splitOnP_ne_nil _ _)
      | cons p ps =>
        -- the character lengthens the first piece and moves nothing else
        rw [hp, List.cons_append, layOut, layOut, List.cons_append] at ih
        have hstart : start + (d :: p).length + 1 = start + 1 + p.length + 1 := by
          rw [List.length_cons]; omega
        rw [List.cons_append, List.modifyHead_cons, List.modifyHead_cons, layOut, layOut, hstart,
          (List.cons.inj ih).2, List.cons_append]

@[simp] theorem wordsFrom_nil : wordsFrom start [] = [] := rfl

@[simp] theorem words_nil : words [] = [] := rfl

/-- The texts of the words do not depend on where the text starts. -/
@[simp] theorem map_text_wordsFrom : (wordsFrom start text).map Word.text = words text := by
  have key : ∀ (ps : List (List Char)) start,
      ((layOut start ps).filter (·.text ≠ [])).map Word.text = ps.filter (· ≠ []) := by
    intro ps
    induction ps with
    | nil => intro start; rfl
    | cons p ps ih =>
      intro start
      have ih := ih (start + p.length + 1)
      by_cases hp : p = []
      · rw [layOut, List.filter_cons_of_neg (by simpa using hp),
          List.filter_cons_of_neg (by simpa using hp), ih]
      · rw [layOut, List.filter_cons_of_pos (by simpa using hp),
          List.filter_cons_of_pos (by simpa using hp), List.map_cons, ih]
  exact key _ _

/-- **A text that starts further on** has its words further on. -/
theorem wordsFrom_add (n : Nat) :
    wordsFrom (n + start) text = (wordsFrom start text).map (Word.move n) := by
  unfold wordsFrom
  generalize text.splitOnP isBlank = pieces
  induction pieces generalizing start with
  | nil => rfl
  | cons p ps ih =>
    have hstart : n + start + p.length + 1 = n + (start + p.length + 1) := by omega
    rw [layOut, layOut, hstart]
    by_cases hp : p = []
    · rw [List.filter_cons_of_neg (by simpa using hp), List.filter_cons_of_neg (by simpa using hp),
        ih]
    · rw [List.filter_cons_of_pos (by simpa using hp), List.filter_cons_of_pos (by simpa using hp),
        List.map_cons, ih]
      rfl

/-- **A blank separates words.** -/
theorem wordsFrom_append_blank (hc : isBlank c = true) :
    wordsFrom start (text ++ c :: rest) =
      wordsFrom start text ++ wordsFrom (start + text.length + 1) rest := by
  unfold wordsFrom
  rw [layOut_splitOnP_append hc, List.filter_append]

theorem words_append_blank (hc : isBlank c = true) :
    words (text ++ c :: rest) = words text ++ words rest := by
  have h := congrArg (List.map Word.text) (@wordsFrom_append_blank 0 text rest c hc)
  rwa [List.map_append, map_text_wordsFrom, map_text_wordsFrom, map_text_wordsFrom] at h

theorem wordsFrom_blank_cons (hc : isBlank c = true) :
    wordsFrom start (c :: rest) = wordsFrom (start + 1) rest := by
  rw [← List.nil_append (c :: rest), wordsFrom_append_blank hc, wordsFrom_nil, List.nil_append,
    List.length_nil, Nat.add_zero]

/-- **A run without blanks is the first word** if a blank or nothing follows it. -/
theorem wordsFrom_append (hne : w ≠ []) (hw : ∀ c ∈ w, isBlank c = false)
    (hrest : ∀ c ∈ rest.head?, isBlank c = true) :
    wordsFrom start (w ++ rest) = ⟨start, w⟩ :: wordsFrom (start + w.length) rest := by
  have hone : wordsFrom start w = [⟨start, w⟩] := by
    rw [wordsFrom, List.splitOnP_eq_singleton hw]
    simp [layOut, hne]
  cases rest with
  | nil => rw [List.append_nil, hone, wordsFrom_nil]
  | cons c rest =>
    have hc : isBlank c = true := hrest c rfl
    rw [wordsFrom_append_blank hc, hone, wordsFrom_blank_cons hc, List.singleton_append]

/-- The same for the texts of the words. -/
theorem words_append (hne : w ≠ []) (hw : ∀ c ∈ w, isBlank c = false)
    (hrest : ∀ c ∈ rest.head?, isBlank c = true) : words (w ++ rest) = w :: words rest := by
  have h := congrArg (List.map Word.text) (@wordsFrom_append 0 rest w hne hw hrest)
  rwa [List.map_cons, map_text_wordsFrom, map_text_wordsFrom] at h

/-- Blanks in front of a text are in none of its words. -/
theorem words_blanks_append {blanks : List Char} (h : ∀ c ∈ blanks, isBlank c = true) :
    words (blanks ++ rest) = words rest := by
  induction blanks with
  | nil => rfl
  | cons c blanks ih =>
    obtain ⟨hc, hblanks⟩ := List.forall_mem_cons.1 h
    have hcons := @words_append_blank [] (blanks ++ rest) c hc
    rw [List.cons_append]
    rw [List.nil_append, words_nil, List.nil_append] at hcons
    rw [hcons, ih hblanks]

/-- Dropping as many characters as a prefix has is dropping the prefix. -/
theorem drop_length_takeWhile (p : Char → Bool) (text : List Char) :
    text.drop (text.takeWhile p).length = text.dropWhile p := by
  calc text.drop (text.takeWhile p).length
    _ = (text.takeWhile p ++ text.dropWhile p).drop (text.takeWhile p).length := by
      rw [List.takeWhile_append_dropWhile]
    _ = text.dropWhile p := List.drop_left

/-- Behind a prefix stands a character of the other sort or nothing. -/
theorem head?_dropWhile {p : Char → Bool} {text : List Char} :
    ∀ c ∈ (text.dropWhile p).head?, p c = false := by
  intro c hc
  have := List.head?_dropWhile_not p text
  rw [Option.mem_def.1 hc] at this
  simpa using this

/-- Before the last run stands a character of the other sort or nothing. -/
theorem getLast?_rdropWhile {p : Char → Bool} {text : List Char} :
    ∀ c ∈ (text.rdropWhile p).getLast?, p c = false := by
  intro c hc
  have hne : text.rdropWhile p ≠ [] := by
    intro hnil
    rw [hnil] at hc
    cases hc
  have hlast := List.rdropWhile_last_not p text hne
  rw [List.getLast?_eq_getLast_of_ne_nil hne] at hc
  obtain rfl := Option.some.inj hc
  simpa using hlast

/-- Blanks in front of a text only move its words. -/
theorem wordsFrom_dropWhile :
    wordsFrom (start + (text.takeWhile isBlank).length) (text.dropWhile isBlank) =
      wordsFrom start text := by
  induction text generalizing start with
  | nil => rfl
  | cons c text ih =>
    by_cases hc : isBlank c = true
    · rw [List.takeWhile_cons_of_pos hc, List.dropWhile_cons_of_pos hc, wordsFrom_blank_cons hc,
        List.length_cons, ← ih]
      congr 1; omega
    · rw [List.takeWhile_cons_of_neg hc, List.dropWhile_cons_of_neg hc]; rfl

end

/-- **Induction on words**: a text is empty, starts with a blank, or starts with a word. -/
theorem words_induction {P : List Char → Prop} (nil : P [])
    (blank : ∀ c rest, isBlank c = true → P rest → P (c :: rest))
    (word : ∀ w rest, w ≠ [] → (∀ c ∈ w, isBlank c = false) →
      (∀ c ∈ rest.head?, isBlank c = true) → P rest → P (w ++ rest)) (text : List Char) :
    P text := by
  induction h : text.length using Nat.strongRecOn generalizing text with
  | _ n ih =>
    cases text with
    | nil => exact nil
    | cons c text =>
      subst h
      by_cases hc : isBlank c = true
      · exact blank c text hc (ih _ (by simp) text rfl)
      -- the longest prefix without blanks is the word, and what is behind it is shorter
      have hsplit := List.takeWhile_append_dropWhile (p := (!isBlank ·)) (l := c :: text)
      have hne : (c :: text).takeWhile (!isBlank ·) ≠ [] := by
        rw [List.takeWhile_cons_of_pos (by simpa using hc)]; simp
      have hlen := congrArg List.length hsplit
      rw [List.length_append] at hlen
      have := List.length_pos_iff.2 hne
      rw [← hsplit]
      refine word _ _ hne ?_ ?_ (ih _ (by omega) _ rfl)
      · intro d hd
        simpa using List.mem_takeWhile_imp hd
      · intro d hd
        simpa using head?_dropWhile d hd

section

variable {start : Nat} {rest w₀ : List Char} {c : Char} {w : Word}

/-- A word starts before its text ends. -/
theorem IsWord.start_lt {text : List Char} (h : IsWord start text w) :
    w.start < start + byteLength text := by
  obtain ⟨before, behind, htext, hstart, hne, -⟩ := h
  obtain ⟨c, chars, hw⟩ := List.exists_cons_of_ne_nil hne
  have hpos := c.utf8Size_pos
  rw [htext, hw, byteLength_append, byteLength_append, byteLength_cons, hstart]
  omega

theorem isWord_blank_cons (hc : isBlank c = true) (h1 : c.utf8Size = 1) :
    IsWord start (c :: rest) w ↔ IsWord (start + 1) rest w := by
  constructor
  · rintro ⟨before, behind, htext, hstart, hne, hw, hbefore, hbehind⟩
    cases before with
    | nil =>
      -- the blank would be the first character of the word
      obtain ⟨d, text, hd⟩ := List.exists_cons_of_ne_nil hne
      rw [hd, List.nil_append, List.cons_append] at htext
      have := hw d (by rw [hd]; exact List.mem_cons_self)
      rw [← (List.cons.inj htext).1, hc] at this
      cases this
    | cons d before =>
      obtain ⟨rfl, rfl⟩ := List.cons.inj htext
      refine ⟨before, behind, rfl, ?_, hne, hw, ?_, hbehind⟩
      · rw [hstart, byteLength_cons, h1]; omega
      · intro e he
        refine hbefore e ?_
        rw [List.getLast?_cons, Option.mem_def.1 he]; rfl
  · rintro ⟨before, behind, rfl, hstart, hne, hw, hbefore, hbehind⟩
    refine ⟨c :: before, behind, rfl, ?_, hne, hw, ?_, hbehind⟩
    · rw [hstart, byteLength_cons, h1]; omega
    · intro e he
      rw [List.getLast?_cons] at he
      cases hb : before.getLast? with
      | none => rw [hb] at he; cases he; exact hc
      | some d => rw [hb] at he; cases he; exact hbefore d hb

theorem isWord_append (hne : w₀ ≠ []) (hw₀ : ∀ c ∈ w₀, isBlank c = false)
    (hrest : ∀ c ∈ rest.head?, isBlank c = true) :
    IsWord start (w₀ ++ rest) w ↔ w = ⟨start, w₀⟩ ∨ IsWord (start + byteLength w₀) rest w := by
  constructor
  · rintro ⟨before, behind, htext, hstart, hwne, hw, hbefore, hbehind⟩
    by_cases hb : before = []
    · -- both runs start here and both are maximal
      subst hb
      have htake : ∀ {u v : List Char}, (∀ c ∈ u, isBlank c = false) →
          (∀ c ∈ v.head?, isBlank c = true) → (u ++ v).takeWhile (!isBlank ·) = u := by
        intro u v hu hv
        rw [List.takeWhile_append_of_pos (by simpa using hu)]
        cases v with
        | nil => simp
        | cons d v => rw [List.takeWhile_cons_of_neg (by simpa using hv d rfl), List.append_nil]
      have h := congrArg (List.takeWhile (!isBlank ·)) htext
      rw [List.nil_append, htake hw₀ hrest, htake hw hbehind] at h
      left
      obtain ⟨s, t⟩ := w
      simp only [Word.mk.injEq]
      exact ⟨by simpa using hstart, h.symm⟩
    · right
      rw [List.append_assoc] at htext
      rcases List.append_eq_append_iff.1 htext with ⟨d, hd, hrest'⟩ | ⟨d, hd, hrest'⟩
      · refine ⟨d, behind, by rw [hrest', List.append_assoc], ?_, hwne, hw, ?_, hbehind⟩
        · rw [hstart, hd, byteLength_append]; omega
        · intro e he
          refine hbefore e ?_
          rw [hd, List.getLast?_append, Option.mem_def.1 he]; rfl
      · -- a run that starts inside the first one has a character of it before it
        obtain ⟨e, he⟩ := Option.isSome_iff_exists.1 (List.getLast?_isSome.2 hb)
        have hmem : e ∈ w₀ := by
          rw [hd]; exact List.mem_append_left _ (List.mem_of_getLast? he)
        have := hbefore e he
        rw [hw₀ e hmem] at this
        cases this
  · rintro (rfl | ⟨before, behind, rfl, hstart, hwne, hw, hbefore, hbehind⟩)
    · exact ⟨[], rest, rfl, rfl, hne, hw₀, by simp, hrest⟩
    · refine ⟨w₀ ++ before, behind, by simp, ?_, hwne, hw, ?_, hbehind⟩
      · rw [hstart, byteLength_append]; omega
      · intro e he
        cases before with
        | nil =>
          -- then the word would start where a blank has to stand
          obtain ⟨d, text, hd⟩ := List.exists_cons_of_ne_nil hwne
          have h1 := hrest d (by rw [hd]; rfl)
          have h2 := hw d (by rw [hd]; exact List.mem_cons_self)
          rw [h1] at h2
          cases h2
        | cons d before =>
          rw [List.getLast?_append, List.getLast?_cons] at he
          exact hbefore e (by rw [List.getLast?_cons]; exact he)

/-- **The listed words of an ASCII text are its maximal runs.** -/
theorem mem_wordsFrom_iff {text : List Char} (h : ∀ c ∈ text, isAscii c = true) :
    w ∈ wordsFrom start text ↔ IsWord start text w := by
  induction text using words_induction generalizing start with
  | nil =>
    constructor
    · intro hw; simp at hw
    · rintro ⟨before, behind, htext, -, hne, -⟩
      simp_all
  | blank c rest hc ih =>
    obtain ⟨hascii, hrest⟩ := List.forall_mem_cons.1 h
    have h1 : byteLength [c] = 1 := byteLength_of_ascii (by simpa using hascii)
    rw [wordsFrom_blank_cons hc, isWord_blank_cons hc (by simpa using h1), ih hrest]
  | word w₀ rest hne hw₀ hrest ih =>
    have hw : byteLength w₀ = w₀.length :=
      byteLength_of_ascii fun c hc => h c (List.mem_append_left _ hc)
    rw [wordsFrom_append hne hw₀ hrest, List.mem_cons, isWord_append hne hw₀ hrest, hw,
      ih fun c hc => h c (List.mem_append_right _ hc)]

example : wordsFrom 0 " if  x1\n".toList = [⟨1, "if".toList⟩, ⟨5, "x1".toList⟩] := rfl

end

/-- **The listed words are in order**, each ending before the next one starts, and the first of them
does not start before the text does. -/
theorem wordsFrom_pairwise (start : Nat) (text : List Char) :
    (∀ w ∈ wordsFrom start text, start ≤ w.start) ∧
      (wordsFrom start text).Pairwise fun v w => v.start + v.text.length < w.start := by
  unfold wordsFrom
  generalize text.splitOnP isBlank = pieces
  induction pieces generalizing start with
  | nil => simp [layOut]
  | cons p ps ih =>
    obtain ⟨hle, hpair⟩ := ih (start + p.length + 1)
    have hlt : ∀ w ∈ (layOut (start + p.length + 1) ps).filter (·.text ≠ []),
        start + p.length < w.start := fun w hw => hle w hw
    -- an empty piece is no word, but the blank behind it still counts
    by_cases hp : p = []
    · rw [layOut, List.filter_cons_of_neg (by simpa using hp)]
      exact ⟨fun w hw => by have := hlt w hw; omega, hpair⟩
    · rw [layOut, List.filter_cons_of_pos (by simpa using hp)]
      refine ⟨fun w hw => ?_, List.pairwise_cons.2 ⟨hlt, hpair⟩⟩
      rcases List.mem_cons.1 hw with rfl | hw
      · exact Nat.le_refl _
      · have := hlt w hw; omega

/-- **No other list** has the maximal runs of an ASCII text in this order. -/
theorem eq_wordsFrom {start : Nat} {text : List Char} {ws : List Word}
    (h : ∀ c ∈ text, isAscii c = true) (hmem : ∀ w, w ∈ ws ↔ IsWord start text w)
    (hpair : ws.Pairwise fun v w => v.start + v.text.length < w.start) :
    ws = wordsFrom start text := by
  have hpair' := (wordsFrom_pairwise start text).2
  have hnodup : ∀ {ws : List Word},
      (ws.Pairwise fun v w => v.start + v.text.length < w.start) → ws.Nodup := by
    intro ws hws
    refine hws.imp ?_
    intro v w hlt heq
    rw [heq] at hlt
    omega
  have hperm : ws.Perm (wordsFrom start text) := by
    rw [List.perm_ext_iff_of_nodup (hnodup hpair) (hnodup hpair')]
    intro w
    rw [hmem, mem_wordsFrom_iff h]
  refine hperm.eq_of_pairwise ?_ hpair hpair'
  intro v w _ _ hvw hwv
  omega

/-! ## Texts with the same words -/

section

variable {a b : Char} {text u v w : List Char} {ws vs : List (List Char)}

/-- **Words are found apart** on the two sides of a place where a blank or nothing stands on one
side at least. -/
theorem words_append_of_blank
    (h : (∀ c ∈ u.getLast?, isBlank c = true) ∨ ∀ c ∈ v.head?, isBlank c = true) :
    words (u ++ v) = words u ++ words v := by
  rcases h with h | h
  · rcases List.eq_nil_or_concat u with rfl | ⟨body, c, rfl⟩
    · rfl
    · have hc : isBlank c = true := h c (by simp)
      have hlast : words (body ++ [c]) = words body := by
        rw [words_append_blank hc, words_nil, List.append_nil]
      rw [List.concat_eq_append, hlast, List.append_assoc, List.singleton_append,
        words_append_blank hc]
  · cases v with
    | nil => rw [List.append_nil, words_nil, List.append_nil]
    | cons c rest =>
      have hc : isBlank c = true := h c rfl
      have hrest : words (c :: rest) = words rest := @words_append_blank [] rest c hc
      rw [words_append_blank hc, hrest]

theorem mem_words (h : w ∈ words text) : w ≠ [] ∧ ∀ c ∈ w, isBlank c = false := by
  induction text using words_induction with
  | nil => cases h
  | blank c rest hc ih =>
    have hrest : words (c :: rest) = words rest := @words_append_blank [] rest c hc
    rw [hrest] at h
    exact ih h
  | word w₀ rest hne hw₀ hrest ih =>
    rw [words_append hne hw₀ hrest] at h
    rcases List.mem_cons.1 h with rfl | h
    · exact ⟨hne, hw₀⟩
    · exact ih h

/-- **Where a word stands** in its text: the words before it are words of what stands before it, the
words behind it of what stands behind it. -/
theorem exists_of_words_eq (h : words text = ws ++ w :: vs) :
    ∃ before behind, text = before ++ (w ++ behind) ∧ words before = ws ∧ words behind = vs ∧
      (∀ c ∈ before.getLast?, isBlank c = true) ∧ ∀ c ∈ behind.head?, isBlank c = true := by
  induction text using words_induction generalizing ws with
  | nil => simp at h
  | blank c rest hc ih =>
    have hcons : ∀ rest, words (c :: rest) = words rest := fun rest =>
      @words_append_blank [] rest c hc
    rw [hcons] at h
    obtain ⟨before, behind, htext, hws, hvs, hlast, hhead⟩ := ih h
    refine ⟨c :: before, behind, by rw [htext]; rfl, by rw [hcons, hws], hvs, ?_, hhead⟩
    intro d hd
    rw [List.getLast?_cons] at hd
    cases hb : before.getLast? with
    | none => rw [hb] at hd; cases hd; exact hc
    | some e => rw [hb] at hd; cases hd; exact hlast e hb
  | word w₀ rest hne hw₀ hrest ih =>
    rw [words_append hne hw₀ hrest] at h
    cases ws with
    | nil =>
      obtain ⟨rfl, rfl⟩ := List.cons.inj h
      exact ⟨[], rest, rfl, rfl, rfl, by simp, hrest⟩
    | cons w₁ ws =>
      rw [List.cons_append] at h
      obtain ⟨rfl, hwords⟩ := List.cons.inj h
      obtain ⟨before, behind, htext, hws, hvs, hlast, hhead⟩ := ih hwords
      -- a blank stands behind the first word, so that it is not the word in question
      have hb : before ≠ [] := by
        rintro rfl
        have hmem : w ∈ words rest := by rw [hwords]; simp
        obtain ⟨hwne, hw⟩ := mem_words hmem
        obtain ⟨d, chars, rfl⟩ := List.exists_cons_of_ne_nil hwne
        have hd := hrest d (by rw [htext]; rfl)
        rw [hw d List.mem_cons_self] at hd
        cases hd
      have hhead' : ∀ c ∈ before.head?, isBlank c = true := by
        intro c hc
        apply hrest c
        rw [htext, List.head?_append, hc]
        rfl
      refine ⟨w₀ ++ before, behind, by rw [htext, List.append_assoc], ?_, hvs, ?_, hhead⟩
      · rw [words_append hne hw₀ hhead', hws]
      · rwa [List.getLast?_append_of_ne_nil _ hb]

/-- The last run of a text in which no character is of some sort, and what stands before it. -/
theorem exists_last_run (p : Char → Bool) (text : List Char) :
    ∃ before run, text = before ++ run ∧ (∀ c ∈ run, p c = false) ∧
      ∀ c ∈ before.getLast?, p c = true := by
  refine ⟨text.rdropWhile (!p ·), text.rtakeWhile (!p ·), ?_, ?_, ?_⟩
  · exact (List.rdropWhile_append_rtakeWhile).symm
  · intro c hc
    simpa using List.mem_rtakeWhile_imp hc
  · intro c hc
    simpa using getLast?_rdropWhile c hc

/-- **A place inside a word** is found again in every text with the same words. What stands before
it has the same words in both texts, also together with the first character of the place, and so has
what stands behind it. -/
theorem place_of_words_eq (ha : isBlank a = false) (hb : isBlank b = false)
    (h : words (u ++ a :: b :: v) = words text) :
    ∃ u' v', text = u' ++ a :: b :: v' ∧ words u' = words u ∧
      words (u' ++ [a]) = words (u ++ [a]) ∧ words v' = words v := by
  obtain ⟨before, p, rfl, hp, hlast⟩ := exists_last_run isBlank u
  set q := v.takeWhile (!isBlank ·)
  set behind := v.dropWhile (!isBlank ·)
  have hv : v = q ++ behind := (List.takeWhile_append_dropWhile).symm
  have hhead : ∀ c ∈ behind.head?, isBlank c = true := by
    intro c hc
    simpa using head?_dropWhile c hc
  have hq : ∀ c ∈ q, isBlank c = false := by
    intro c hc
    simpa using List.mem_takeWhile_imp hc
  -- the word around the place
  have hw : ∀ c ∈ p ++ a :: b :: q, isBlank c = false := by
    intro c hc
    rcases List.mem_append.1 hc with hc | hc
    · exact hp c hc
    · rcases List.mem_cons.1 hc with rfl | hc
      · exact ha
      · rcases List.mem_cons.1 hc with rfl | hc
        · exact hb
        · exact hq c hc
  have hsplit : before ++ p ++ a :: b :: v = before ++ ((p ++ a :: b :: q) ++ behind) := by
    rw [hv]; simp
  rw [hsplit, words_append_of_blank (.inl hlast), words_append (by simp) hw hhead] at h
  obtain ⟨before', behind', htext, hws, hvs, hlast', hhead'⟩ := exists_of_words_eq h.symm
  refine ⟨before' ++ p, q ++ behind', by rw [htext]; simp, ?_, ?_, ?_⟩
  · rw [words_append_of_blank (.inl hlast'), words_append_of_blank (.inl hlast), hws]
  · rw [List.append_assoc, List.append_assoc, words_append_of_blank (.inl hlast'),
      words_append_of_blank (.inl hlast), hws]
  · rw [hv, words_append_of_blank (.inr hhead'), words_append_of_blank (.inr hhead), hvs]

end

end Lexis.Text
