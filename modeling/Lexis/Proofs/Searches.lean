import Lexis.Proofs.Division
import Lexis.Search

/-!
# Comments as the matches of patterns

The search for comments of a style is the search for its pattern, and a text without them is what is
left when all matches have been taken out.

* `Search.ways_greedy_cons`, `Search.ways_lazy_cons`: **what a run prefers**.
* `head?_ways_of_isComment`: the pattern of a style prefers its comments.
* `first?_eq_some_iff_search`: **the first comment is the first match**.
* `uncommented_eq_iff`: **comments are removed** as matches of their patterns, the lines' before the
  blocks'.
-/

namespace Lexis

open Comment (Found Style)

/-! ## Runs -/

namespace Search

variable {p q : Search} {set : CharClass} {greedy : Bool} {c : Char}
variable {text body rest : List Char} {way : List Char × List Char} {found found' : Found}

/-- A word matches itself, and then the pattern matches behind it. -/
theorem ways_afterWord (word : List Char) (p : Search) (text : List Char) :
    (afterWord word p).ways (word ++ text) =
      (p.ways text).map fun way => (word ++ way.1, way.2) := by
  induction word with
  | nil => simp [afterWord]
  | cons c word ih =>
    show (seq (one (.exactly c)) (afterWord word p)).ways (c :: (word ++ text)) = _
    simp [ways, CharClass.has, ih]

/-- A word matches nothing else. -/
theorem exists_of_ways_afterWord {word : List Char} (h : (afterWord word p).ways text ≠ []) :
    ∃ behind, text = word ++ behind ∧ p.ways behind ≠ [] := by
  induction word generalizing text with
  | nil => exact ⟨text, rfl, h⟩
  | cons c word ih =>
    change (seq (one (.exactly c)) (afterWord word p)).ways text ≠ [] at h
    cases text with
    | nil => exact absurd rfl h
    | cons d text =>
      by_cases hd : d = c
      · have hbehind : (afterWord word p).ways text ≠ [] := by
          intro hnil
          exact h (by simp [ways, CharClass.has, hd, hnil])
        obtain ⟨behind, rfl, hways⟩ := ih hbehind
        exact ⟨behind, by rw [hd]; rfl, hways⟩
      · exact absurd (by simp [ways, CharClass.has, hd]) h

theorem ways_run_nil (set : CharClass) (greedy : Bool) (q : Search) :
    (seq (run set greedy) q).ways [] = q.ways [] := by
  simp [ways, CharClass.runs]

/-- **A greedy run** rather takes one more character, if what follows then matches. -/
theorem ways_greedy_cons (set : CharClass) (q : Search) (c : Char) (text : List Char) :
    (seq (run set true) q).ways (c :: text) =
      (if set.has c then ((seq (run set true) q).ways text).map fun way => (c :: way.1, way.2)
        else []) ++ q.ways (c :: text) := by
  cases h : set.has c with
  | false => simp [ways, CharClass.runs, h]
  | true =>
    simp [ways, CharClass.runs, h, List.flatMap_append, List.map_flatMap, List.flatMap_map,
      Function.comp_def]

/-- **A lazy run** takes one more character only if what follows does not match. -/
theorem ways_lazy_cons (set : CharClass) (q : Search) (c : Char) (text : List Char) :
    (seq (run set false) q).ways (c :: text) =
      q.ways (c :: text) ++
        if set.has c then ((seq (run set false) q).ways text).map fun way => (c :: way.1, way.2)
        else [] := by
  cases h : set.has c with
  | false => simp [ways, CharClass.runs, h]
  | true => simp [ways, CharClass.runs, h, List.map_flatMap, List.flatMap_map, Function.comp_def]

/-- A greedy run goes on as long as it can, if what follows matches there. -/
theorem head?_ways_greedy (hbody : ∀ c ∈ body, set.has c = true)
    (hrest : ∀ c ∈ rest.head?, set.has c = false) (h : (q.ways rest).head? = some way) :
    ((seq (run set true) q).ways (body ++ rest)).head? = some (body ++ way.1, way.2) := by
  induction body with
  | nil =>
    rw [List.nil_append, List.nil_append, ← h]
    cases rest with
    | nil => rw [ways_run_nil]
    | cons c rest =>
      have hc : set.has c = false := hrest c rfl
      rw [ways_greedy_cons, hc]
      rfl
  | cons c body ih =>
    obtain ⟨hc, hbody⟩ := List.forall_mem_cons.1 hbody
    rw [List.cons_append, ways_greedy_cons, if_pos hc, List.head?_append, List.head?_map, ih hbody]
    rfl

/-- A lazy run goes on to the first place where what follows matches. -/
theorem head?_ways_lazy (hbody : ∀ c ∈ body, set.has c = true)
    (hnone : ∀ before behind, body ++ rest = before ++ behind → before.length < body.length →
      q.ways behind = [])
    (h : (q.ways rest).head? = some way) :
    ((seq (run set false) q).ways (body ++ rest)).head? = some (body ++ way.1, way.2) := by
  induction body with
  | nil =>
    rw [List.nil_append, List.nil_append, ← h]
    cases rest with
    | nil => rw [ways_run_nil]
    | cons c rest =>
      rw [ways_lazy_cons, List.head?_append, h]
      rfl
  | cons c body ih =>
    obtain ⟨hc, hbody⟩ := List.forall_mem_cons.1 hbody
    have hhere : q.ways (c :: (body ++ rest)) = [] := hnone [] _ rfl (Nat.zero_lt_succ _)
    have hlater := ih hbody fun before behind htext hlt =>
      hnone (c :: before) behind (congrArg (c :: ·) htext) (Nat.succ_lt_succ hlt)
    rw [List.cons_append, ways_lazy_cons, hhere, if_pos hc, List.nil_append, List.head?_map, hlater]
    rfl

/-- Where a run and what follows match, what follows matches somewhere behind. -/
theorem suffix_of_ways_run (h : (seq (run set greedy) q).ways text ≠ []) :
    ∃ behind, behind <:+ text ∧ q.ways behind ≠ [] := by
  induction text with
  | nil =>
    rw [ways_run_nil] at h
    exact ⟨[], List.suffix_refl _, h⟩
  | cons c text ih =>
    by_cases hhere : q.ways (c :: text) = []
    · have hlater : (seq (run set greedy) q).ways text ≠ [] := by
        intro hnil
        cases greedy with
        | false =>
          rw [ways_lazy_cons, hhere, hnil] at h
          simp at h
        | true =>
          rw [ways_greedy_cons, hhere, hnil] at h
          simp at h
      obtain ⟨behind, hsuffix, hways⟩ := ih hlater
      exact ⟨behind, hsuffix.trans (List.suffix_cons c text), hways⟩
    · exact ⟨_, List.suffix_refl _, hhere⟩

/-- **A search finds one match only.** -/
theorem IsFirst.unique (h : p.IsFirst text found) (h' : p.IsFirst text found') :
    found = found' := by
  -- no match starts before another one that is leftmost
  have hle : ∀ {found found' : Found}, p.IsFirst text found → p.IsFirst text found' →
      found'.code.length ≤ found.code.length := by
    intro found found' h h'
    by_contra hlt
    have hnone := h'.leftmost found.code _ h.append.symm (by omega)
    have hsome := h.preferred
    rw [hnone] at hsome
    cases hsome
  obtain ⟨code, comment, rest⟩ := found
  obtain ⟨code', comment', rest'⟩ := found'
  have hall : code ++ (comment ++ rest) = code' ++ (comment' ++ rest') :=
    h.append.trans h'.append.symm
  obtain ⟨rfl, hbehind⟩ := List.append_inj hall (Nat.le_antisymm (hle h' h) (hle h h'))
  have hways := h'.preferred
  rw [← hbehind, h.preferred, Option.some.injEq, Prod.mk.injEq] at hways
  obtain ⟨rfl, rfl⟩ := hways
  rfl

end Search

/-! ## Comments -/

namespace Comment

open Search

variable {style : Style} {text comment rest code left : List Char} {found : Found}

/-- A pair that starts in a part of a text stands in that part, or it starts with the next
character. -/
theorem pair_infix_of_lt {a b : Char} {part rest before behind : List Char}
    (htext : part ++ a :: rest = before ++ behind) (hlt : before.length < part.length)
    (h : [a, b] <+: behind) : [a, b] <:+: part ++ [a] := by
  obtain ⟨more, rfl⟩ : before <+: part :=
    List.prefix_of_prefix_length_le ⟨behind, htext.symm⟩ (List.prefix_append part _) hlt.le
  rw [List.append_assoc] at htext
  obtain rfl := List.append_cancel_left htext
  have hmore : more ++ [a] <+: more ++ a :: rest := ⟨rest, by simp⟩
  have hlen : [a, b].length ≤ (more ++ [a]).length := by
    rw [List.length_append] at hlt
    simp only [List.length_append, List.length_cons, List.length_nil]
    omega
  have hpair := List.prefix_of_prefix_length_le h hmore hlen
  rw [List.append_assoc]
  exact hpair.isInfix.trans (List.suffix_append before _).isInfix

/-- **A pattern prefers the comments of its style**, whatever stands behind them. -/
theorem head?_ways_of_isComment (h : style.IsComment comment rest) :
    (style.pattern.ways (comment ++ rest)).head? = some (comment, rest) := by
  cases style with
  | line =>
    obtain ⟨body, hbody, hcomment⟩ := h
    obtain ⟨ending, rfl, hstop, hending⟩ : ∃ ending, comment = ['/', '/'] ++ (body ++ ending) ∧
        (∀ c ∈ (ending ++ rest).head?, CharClass.has (.except '\n') c = false) ∧
        ((alt (one (.exactly '\n')) textEnd).ways (ending ++ rest)).head? =
          some (ending, rest) := by
      rcases hcomment with rfl | ⟨rfl, rfl⟩
      · exact ⟨['\n'], rfl, by simp [CharClass.has], rfl⟩
      · exact ⟨[], by simp, by simp, rfl⟩
    have hset : ∀ c ∈ body, CharClass.has (.except '\n') c = true := by
      intro c hc
      have hne : c ≠ '\n' := fun h => hbody (h ▸ hc)
      simpa [CharClass.has] using hne
    have hways := head?_ways_greedy hset hstop hending
    rw [List.append_assoc, List.append_assoc, Style.pattern, ways_afterWord, List.head?_map, hways]
    rfl
  | block =>
    obtain ⟨body, hbody, rfl⟩ := h
    have hcloser : (afterWord ['*', '/'] empty).ways (['*', '/'] ++ rest) =
        [(['*', '/'], rest)] := ways_afterWord _ _ _
    have hways : ((seq (run .any false) (afterWord ['*', '/'] empty)).ways
        (body ++ (['*', '/'] ++ rest))).head? = some (body ++ ['*', '/'], rest) := by
      have hany : ∀ c ∈ body, CharClass.any.has c = true := fun _ _ => rfl
      refine head?_ways_lazy hany ?_ (by rw [hcloser]; rfl)
      -- a closer that starts in the body would be the end of the comment
      intro before behind htext hlt
      by_contra hne
      obtain ⟨last, rfl, -⟩ := exists_of_ways_afterWord hne
      exact hbody (pair_infix_of_lt htext hlt (List.prefix_append _ last))
    have htext : '/' :: '*' :: body ++ ['*', '/'] ++ rest =
        ['/', '*'] ++ (body ++ (['*', '/'] ++ rest)) := by simp
    rw [htext, Style.pattern, ways_afterWord, List.head?_map, hways]
    rfl

/-- The lazy run stops at the first closer, and would go on to the next one. -/
example : Style.block.pattern.ways "/**/x*/".toList =
    [("/**/".toList, "x*/".toList), ("/**/x*/".toList, [])] := by
  decide

/-- A pattern matches only where its comments open. -/
theorem opener_prefix_of_ways (h : style.pattern.ways text ≠ []) : style.opener <+: text := by
  cases style with
  | line =>
    obtain ⟨tail, rfl, -⟩ := exists_of_ways_afterWord h
    exact List.prefix_append _ tail
  | block =>
    obtain ⟨tail, rfl, -⟩ := exists_of_ways_afterWord h
    exact List.prefix_append _ tail

/-- And only where there is a comment. -/
theorem occurs_of_ways {behind : List Char} (hsuffix : behind <:+ text)
    (h : style.pattern.ways behind ≠ []) : style.Occurs text := by
  cases style with
  | line => exact (opener_prefix_of_ways h).isInfix.trans hsuffix.isInfix
  | block =>
    obtain ⟨before, rfl⟩ := hsuffix
    obtain ⟨tail, rfl, htail⟩ := exists_of_ways_afterWord h
    obtain ⟨last, hlast, hcloser⟩ := suffix_of_ways_run htail
    obtain ⟨rest, rfl, -⟩ := exists_of_ways_afterWord hcloser
    exact block_occurs_iff.2
      ⟨before, tail, rfl, (List.prefix_append _ rest).isInfix.trans hlast.isInfix⟩

/-- The first comment is a first match. -/
theorem isFirst_pattern (h : style.IsFirst text found) : style.pattern.IsFirst text found := by
  have htext : found.code ++ (found.comment ++ found.rest) = text := by
    rw [← List.append_assoc, h.append]
  refine ⟨htext, head?_ways_of_isComment h.comment, ?_⟩
  intro before behind hsplit hlt
  by_contra hne
  obtain ⟨c, hopener, -⟩ := style.opener_eq
  obtain ⟨more, hmore⟩ := h.comment.head
  have hprefix := opener_prefix_of_ways hne
  have hcode := h.code
  rw [hopener] at hprefix hcode
  rw [← htext, hmore] at hsplit
  exact hcode (pair_infix_of_lt hsplit hlt hprefix)

/-- **The first comment is the first match** of the pattern. -/
theorem first?_eq_some_iff_search :
    style.first? text = some found ↔ style.pattern.IsFirst text found := by
  constructor
  · intro h
    exact isFirst_pattern (first?_eq_some_iff.1 h)
  · intro h
    cases hfirst : style.first? text with
    | none =>
      refine absurd (occurs_of_ways ⟨found.code, h.append⟩ ?_) (first?_eq_none_iff.1 hfirst)
      intro hnil
      have hsome := h.preferred
      rw [hnil] at hsome
      cases hsome
    | some other => rw [(isFirst_pattern (first?_eq_some_iff.1 hfirst)).unique h]

/-- **There is no comment** where the pattern matches nowhere. -/
theorem first?_eq_none_iff_search :
    style.first? text = none ↔ ∀ behind, behind <:+ text → style.pattern.ways behind = [] := by
  constructor
  · intro h behind hsuffix
    by_contra hne
    exact first?_eq_none_iff.1 h (occurs_of_ways hsuffix hne)
  · intro h
    by_contra hne
    obtain ⟨found, hfound⟩ := Option.ne_none_iff_exists'.1 hne
    have hfirst := first?_eq_some_iff_search.1 hfound
    have hsome := hfirst.preferred
    rw [h _ ⟨found.code, hfirst.append⟩] at hsome
    cases hsome

/-- **Removing comments** is removing matches. -/
theorem removes_iff : style.pattern.Removes text left ↔ left = style.strip text := by
  constructor
  · intro h
    induction h with
    | none h => exact (strip_of_not_occurs (first?_eq_none_iff.1 (first?_eq_none_iff_search.2 h))).symm
    | first h _ ih =>
      rw [strip_of_isFirst (first?_eq_some_iff.1 (first?_eq_some_iff_search.2 h)), ih]
  · rintro rfl
    induction text using comment_induction style with
    | plain text h =>
      rw [strip_of_not_occurs h]
      exact .none (first?_eq_none_iff_search.1 (first?_eq_none_iff.2 h))
    | cut text found h ih =>
      rw [strip_of_isFirst h]
      exact .first (isFirst_pattern h) ih

/-- **The code of a text** is what is left without the matches of the line pattern, and then without
those of the block pattern. -/
theorem uncommented_eq_iff : uncommented text = code ↔
    ∃ between, Style.line.pattern.Removes text between ∧
      Style.block.pattern.Removes between code := by
  simp only [removes_iff]
  constructor
  · rintro rfl
    exact ⟨_, rfl, rfl⟩
  · rintro ⟨between, rfl, rfl⟩
    rfl

end Comment

end Lexis
