import Lexis.Text.Blank
import Lexis.Text.Line
import Mathlib.Data.List.Infix
import Mathlib.Tactic.Common

/-!
# Texts made of lines

`IsLines` divides a text at its line feeds, `unlines` ends each of some lines with one, and
`dropReturns` turns each carriage return with a line feed into a line feed alone.

* `lines_unlines`: lines that are put together fall apart into the same lines.
* `lines_of_isLines`: the lines of a text are what stands between its line feeds.
* `lineFrom?_firstLine`, `lineFrom?_behind`: a byte of the first line, and whole lines before a byte.
* `dropReturns_eq_self_iff`: **a text keeps its returns** exactly if none stands before a line feed.
-/

namespace Lexis.Text

/-- Lines put together, each with a line feed behind it. -/
def unlines (lines : List (List Char)) : List Char := lines.flatMap (· ++ ['\n'])

/-- **A text divided at its line feeds**: one stands behind each of `terminated`, none elsewhere. -/
structure IsLines (text : List Char) (terminated : List (List Char)) (last : List Char) : Prop where
  join : text = unlines terminated ++ last
  terminated : ∀ line ∈ terminated, '\n' ∉ line
  last : '\n' ∉ last

/-- A line without a carriage return at its end. -/
def withoutReturn (line : List Char) : List Char :=
  if line.getLast? = some '\r' then line.dropLast else line

/-- A text without the carriage returns that stand directly before a line feed. -/
def dropReturns : List Char → List Char
  | [] => []
  | c :: text =>
    if c = '\r' ∧ text.head? = some '\n' then dropReturns text else c :: dropReturns text

/-- The first line of a text, with the line feed that ends it if there is one. -/
def firstLine (text : List Char) : List Char :=
  text.takeWhile (· ≠ '\n') ++ if '\n' ∈ text then ['\n'] else []

variable {line text : List Char}

@[simp] theorem unlines_nil : unlines [] = [] := rfl

@[simp] theorem unlines_cons (line : List Char) (ls : List (List Char)) :
    unlines (line :: ls) = line ++ '\n' :: unlines ls := by
  simp [unlines]

/-- **Induction on lines**: a text is a single line, or a line with a line feed and a rest. -/
theorem lines_induction {P : List Char → Prop} (single : ∀ line, '\n' ∉ line → P line)
    (cons : ∀ line rest, '\n' ∉ line → P rest → P (line ++ '\n' :: rest)) (text : List Char) :
    P text := by
  induction h : text.length using Nat.strongRecOn generalizing text with
  | _ n ih =>
    subst h
    by_cases hmem : '\n' ∈ text
    · obtain ⟨line, rest, rfl, hline⟩ := List.eq_append_cons_of_mem hmem
      refine cons line rest hline (ih _ ?_ rest rfl)
      rw [List.length_append, List.length_cons]; omega
    · exact single text hmem

/-- Every text falls into lines, in one way only. -/
theorem exists_isLines (text : List Char) : ∃ terminated last, IsLines text terminated last := by
  induction text using lines_induction with
  | single line h => exact ⟨[], line, by simp, by simp, h⟩
  | cons line rest h ih =>
    obtain ⟨terminated, last, rfl, hterm, hlast⟩ := ih
    exact ⟨line :: terminated, last, by simp, List.forall_mem_cons.2 ⟨h, hterm⟩, hlast⟩

/-- **The lines of a text** are what its line feeds end, and a last one if it is not empty. -/
theorem lines_of_isLines {terminated : List (List Char)} {last : List Char}
    (h : IsLines text terminated last) :
    lines text = terminated.map (· ++ ['\n']) ++ (if last = [] then [] else [last]) := by
  obtain ⟨rfl, hterm, hlast⟩ := h
  induction terminated with
  | nil =>
    rw [unlines_nil, List.nil_append, List.map_nil, List.nil_append]
    split
    · rename_i hnil; rw [hnil, lines_nil]
    · rename_i hne; exact lines_of_unterminated hlast hne
  | cons line terminated ih =>
    obtain ⟨hline, hterm⟩ := List.forall_mem_cons.1 hterm
    rw [unlines_cons, List.append_assoc, List.cons_append, lines_append_lineFeed hline, ih hterm]
    rfl

/-- Nothing stands behind the last line feed of a text that ends with one. -/
theorem IsLines.last_eq_nil {terminated : List (List Char)} {last : List Char}
    (h : IsLines text terminated last) (hend : text = [] ∨ text.getLast? = some '\n') :
    last = [] := by
  obtain ⟨rfl, -, hlast⟩ := h
  rcases hend with hnil | hlf
  · exact (List.append_eq_nil_iff.1 hnil).2
  · by_contra hne
    rw [List.getLast?_append_of_ne_nil _ hne] at hlf
    exact hlast (List.mem_of_getLast? hlf)

/-- What stands at the end of a text is ended like the text. -/
theorem ended_of_append (h : line ++ text = [] ∨ (line ++ text).getLast? = some '\n') :
    text = [] ∨ text.getLast? = some '\n' := by
  rw [or_iff_not_imp_left]
  intro hne
  rcases h with hnil | hlf
  · exact absurd (List.append_eq_nil_iff.1 hnil).2 hne
  · rwa [List.getLast?_append_of_ne_nil _ hne] at hlf

/-- **Lines that are put together fall apart again.** -/
theorem lines_unlines {ls : List (List Char)} (h : ∀ line ∈ ls, '\n' ∉ line) :
    lines (unlines ls) = ls.map (· ++ ['\n']) := by
  rw [lines_of_isLines ⟨(List.append_nil _).symm, h, List.not_mem_nil⟩, if_pos rfl, List.append_nil]

/-- **Lines can be told apart** behind their line feeds. -/
theorem unlines_inj {ls ls' : List (List Char)} (h : ∀ line ∈ ls, '\n' ∉ line)
    (h' : ∀ line ∈ ls', '\n' ∉ line) : unlines ls = unlines ls' ↔ ls = ls' := by
  constructor
  · intro heq
    have hlines := congrArg lines heq
    rw [lines_unlines h, lines_unlines h'] at hlines
    exact List.map_injective_iff.2 (List.append_left_injective _) hlines
  · rintro rfl
    rfl

theorem unlines_getLast? (ls : List (List Char)) (hne : unlines ls ≠ []) :
    (unlines ls).getLast? = some '\n' := by
  induction ls with
  | nil => exact absurd rfl hne
  | cons line ls ih =>
    rw [unlines_cons, List.getLast?_append, List.getLast?_cons]
    cases ls with
    | nil => rfl
    | cons next ls => rw [ih (by simp)]; rfl

/-! ## The line of a byte -/

theorem takeWhile_append_line (h : '\n' ∉ line) (text : List Char) :
    (line ++ text).takeWhile (· ≠ '\n') = line ++ text.takeWhile (· ≠ '\n') := by
  apply List.takeWhile_append_of_pos
  intro c hc
  rw [decide_eq_true_eq]
  rintro rfl
  exact h hc

theorem firstLine_append (h : '\n' ∉ line) (text : List Char) :
    firstLine (line ++ text) = line ++ firstLine text := by
  have hmem : '\n' ∈ line ++ text ↔ '\n' ∈ text := by simp [h]
  unfold firstLine
  rw [takeWhile_append_line h, List.append_assoc]
  simp only [hmem]

@[simp] theorem firstLine_lineFeed (text : List Char) : firstLine ('\n' :: text) = ['\n'] := by
  simp [firstLine]

/-- It starts with what the text starts with. -/
theorem firstLine_cons (c : Char) (text : List Char) :
    ∃ line, firstLine (c :: text) = c :: line := by
  by_cases hc : c = '\n'
  · exact ⟨[], by rw [hc, firstLine_lineFeed]⟩
  · exact ⟨firstLine text, @firstLine_append [c] (by simpa using Ne.symm hc) text⟩

theorem lines_eq_firstLine_cons (hne : text ≠ []) :
    ∃ rest, lines text = firstLine text :: rest := by
  by_cases hmem : '\n' ∈ text
  · obtain ⟨line, rest, rfl, hline⟩ := List.eq_append_cons_of_mem hmem
    exact ⟨lines rest, by
      rw [lines_append_lineFeed hline, firstLine_append hline, firstLine_lineFeed]⟩
  · refine ⟨[], ?_⟩
    have hfirst := firstLine_append hmem []
    rw [List.append_nil] at hfirst
    rw [lines_of_unterminated hmem hne, hfirst]
    simp [firstLine]

/-- A byte of the first line. -/
theorem lineFrom?_firstLine {number offset : Nat} (h : offset < byteLength (firstLine text)) :
    lineFrom? number (lines text) offset = some ⟨number, firstLine text, offset⟩ := by
  have hne : text ≠ [] := by
    rintro rfl
    exact absurd h (Nat.not_lt_zero _)
  obtain ⟨rest, hlines⟩ := lines_eq_firstLine_cons hne
  rw [hlines, lineFrom?, if_pos h]

/-- A byte of the first line, the line feed that ends it included. -/
theorem lineFrom?_first {number offset : Nat} (h : '\n' ∉ line) (hoffset : offset ≤ byteLength line) :
    lineFrom? number (lines (line ++ '\n' :: text)) offset =
      some ⟨number, line ++ ['\n'], offset⟩ := by
  have hfirst : firstLine (line ++ '\n' :: text) = line ++ ['\n'] := by
    rw [firstLine_append h, firstLine_lineFeed]
  have hlt : offset < byteLength (firstLine (line ++ '\n' :: text)) := by
    have hlf : byteLength ['\n'] = 1 := rfl
    rw [hfirst, byteLength_append, hlf]
    omega
  rw [lineFrom?_firstLine hlt, hfirst]

/-- A byte behind the first line. -/
theorem lineFrom?_later {number offset : Nat} (h : '\n' ∉ line) :
    lineFrom? number (lines (line ++ '\n' :: text)) (byteLength (line ++ ['\n']) + offset) =
      lineFrom? (number + 1) (lines text) offset := by
  rw [lines_append_lineFeed h, lineFrom?, if_neg (by omega), Nat.add_sub_cancel_left]

/-- **Whole lines before a byte** are counted. -/
theorem lineFrom?_behind {before : List Char} {number offset : Nat}
    (h : before = [] ∨ before.getLast? = some '\n') :
    lineFrom? number (lines (before ++ text)) (byteLength before + offset) =
      lineFrom? (number + before.count '\n') (lines text) offset := by
  induction before using lines_induction generalizing number with
  | single line hline =>
    rcases h with rfl | hlast
    · rw [byteLength_nil, Nat.zero_add]
      rfl
    · exact absurd (List.mem_of_getLast? hlast) hline
  | cons line rest hline ih =>
    have hrest : rest = [] ∨ rest.getLast? = some '\n' := by
      have hended := @ended_of_append (line ++ ['\n']) rest
      rw [List.append_assoc] at hended
      exact hended h
    have hsplit : line ++ '\n' :: rest = (line ++ ['\n']) ++ rest := by simp
    have hcount : (line ++ '\n' :: rest).count '\n' = rest.count '\n' + 1 := by
      rw [List.count_append, List.count_eq_zero_of_not_mem hline, List.count_cons_self, Nat.zero_add]
    have hlen : byteLength (line ++ '\n' :: rest) + offset =
        byteLength (line ++ ['\n']) + (byteLength rest + offset) := by
      rw [hsplit, byteLength_append, Nat.add_assoc]
    rw [hlen, hcount, List.append_assoc, List.cons_append, lineFrom?_later hline, ih hrest]
    congr 1
    omega

/-! ## Carriage returns -/

/-- A line has a return at its end or none. -/
theorem withoutReturn_cases (line : List Char) :
    line = withoutReturn line ++ ['\r'] ∨
      (withoutReturn line = line ∧ line.getLast? ≠ some '\r') := by
  unfold withoutReturn
  split
  · rename_i h
    obtain ⟨body, rfl⟩ := List.getLast?_eq_some_iff.1 h
    left; simp
  · rename_i h
    exact .inr ⟨rfl, h⟩

theorem withoutReturn_prefix (line : List Char) : withoutReturn line <+: line := by
  rcases withoutReturn_cases line with h | ⟨h, -⟩
  · exact ⟨['\r'], h.symm⟩
  · rw [h]

theorem withoutReturn_of_not_mem (h : '\r' ∉ line) : withoutReturn line = line := by
  rcases withoutReturn_cases line with heq | ⟨heq, -⟩
  · rw [heq] at h
    simp at h
  · exact heq

/-- What is left of a line without its line feed is the line without a return. -/
theorem lineBody_eq_withoutReturn (line : List Char) :
    lineBody (line ++ ['\n']) = withoutReturn line := by
  unfold lineBody withoutReturn
  rw [if_pos (by simp), List.dropLast_concat]

theorem dropReturns_append (h : '\n' ∉ line) :
    dropReturns (line ++ '\n' :: text) = withoutReturn line ++ '\n' :: dropReturns text := by
  induction line with
  | nil => simp [dropReturns, withoutReturn]
  | cons c line ih =>
    obtain ⟨hc, hline⟩ := not_or.1 (mt List.mem_cons.2 h)
    rw [List.cons_append, dropReturns, ih hline]
    cases line with
    | nil =>
      -- the return may stand directly before the line feed
      by_cases hr : c = '\r'
      · simp [hr, withoutReturn]
      · simp [hr, withoutReturn]
    | cons d line =>
      have hd : d ≠ '\n' := fun hd => hline (hd ▸ List.mem_cons_self)
      rw [if_neg (by simp [hd])]
      simp only [withoutReturn, List.getLast?_cons_cons, List.dropLast_cons_cons]
      split <;> rfl

/-- Line by line: the returns that stand directly before a line feed end a line. -/
theorem dropReturns_unlines {ls : List (List Char)} (h : ∀ line ∈ ls, '\n' ∉ line) :
    dropReturns (unlines ls) = unlines (ls.map withoutReturn) := by
  induction ls with
  | nil => rfl
  | cons line ls ih =>
    obtain ⟨hline, hls⟩ := List.forall_mem_cons.1 h
    rw [unlines_cons, dropReturns_append hline, ih hls, List.map_cons, unlines_cons]

theorem length_dropReturns_le (text : List Char) : (dropReturns text).length ≤ text.length := by
  induction text with
  | nil => exact Nat.le_refl _
  | cons c text ih =>
    rw [dropReturns]
    split <;> simp only [List.length_cons] <;> omega

/-- **A text keeps its returns** exactly if none of them stands before a line feed. -/
theorem dropReturns_eq_self_iff : dropReturns text = text ↔ ¬ ['\r', '\n'] <:+: text := by
  induction text with
  | nil => simp [dropReturns]
  | cons c text ih =>
    rw [List.infix_cons_iff, List.cons_prefix_cons, List.singleton_prefix_iff_head?_eq_some,
      dropReturns, not_or, ← ih]
    by_cases hc : c = '\r' ∧ text.head? = some '\n'
    -- dropping a return makes the text shorter for good
    · have hlen := length_dropReturns_le text
      rw [if_pos hc]
      refine iff_of_false (fun h => ?_) (fun h => h.1 ⟨hc.1.symm, hc.2⟩)
      have := congrArg List.length h
      rw [List.length_cons] at this
      omega
    · rw [if_neg hc, List.cons.injEq]
      exact ⟨fun h => ⟨fun h' => hc ⟨h'.1.symm, h'.2⟩, h.2⟩, fun h => ⟨rfl, h.2⟩⟩

/-- A single line has no return to drop. -/
theorem dropReturns_of_not_mem (h : '\n' ∉ line) : dropReturns line = line := by
  rw [dropReturns_eq_self_iff]
  exact fun hpair => h (hpair.subset (by simp))

/-- Of two returns the second stands before the line feed, and one at the end stands before none. -/
example : dropReturns "a\r\r\nb\r".toList = "a\r\nb\r".toList := rfl

end Lexis.Text
