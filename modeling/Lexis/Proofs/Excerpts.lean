import Lexis.Proofs.NormalForm
import Lexis.Report
import Mathlib.Data.List.Forall2

/-!
# What a report shows of a text

A report finds the line of a byte and shows it without its indentation and without its end.

* `lt_length_trimEnd_iff`: a text is shown up to its last character that is no white space.
* `Excerpt.ofPlace_concat`: the blank that ends a line is not shown.
* `report_eq`: **a report depends on the fault, the file and the excerpt** and on nothing else.
* `shownAlike_dropReturns`: words keep their texts and their excerpts if the returns before line
  feeds are dropped.
-/

namespace Lexis

open Text (isBlank byteLength lines lineFrom? withoutReturn dropReturns Word wordsFrom)

variable {number offset column : Nat} {line rest text : List Char} {c : Char}

/-! ## Lines as they are shown -/

/-- Only what a line starts with indents it. -/
theorem indentation_append (h : ∀ c ∈ rest.head?, c ≠ ' ' ∧ c ≠ '\t') :
    indentation (line ++ rest) = indentation line := by
  have hrest : rest.takeWhile (fun c => c = ' ' || c = '\t') = [] := by
    cases rest with
    | nil => rfl
    | cons c rest => exact List.takeWhile_cons_of_neg (by simp [h c rfl])
  unfold indentation
  rw [List.takeWhile_append, hrest, List.append_nil]
  split
  · rename_i hlen
    exact ((List.takeWhile_prefix _).eq_of_length hlen).symm
  · rfl

theorem length_indentation_le (line : List Char) : (indentation line).length ≤ line.length :=
  (List.takeWhile_prefix _).length_le

/-- A place where neither a space nor a tab stands is behind the indentation. -/
theorem length_indentation_append_le (h : ∀ c ∈ rest.head?, c ≠ ' ' ∧ c ≠ '\t') :
    (indentation (line ++ rest)).length ≤ line.length := by
  rw [indentation_append h]
  exact length_indentation_le line

theorem trimEnd_concat (h : isBlank c = true) : trimEnd (line ++ [c]) = trimEnd line := by
  have hspace := Text.isSpace_of_isBlank h
  unfold trimEnd
  rw [List.reverse_concat, List.dropWhile_cons_of_pos hspace]

theorem trimEnd_isPrefix (text : List Char) : trimEnd text <+: text :=
  List.rdropWhile_prefix _ _

/-- **Without the white space at its end** a text is left up to its last other character. -/
theorem lt_length_trimEnd_iff :
    column < (trimEnd text).length ↔ ∃ d ∈ text.drop column, Text.isSpace d = false := by
  have htext : trimEnd text ++ text.rtakeWhile Text.isSpace = text :=
    List.rdropWhile_append_rtakeWhile
  constructor
  · intro hlt
    -- the last character that is left is behind the column, or there
    have hdrop : (trimEnd text).drop column ≠ [] := by
      rw [Ne, List.drop_eq_nil_iff]
      omega
    obtain ⟨d, hd⟩ := Option.ne_none_iff_exists'.1 (mt List.getLast?_eq_none_iff.1 hdrop)
    refine ⟨d, ?_, ?_⟩
    · exact ((trimEnd_isPrefix text).drop column).subset (List.mem_of_getLast? hd)
    · rw [List.getLast?_drop, if_neg (by omega)] at hd
      exact Text.getLast?_rdropWhile d hd
  · rintro ⟨d, hd, hspace⟩
    by_contra hge
    obtain ⟨more, rfl⟩ := Nat.exists_eq_add_of_le (Nat.not_lt.1 hge)
    have hdrop : text.drop ((trimEnd text).length + more) =
        (text.rtakeWhile Text.isSpace).drop more := by
      calc text.drop ((trimEnd text).length + more)
        _ = (trimEnd text ++ text.rtakeWhile Text.isSpace).drop ((trimEnd text).length + more) := by
          rw [htext]
        _ = (text.rtakeWhile Text.isSpace).drop more := List.drop_length_add_append more
    rw [hdrop] at hd
    have hspaces := List.mem_rtakeWhile_imp (List.mem_of_mem_drop hd)
    rw [hspace] at hspaces
    cases hspaces

/-- **Whether a character is shown** depends on what follows it: it is not if that is white space
alone, and the character, too. -/
theorem getElem?_trimEnd (hc : text[column]? = some c) :
    (trimEnd text)[column]? = some c ↔ ∃ d ∈ text.drop column, Text.isSpace d = false := by
  rw [← lt_length_trimEnd_iff]
  constructor
  · intro h
    exact (List.getElem?_eq_some_iff.1 h).1
  · intro hlt
    obtain ⟨rest, hrest⟩ := trimEnd_isPrefix text
    rwa [← hrest, List.getElem?_append_left hlt] at hc

/-- **A blank at the end of a line is not shown**, unless it indents the line. -/
theorem Excerpt.ofPlace_concat (hblank : isBlank c = true) (hspace : c ≠ ' ') (htab : c ≠ '\t') :
    Excerpt.ofPlace ⟨number, line ++ [c], offset⟩ = Excerpt.ofPlace ⟨number, line, offset⟩ := by
  have hindent : indentation (line ++ [c]) = indentation line :=
    indentation_append (by simp [hspace, htab])
  unfold Excerpt.ofPlace
  rw [hindent,
    List.drop_append_of_le_length (length_indentation_le line), trimEnd_concat hblank]

/-- The line feed that ends a line is not shown. -/
theorem Excerpt.ofPlace_firstLine :
    Excerpt.ofPlace ⟨number, line ++ Text.firstLine rest, offset⟩ =
      Excerpt.ofPlace ⟨number, line ++ rest.takeWhile (· ≠ '\n'), offset⟩ := by
  unfold Text.firstLine
  rw [← List.append_assoc]
  split
  · exact Excerpt.ofPlace_concat rfl (by decide) (by decide)
  · rw [List.append_nil]

theorem ofPlace_withoutReturn (line : List Char) :
    Excerpt.ofPlace ⟨number, line ++ ['\n'], offset⟩ =
      Excerpt.ofPlace ⟨number, withoutReturn line ++ ['\n'], offset⟩ := by
  have hlf : ∀ line, Excerpt.ofPlace ⟨number, line ++ ['\n'], offset⟩ =
      Excerpt.ofPlace ⟨number, line, offset⟩ :=
    fun _ => Excerpt.ofPlace_concat rfl (by decide) (by decide)
  rw [hlf, hlf]
  rcases Text.withoutReturn_cases line with h | ⟨h, -⟩
  · conv_lhs => rw [h]
    exact Excerpt.ofPlace_concat rfl (by decide) (by decide)
  · rw [h]

/-! ## Excerpts -/

/-- The excerpt for a byte of a text whose first line has a given number. -/
def excerptFrom? (number : Nat) (text : List Char) (offset : Nat) : Option Excerpt :=
  (lineFrom? number (lines text) offset).map .ofPlace

theorem excerptFrom?_first (h : '\n' ∉ line) (hoffset : offset ≤ byteLength line) :
    excerptFrom? number (line ++ '\n' :: rest) offset =
      some (.ofPlace ⟨number, line ++ ['\n'], offset⟩) := by
  rw [excerptFrom?, Text.lineFrom?_first h hoffset]
  rfl

theorem excerptFrom?_later (h : '\n' ∉ line) :
    excerptFrom? number (line ++ '\n' :: rest) (byteLength (line ++ ['\n']) + offset) =
      excerptFrom? (number + 1) rest offset := by
  rw [excerptFrom?, Text.lineFrom?_later h]
  rfl

/-- **A report depends on the fault, the file and the excerpt.** -/
theorem report_eq {e e' : Error} {text' : List Char} (hfault : e.fault = e'.fault)
    (hfile : e.position.file = e'.position.file)
    (hexcerpt : excerptFrom? 1 text e.position.offset.toNat =
      excerptFrom? 1 text' e'.position.offset.toNat) :
    Report.ofError e text = Report.ofError e' text' := by
  unfold Report.ofError
  rw [hfault, hfile]
  exact congrArg _ hexcerpt

/-! ## Words as they are shown -/

/-- **A word of each of two texts, shown alike**: the same characters, and the same excerpt. -/
structure ShownAlike (number : Nat) (text text' : List Char) (w w' : Word) : Prop where
  same : w.text = w'.text
  left : w.start < byteLength text
  right : w'.start < byteLength text'
  excerpt : excerptFrom? number text w.start = excerptFrom? number text' w'.start

variable {line' rest' : List Char} {w w' : Word}

/-- The first line with its return and without. -/
theorem shownAlike_first (h : '\n' ∉ line) (hw : w.start < byteLength line)
    (hw' : w.start < byteLength (withoutReturn line)) :
    ShownAlike number (line ++ '\n' :: rest) (withoutReturn line ++ '\n' :: rest') w w := by
  have h' : '\n' ∉ withoutReturn line := fun hc => h ((Text.withoutReturn_prefix line).subset hc)
  refine ⟨rfl, ?_, ?_, ?_⟩
  · rw [Text.byteLength_append]; omega
  · rw [Text.byteLength_append]; omega
  · rw [excerptFrom?_first h (by omega), excerptFrom?_first h' (by omega), ofPlace_withoutReturn]

/-- Behind a line of each text everything moves on. -/
theorem ShownAlike.later (h : '\n' ∉ line) (h' : '\n' ∉ line')
    (hw : ShownAlike (number + 1) rest rest' w w') :
    ShownAlike number (line ++ '\n' :: rest) (line' ++ '\n' :: rest')
      (w.move (byteLength (line ++ ['\n']))) (w'.move (byteLength (line' ++ ['\n']))) := by
  obtain ⟨hsame, hleft, hright, hexcerpt⟩ := hw
  have hlen : ∀ a b : List Char,
      byteLength (a ++ '\n' :: b) = byteLength (a ++ ['\n']) + byteLength b := by
    intro a b
    rw [← Text.byteLength_append, List.append_assoc, List.singleton_append]
  unfold Word.move
  refine ⟨hsame, ?_, ?_, ?_⟩
  · show byteLength (line ++ ['\n']) + w.start < _
    have := hlen line rest
    omega
  · show byteLength (line' ++ ['\n']) + w'.start < _
    have := hlen line' rest'
    omega
  · rw [excerptFrom?_later h, excerptFrom?_later h', hexcerpt]

/-- **Returns before line feeds are not shown.** -/
theorem shownAlike_dropReturns (h : ∀ c ∈ text, Text.isAscii c = true) :
    List.Forall₂ (ShownAlike number text (dropReturns text)) (wordsFrom 0 text)
      (wordsFrom 0 (dropReturns text)) := by
  have hstart : ∀ {line w}, (∀ c ∈ line, Text.isAscii c = true) → w ∈ wordsFrom 0 line →
      w.start < byteLength line := by
    intro line w hline hw
    have := ((Text.mem_wordsFrom_iff hline).1 hw).start_lt
    omega
  have hbehind : ∀ {line rest : List Char}, (∀ c ∈ line, Text.isAscii c = true) →
      wordsFrom (0 + line.length + 1) rest =
        (wordsFrom 0 rest).map (Word.move (byteLength (line ++ ['\n']))) := by
    intro line rest hline
    have hlf : byteLength ['\n'] = 1 := rfl
    rw [← Text.wordsFrom_add, Text.byteLength_append, Text.byteLength_of_ascii hline, hlf]
    congr 1
    omega
  induction text using Text.lines_induction generalizing number with
  | single line hline =>
    rw [Text.dropReturns_of_not_mem hline, List.forall₂_same]
    intro w hw
    exact ⟨rfl, hstart h hw, hstart h hw, rfl⟩
  | cons line rest hline ih =>
    obtain ⟨hascii, hrest⟩ := List.forall_mem_append.1 h
    have hbody := Text.withoutReturn_prefix line
    have hascii' : ∀ c ∈ withoutReturn line, Text.isAscii c = true :=
      fun c hc => hascii c (hbody.subset hc)
    rw [Text.dropReturns_append hline, Text.wordsFrom_append_blank (by rfl),
      Text.wordsFrom_append_blank (by rfl), hbehind hascii, hbehind hascii']
    apply List.rel_append
    -- the words of the line are the same, those behind it have moved, by one more where the return was
    · rw [wordsFrom_withoutReturn, List.forall₂_same]
      intro w hw
      refine shownAlike_first hline (hstart hascii hw) (hstart hascii' ?_)
      rwa [wordsFrom_withoutReturn]
    · rw [List.forall₂_map_left_iff, List.forall₂_map_right_iff]
      refine (@ih (number + 1) (List.forall_mem_cons.1 hrest).2).imp ?_
      intro w w' hw
      exact hw.later hline fun hc => hline (hbody.subset hc)

end Lexis
