import Lexis.Proofs.Lookup

/-!
# Reports on any text

An error can be shown against any text, also against one that it does not come from. Its position may
lie inside a character, inside the indentation of a line or behind the end. The indentation is counted
in characters and cut off by bytes, which is the same for spaces and tabs; what a caret needs to be
shown is room.

* `fromByte?_indentation`: the cut behind the indentation is between two characters.
* `indent_bytes`: the indentation has as many bytes as characters.
* `Report.text?_ofError_eq_none_iff`: where there is no report.
* `Report.toList_ofError`: a report is its first two lines, and the excerpt of the line that is found.
* `report_safe`: **there is a report** unless the caret would stand too far right, and what it has.
-/

namespace Lexis

open Text (byteLength bytes unlines HoldsByte lineAt?)

variable {line text : List Char} {c : Char}

/-! ## The cut behind the indentation -/

namespace Text

/-- The text from a byte on. There is none where no character starts and the text does not end. -/
def fromByte? : List Char → Nat → Option (List Char)
  | text, 0 => some text
  | [], _ + 1 => none
  | c :: text, byte + 1 =>
    if c.utf8Size ≤ byte + 1 then fromByte? text (byte + 1 - c.utf8Size) else none

/-- Whether a byte is that of a space or a tab. -/
def isIndent (b : UInt8) : Bool := b = 0x20 || b = 0x09

/-- The number of spaces and tabs that a line starts with. -/
def indent (line : List UInt8) : Nat := (line.takeWhile isIndent).length

/-- Behind whole characters the text can be cut. -/
theorem fromByte?_append (front back : List Char) :
    fromByte? (front ++ back) (byteLength front) = some back := by
  induction front with
  | nil => rw [List.nil_append, byteLength_nil, fromByte?]
  | cons c front ih =>
    have hc := Char.utf8Size_pos c
    obtain ⟨n, hn⟩ : ∃ n, byteLength (c :: front) = n + 1 :=
      Nat.exists_eq_add_one.2 (by rw [byteLength_cons]; omega)
    have hrest : n + 1 - c.utf8Size = byteLength front := by
      rw [← hn, byteLength_cons, Nat.add_sub_cancel_left]
    rw [hn, List.cons_append, fromByte?, if_pos, hrest, ih]
    rw [← hn, byteLength_cons]
    exact Nat.le_add_right _ _

end Text

/-- Spaces and tabs are ASCII. -/
theorem byteLength_indentation (line : List Char) :
    byteLength (indentation line) = (indentation line).length := by
  apply Text.byteLength_of_ascii
  intro c hc
  have hblank := List.mem_takeWhile_imp hc
  simp only [Bool.or_eq_true, decide_eq_true_eq] at hblank
  rcases hblank with rfl | rfl <;> rfl

/-- **The cut behind the indentation** is between two characters, and what is left is the line
without its indentation. -/
theorem fromByte?_indentation (line : List Char) :
    Text.fromByte? line (indentation line).length =
      some (line.drop (indentation line).length) := by
  have hline : indentation line ++ line.drop (indentation line).length = line := by
    unfold indentation
    rw [Text.drop_length_takeWhile, List.takeWhile_append_dropWhile]
  have hcut := Text.fromByte?_append (indentation line) (line.drop (indentation line).length)
  rwa [hline, byteLength_indentation] at hcut

/-- **The indentation in bytes.** -/
theorem indent_bytes (line : List Char) : Text.indent (bytes line) = (indentation line).length := by
  induction line with
  | nil => rfl
  | cons c line ih =>
    -- a byte of a space or a tab is in no other character, so the run ends at the same place
    have hspace : (0x20 : UInt8) ∈ String.utf8EncodeChar c ↔ c = ' ' := Text.mem_encode_iff rfl rfl
    have htab : (0x09 : UInt8) ∈ String.utf8EncodeChar c ↔ c = '\t' := Text.mem_encode_iff rfl rfl
    unfold Text.indent indentation at ih ⊢
    by_cases hc : c = ' ' ∨ c = '\t'
    · have hbytes : bytes (c :: line) = UInt8.ofNat c.toNat :: bytes line := by
        rcases hc with rfl | rfl <;> rfl
      rw [hbytes, List.takeWhile_cons_of_pos, List.takeWhile_cons_of_pos, List.length_cons,
        List.length_cons, ih]
      · simpa using hc
      · rcases hc with rfl | rfl <;> rfl
    · obtain ⟨b, spelling, hbytes⟩ :=
        List.exists_cons_of_ne_nil (String.utf8EncodeChar_ne_nil (c := c))
      have hb : ¬ Text.isIndent b = true := by
        rw [Text.isIndent, Bool.or_eq_true, decide_eq_true_eq, decide_eq_true_eq]
        have hmem : b ∈ String.utf8EncodeChar c := by simp [hbytes]
        rintro (rfl | rfl)
        · exact hc (.inl (hspace.1 hmem))
        · exact hc (.inr (htab.1 hmem))
      rw [Text.bytes_cons, hbytes, List.cons_append, List.takeWhile_cons_of_neg hb,
        List.takeWhile_cons_of_neg (by simpa using hc)]
      rfl

/-! ## What a report has -/

/-- The first two lines of a report: what is wrong, and where. -/
def Report.head (r : Report) : String := s!"Error: {r.name} ({r.advice})\n-> {r.file}\n"

/-- The three lines of an excerpt, if there is one. -/
def Report.layout (r : Report) : List (List Char) := (r.excerpt?.map Excerpt.layout).getD []

/-- **A report is its first two lines**, and those of the excerpt. -/
theorem Report.toList_of_text? {r : Report} {shown : String} (h : r.text? = some shown) :
    shown.toList = r.head.toList ++ unlines r.layout := by
  unfold Report.text? at h
  unfold Report.layout
  cases hexcerpt : r.excerpt? with
  | none =>
    rw [hexcerpt] at h
    obtain rfl := Option.some.inj h
    exact (List.append_nil _).symm
  | some e =>
    rw [hexcerpt] at h
    simp only at h
    split at h
    · obtain rfl := Option.some.inj h
      rw [String.toList_append, Excerpt.toList_text]
      rfl
    · cases h

section

variable (error : Error) (text : List Char)

theorem Report.excerpt?_ofError : (ofError error text).excerpt? =
    (lineAt? text error.position.offset.toNat).map .ofPlace := rfl

/-- **There is no report** exactly where the caret of a byte of the text has no room. -/
theorem Report.text?_ofError_eq_none_iff : (ofError error text).text? = none ↔
    ∃ line column, HoldsByte (bytes text) error.position.offset.toNat line column ∧
      65535 < column - Text.indent line + 1 := by
  rw [text?_eq_none_iff, excerpt?_ofError]
  constructor
  · rintro ⟨e, he, hwide⟩
    obtain ⟨place, hplace, rfl⟩ := Option.map_eq_some_iff.1 he
    obtain ⟨hholds, -⟩ := Text.holdsByte_of_lineAt? hplace
    refine ⟨_, _, hholds, ?_⟩
    rw [indent_bytes]
    exact hwide
  · rintro ⟨line, column, hholds, hwide⟩
    obtain ⟨place, hplace⟩ := Text.exists_lineAt?_of_lt hholds.lt_length
    obtain ⟨hholds', -⟩ := Text.holdsByte_of_lineAt? hplace
    obtain ⟨rfl, rfl⟩ := hholds'.unique hholds
    rw [indent_bytes] at hwide
    exact ⟨.ofPlace place, congrArg (Option.map _) hplace, hwide⟩

/-- Behind the text there is nothing to show. -/
theorem Report.text?_ofError_of_le (h : (bytes text).length ≤ error.position.offset.toNat) :
    (ofError error text).text? = some (ofError error text).head := by
  have hnone : (ofError error text).excerpt? = none := by
    rw [excerpt?_ofError, Text.lineAt?_eq_none_iff.2 h]
    rfl
  unfold text?
  rw [hnone]
  rfl

/-- **What a report has** of the line that is found. -/
theorem Report.toList_ofError {place : Text.Place} {shown : String}
    (hplace : lineAt? text error.position.offset.toNat = some place)
    (hshown : (ofError error text).text? = some shown) :
    shown.toList = (ofError error text).head.toList ++ unlines (Excerpt.ofPlace place).layout := by
  rw [toList_of_text? hshown, layout, excerpt?_ofError, hplace]
  rfl

end

/-- The number of a line has at most ten digits, so the margin always has room. -/
theorem length_digits_le {place : Text.Place} {position : UInt32}
    (h : lineAt? text position.toNat = some place) :
    (Nat.toDigits 10 place.number).length ≤ 10 := by
  obtain ⟨-, hnumber⟩ := Text.holdsByte_of_lineAt? h
  have hcount := List.count_le_length (a := Text.lineFeed) (l := (bytes text).take position.toNat)
  have hlt := position.toNat_lt
  rw [List.length_take] at hcount
  rw [Nat.length_toDigits_le_iff (by decide) (by decide)]
  omega

/-- **There is a report** of every error against every text, unless the caret would stand too far
right. Of a position behind the text it has the first two lines alone. Otherwise it has the line that
holds the byte as well, without its indentation, and the caret behind as many dashes as the byte's
place in the line has more than the indentation. The cut behind the indentation is between two
characters, the place in the line is the position less the bytes before the line, of which there are
no more (`HoldsByte.parts`), and the margin has room. -/
theorem report_safe (error : Error) (text : List Char) :
    let position := error.position.offset.toNat
    let report := Report.ofError error text
    (report.text? = none ↔ position < (bytes text).length ∧ ∃ line column,
      HoldsByte (bytes text) position line column ∧ 65535 < column - Text.indent line + 1) ∧
    ((bytes text).length ≤ position → report.text? = some report.head) ∧
    (position < (bytes text).length → ∃ place, lineAt? text position = some place ∧
      HoldsByte (bytes text) position (bytes place.line) place.column ∧
      let indent := Text.indent (bytes place.line)
      let digits := Nat.toDigits 10 place.number
      let margin := List.replicate (digits.length + 1) ' '
      Text.fromByte? place.line indent = some (place.line.drop indent) ∧
      digits.length + 2 ≤ 65535 ∧
      ∀ shown, report.text? = some shown → shown.toList = report.head.toList ++ unlines
        [margin ++ ['|'], digits ++ [' ', '|', ' '] ++ trimEnd (place.line.drop indent),
          margin ++ ['|', ' '] ++ List.replicate (place.column - indent) '-' ++ ['^']]) := by
  intro position report
  refine ⟨?_, Report.text?_ofError_of_le error text, ?_⟩
  · rw [Report.text?_ofError_eq_none_iff]
    constructor
    · rintro ⟨line, column, hholds, hwide⟩
      exact ⟨hholds.lt_length, line, column, hholds, hwide⟩
    · rintro ⟨-, hwide⟩
      exact hwide
  · intro hlt
    obtain ⟨place, hplace⟩ := Text.exists_lineAt?_of_lt hlt
    obtain ⟨hholds, -⟩ := Text.holdsByte_of_lineAt? hplace
    have hdigits := length_digits_le hplace
    refine ⟨place, hplace, hholds, ?_⟩
    rw [indent_bytes]
    refine ⟨fromByte?_indentation place.line, by omega, ?_⟩
    intro shown hshown
    exact Report.toList_ofError error text hplace hshown

/-- The second byte of a euro sign behind a tab, and a position behind the text; and a caret that has
room behind 65534 dashes, but not behind one more. -/
theorem report_safe_anywhere :
    let text := "x\n\t€y".toList
    let wide := List.replicate 65536 'a'
    let report (offset : UInt32) := Report.ofError ⟨.unrecognized "?", ⟨offset, "f"⟩⟩
    (4 < (bytes text).length ∧ ∃ shown, (report 4 text).text? = some shown ∧ shown.toList =
      (report 4 text).head.toList ++
        unlines ["  |".toList, "2 | €y".toList, "  | -^".toList]) ∧
    ((bytes text).length ≤ 7 ∧ (report 7 text).text? = some (report 7 text).head) ∧
    (report 65535 wide).text? = none ∧ (report 65534 wide).text? ≠ none := by
  intro text wide report
  have hinside : 4 < (bytes text).length := by decide
  have hbehind : (bytes text).length ≤ 7 := by decide
  have hplace : lineAt? text 4 = some ⟨2, "\t€y".toList, 2⟩ := by decide
  have hlength : byteLength wide = 65536 := by
    have hascii : ∀ c ∈ wide, Text.isAscii c = true := by
      intro c hc
      rw [List.eq_of_mem_replicate hc]
      rfl
    rw [Text.byteLength_of_ascii hascii, List.length_replicate]
  have hline : ∀ p < 65536, HoldsByte (bytes wide) p (bytes wide) p := by
    intro p hp
    refine Text.holdsByte_of_not_mem (fun hmem => ?_) (hlength.symm ▸ hp)
    cases List.eq_of_mem_replicate hmem
  have hindent : Text.indent (bytes wide) = 0 := by
    rw [indent_bytes]
    rfl
  refine ⟨⟨hinside, ?_⟩, ⟨hbehind, ?_⟩, ?_, ?_⟩
  · obtain ⟨hnone, -, hshown⟩ := report_safe ⟨.unrecognized "?", ⟨4, "f"⟩⟩ text
    obtain ⟨place, hfound, hholds, -, -, hshown⟩ := hshown hinside
    obtain rfl := Option.some.inj (hplace.symm.trans hfound)
    cases htext : (report 4 text).text? with
    | none =>
      obtain ⟨-, line, column, hholds', hwide⟩ := hnone.1 htext
      obtain ⟨rfl, rfl⟩ := hholds.unique hholds'
      exact absurd hwide (by decide)
    | some shown => exact ⟨shown, rfl, hshown shown htext⟩
  · obtain ⟨-, hhead, -⟩ := report_safe ⟨.unrecognized "?", ⟨7, "f"⟩⟩ text
    exact hhead hbehind
  · obtain ⟨hnone, -, -⟩ := report_safe ⟨.unrecognized "?", ⟨65535, "f"⟩⟩ wide
    refine hnone.2 ⟨?_, _, _, hline 65535 (by decide), ?_⟩
    · rw [Text.length_bytes, hlength]
      decide
    · rw [hindent]
      decide
  · obtain ⟨hnone, -, -⟩ := report_safe ⟨.unrecognized "?", ⟨65534, "f"⟩⟩ wide
    intro htext
    obtain ⟨-, line, column, hholds, hwide⟩ := hnone.1 htext
    obtain ⟨rfl, rfl⟩ := (hline 65534 (by decide)).unique hholds
    rw [hindent] at hwide
    exact absurd hwide (by decide)

end Lexis
