import Lexis.Proofs.Carets
import Lexis.Proofs.Encoding

/-!
# The line that holds a byte

A place in a text is told by a byte, which may lie inside a character. `HoldsByte` says what the
line of a byte is, by the bytes of the text alone and without any search.

* `HoldsByte.unique`: a byte lies in one line, at one column.
* `exists_char_of_lt`: and in one of the characters.
* `holdsByte_of_drop`: the line of that character holds the byte.
* `lineAt?_eq_none_iff`, `lineAt?_eq_some_iff`: what is found of a byte.
* `lookup_holds_byte`: **the line of a byte is found**, with its number, for every byte of the text and
  for no other position.
-/

namespace Lexis.Text

/-- The bytes of a text in UTF-8. -/
def bytes (text : List Char) : List UInt8 := text.flatMap String.utf8EncodeChar

/-- The byte that a line feed is written with. -/
def lineFeed : UInt8 := 0x0A

/-- **The line that holds a byte.** It starts where the bytes start or behind a line feed, and goes on
to where they end or through a line feed. It has no line feed but at its end, so it starts behind the
last one before the byte and ends with the first one from the byte on. -/
structure HoldsByte (all : List UInt8) (position : Nat) (line : List UInt8) (column : Nat) : Prop where
  inside : column < line.length
  unbroken : lineFeed ∉ line.dropLast
  parts : ∃ before behind, all = before ++ (line ++ behind) ∧ before.length + column = position ∧
    (before = [] ∨ before.getLast? = some lineFeed) ∧ (behind = [] ∨ line.getLast? = some lineFeed)

variable {all line line' : List UInt8} {position column column' offset byte : Nat}
variable {text rest : List Char} {c : Char}

/-! ## One line -/

theorem mem_dropLast_of_getElem? {i : Nat} {b : UInt8} (h : all[i]? = some b)
    (hlt : i + 1 < all.length) : b ∈ all.dropLast := by
  apply List.mem_of_getElem? (i := i)
  rw [List.getElem?_dropLast, if_pos (by omega), h]

/-- The byte of the line is the byte of the text. -/
theorem HoldsByte.getElem? {own : List UInt8} (h : HoldsByte all position own column) :
    own[column]? = all[position]? := by
  obtain ⟨hinside, -, before, behind, rfl, rfl, -, -⟩ := h
  rw [List.getElem?_append_right (Nat.le_add_right _ _), Nat.add_sub_cancel_left,
    List.getElem?_append_left hinside]

theorem HoldsByte.lt_length (h : HoldsByte all position line column) : position < all.length := by
  obtain ⟨hinside, -, before, behind, rfl, rfl, -, -⟩ := h
  rw [List.length_append, List.length_append]
  omega

/-- No line of a byte starts behind another one: the line feed before it would break that one. -/
theorem length_le_of_holds {before behind before' behind' : List UInt8}
    (hall : before ++ (line ++ behind) = before' ++ (line' ++ behind'))
    (hinside : column < line.length) (hunbroken : lineFeed ∉ line.dropLast)
    (hcolumn : before.length + column = before'.length + column')
    (hstart : before' = [] ∨ before'.getLast? = some lineFeed) :
    before'.length ≤ before.length := by
  by_contra hlt
  have hne : before' ≠ [] := by
    rintro rfl
    exact hlt (Nat.zero_le _)
  have hlast := hstart.resolve_left hne
  rw [List.getLast?_eq_getElem?] at hlast
  -- the last line feed of `before'` is in the line, before the byte
  have hbyte := congrArg (·[before'.length - 1]?) hall
  rw [List.getElem?_append_right (by omega), List.getElem?_append_left (by omega),
    List.getElem?_append_left (by omega), hlast] at hbyte
  exact hunbroken (mem_dropLast_of_getElem? hbyte (by omega))

/-- No line of a byte ends behind another one that starts where it starts. -/
theorem length_le_of_append {behind behind' : List UInt8} (hall : line ++ behind = line' ++ behind')
    (hne : line' ≠ []) (hunbroken : lineFeed ∉ line.dropLast)
    (hend : behind' = [] ∨ line'.getLast? = some lineFeed) : line.length ≤ line'.length := by
  by_contra hlt
  have hpos := List.length_pos_iff.2 hne
  have hbehind : behind' ≠ [] := by
    rintro rfl
    have hlen := congrArg List.length hall
    rw [List.append_nil, List.length_append] at hlen
    omega
  have hlast := hend.resolve_left hbehind
  rw [List.getLast?_eq_getElem?] at hlast
  have hbyte := congrArg (·[line'.length - 1]?) hall
  rw [List.getElem?_append_left (by omega), List.getElem?_append_left (by omega), hlast] at hbyte
  exact hunbroken (mem_dropLast_of_getElem? hbyte (by omega))

/-- **A byte lies in one line**, at one column. -/
theorem HoldsByte.unique (h : HoldsByte all position line column)
    (h' : HoldsByte all position line' column') : line = line' ∧ column = column' := by
  obtain ⟨hinside, hunbroken, before, behind, hparts, hposition, hstart, hend⟩ := h
  obtain ⟨hinside', hunbroken', before', behind', hparts', hposition', hstart', hend'⟩ := h'
  have hall := hparts.symm.trans hparts'
  have hcolumn := hposition.trans hposition'.symm
  have hbefore : before.length = before'.length := Nat.le_antisymm
    (length_le_of_holds hall.symm hinside' hunbroken' hcolumn.symm hstart)
    (length_le_of_holds hall hinside hunbroken hcolumn hstart')
  obtain ⟨-, hrest⟩ := List.append_inj hall hbefore
  have hne : line ≠ [] := List.length_pos_iff.1 (by omega)
  have hne' : line' ≠ [] := List.length_pos_iff.1 (by omega)
  have hline : line.length = line'.length := Nat.le_antisymm
    (length_le_of_append hrest hne' hunbroken hend')
    (length_le_of_append hrest.symm hne hunbroken' hend)
  exact ⟨(List.append_inj hrest hline).1, by omega⟩

/-! ## The bytes of a text -/

@[simp] theorem bytes_nil : bytes [] = [] := rfl

@[simp] theorem bytes_cons (c : Char) (text : List Char) :
    bytes (c :: text) = String.utf8EncodeChar c ++ bytes text := List.flatMap_cons

@[simp] theorem bytes_append (a b : List Char) : bytes (a ++ b) = bytes a ++ bytes b :=
  List.flatMap_append

@[simp] theorem length_bytes (text : List Char) : (bytes text).length = byteLength text := by
  induction text with
  | nil => rfl
  | cons c text ih => rw [bytes_cons, List.length_append, ih, String.length_utf8EncodeChar,
      byteLength_cons]

/-- Texts differ in their bytes. -/
theorem bytes_injective : Function.Injective bytes := by
  intro a b h
  refine String.ofList_injective (String.toByteArray_inj.1 ?_)
  rw [String.toByteArray_ofList, String.toByteArray_ofList]
  exact congrArg List.toByteArray h

/-- **No character but an ASCII one has its byte.** -/
theorem mem_encode_iff {b : UInt8} {d : Char} (hd : isAscii d = true) (hb : b.toNat = d.toNat) :
    b ∈ String.utf8EncodeChar c ↔ c = d := by
  have hlow : b.toNat < 0x80 := hb ▸ of_decide_eq_true hd
  constructor
  · intro hmem
    exact Char.toNat_inj.1 (((Utf8.spells_encodeChar c).of_low hmem hlow).trans hb)
  · rintro rfl
    obtain ⟨a, hbytes, ha⟩ := (Utf8.encodes_iff.2 rfl : Utf8.Encodes _ c).of_ascii hd
    have hspells := Utf8.spells_encodeChar c
    rw [hbytes] at hspells ⊢
    have hchar := hspells.of_low (List.mem_singleton_self a) ha
    exact List.mem_singleton.2 (UInt8.toNat_inj.1 (hb.trans hchar))

theorem lineFeed_mem_encode : lineFeed ∈ String.utf8EncodeChar c ↔ c = '\n' :=
  mem_encode_iff rfl rfl

theorem lineFeed_mem_bytes : lineFeed ∈ bytes text ↔ '\n' ∈ text := by
  simp [bytes, lineFeed_mem_encode]

/-- The part of a character that stands before one of its bytes is no line feed. -/
theorem lineFeed_not_mem_take (hbyte : byte < c.utf8Size) :
    lineFeed ∉ (String.utf8EncodeChar c).take byte := by
  intro hmem
  obtain rfl := lineFeed_mem_encode.1 (List.mem_of_mem_take hmem)
  have hsize : Char.utf8Size '\n' = 1 := rfl
  obtain rfl : byte = 0 := by omega
  cases hmem

theorem count_bytes (text : List Char) : (bytes text).count lineFeed = text.count '\n' := by
  induction text with
  | nil => rfl
  | cons c text ih =>
    rw [bytes_cons, List.count_append, ih]
    by_cases hc : c = '\n'
    · rw [hc, List.count_cons_self, Nat.add_comm]
      rfl
    · rw [List.count_cons_of_ne hc, List.count_eq_zero_of_not_mem (mt lineFeed_mem_encode.1 hc),
        Nat.zero_add]

theorem getLast?_bytes (h : text.getLast? = some '\n') :
    (bytes text).getLast? = some lineFeed := by
  obtain ⟨body, rfl⟩ := List.getLast?_eq_some_iff.1 h
  exact List.getLast?_eq_some_iff.2 ⟨bytes body, bytes_append body ['\n']⟩

/-- A line feed that ends a text is its last byte. -/
theorem lineFeed_not_mem_dropLast (h : '\n' ∉ text.dropLast) :
    lineFeed ∉ (bytes text).dropLast := by
  rcases List.eq_nil_or_concat text with rfl | ⟨body, c, rfl⟩
  · exact List.not_mem_nil
  · rw [List.concat_eq_append, List.dropLast_concat] at h
    have hlast : bytes [c] = String.utf8EncodeChar c := by simp
    rw [List.concat_eq_append, bytes_append, hlast,
      List.dropLast_append_of_ne_nil String.utf8EncodeChar_ne_nil]
    refine List.not_mem_append (mt lineFeed_mem_bytes.1 h) ?_
    rw [List.dropLast_eq_take, String.length_utf8EncodeChar]
    exact lineFeed_not_mem_take (Nat.sub_lt (Char.utf8Size_pos c) Nat.one_pos)

/-! ## The line of a character -/

/-- **A byte lies in some character.** -/
theorem exists_char_of_lt (h : position < byteLength text) : ∃ offset c rest byte,
    text.drop offset = c :: rest ∧ byte < c.utf8Size ∧
      position = byteLength (text.take offset) + byte := by
  induction text generalizing position with
  | nil => exact absurd h (Nat.not_lt_zero _)
  | cons c text ih =>
    rw [byteLength_cons] at h
    by_cases hc : position < c.utf8Size
    · exact ⟨0, c, text, position, rfl, hc, (Nat.zero_add _).symm⟩
    · obtain ⟨offset, d, rest, byte, hdrop, hbyte, hposition⟩ :=
        @ih (position - c.utf8Size) (by omega)
      refine ⟨offset + 1, d, rest, byte, hdrop, hbyte, ?_⟩
      rw [List.take_succ_cons, byteLength_cons]
      omega

/-- A line goes on to a line feed, or to the end of the text. -/
theorem exists_firstLine_append (text : List Char) : ∃ behind, text = firstLine text ++ behind ∧
    '\n' ∉ (firstLine text).dropLast ∧
      (behind = [] ∨ (firstLine text).getLast? = some '\n') := by
  by_cases hmem : '\n' ∈ text
  · obtain ⟨line, behind, rfl, hline⟩ := List.eq_append_cons_of_mem hmem
    refine ⟨behind, ?_, ?_, .inr ?_⟩
    · rw [firstLine_append hline, firstLine_lineFeed]
      simp
    · rwa [firstLine_append hline, firstLine_lineFeed, List.dropLast_concat]
    · rw [firstLine_append hline, firstLine_lineFeed, List.getLast?_concat]
  · have hfirst : firstLine text = text := by
      have happend := firstLine_append hmem []
      have hnil : firstLine [] = [] := rfl
      rwa [hnil, List.append_nil] at happend
    rw [hfirst]
    exact ⟨[], (List.append_nil _).symm, fun h => hmem (List.dropLast_subset _ h), .inl rfl⟩

/-- The bytes before a byte are those of the characters before its own, and the first of its own. -/
theorem take_bytes (hdrop : text.drop offset = c :: rest) (hbyte : byte < c.utf8Size) :
    (bytes text).take (byteLength (text.take offset) + byte) =
      bytes (text.take offset) ++ (String.utf8EncodeChar c).take byte := by
  have hsize : byte ≤ (String.utf8EncodeChar c).length := by
    rw [String.length_utf8EncodeChar]
    omega
  have htext : bytes text =
      bytes (text.take offset) ++ (String.utf8EncodeChar c ++ bytes rest) := by
    rw [← bytes_cons, ← bytes_append, ← hdrop, List.take_append_drop]
  rw [htext, ← length_bytes, List.take_length_add_append, List.take_append_of_le_length hsize]

/-- **The line of a character holds its bytes**, and its number is that of the line feeds before. -/
theorem holdsByte_of_drop (hdrop : text.drop offset = c :: rest) (hbyte : byte < c.utf8Size) :
    HoldsByte (bytes text) (byteLength (text.take offset) + byte)
        (bytes (leftOf text offset ++ firstLine (text.drop offset)))
        (byteLength (leftOf text offset) + byte) ∧
      (text.take offset).count '\n' =
        ((bytes text).take (byteLength (text.take offset) + byte)).count lineFeed := by
  obtain ⟨before, htake, hbefore⟩ := take_eq_append_leftOf text offset
  obtain ⟨behind, hsplit, hbroken, hbehind⟩ := exists_firstLine_append (text.drop offset)
  have hleft := not_mem_leftOf text offset
  set left := leftOf text offset
  set first := firstLine (text.drop offset)
  have htext : text = before ++ (left ++ first ++ behind) := by
    rw [List.append_assoc, ← hsplit, ← List.append_assoc, ← htake, List.take_append_drop]
  obtain ⟨line, hfirst⟩ : ∃ line, first = c :: line := by
    rw [show first = firstLine (c :: rest) by rw [← hdrop]]
    exact firstLine_cons c rest
  have hne : first ≠ [] := by simp [hfirst]
  refine ⟨⟨?_, ?_, bytes before, bytes behind, ?_, ?_, ?_, ?_⟩, ?_⟩
  · rw [length_bytes, byteLength_append, hfirst, byteLength_cons]
    omega
  · apply lineFeed_not_mem_dropLast
    rw [List.dropLast_append_of_ne_nil hne]
    exact List.not_mem_append hleft hbroken
  · rw [← bytes_append, ← bytes_append, ← htext]
  · rw [length_bytes, htake, byteLength_append, Nat.add_assoc]
  · exact hbefore.imp (fun h => congrArg bytes h) getLast?_bytes
  · refine hbehind.imp (fun h => congrArg bytes h) fun h => getLast?_bytes ?_
    rw [List.getLast?_append_of_ne_nil _ hne, h]
  · rw [take_bytes hdrop hbyte, List.count_append, count_bytes,
      List.count_eq_zero_of_not_mem (lineFeed_not_mem_take hbyte), Nat.add_zero]

/-- Without a line feed there is one line, and the place of a byte in it is that in the text. -/
theorem holdsByte_of_not_mem (h : '\n' ∉ text) (hlt : position < byteLength text) :
    HoldsByte (bytes text) position (bytes text) position := by
  refine ⟨by rwa [length_bytes], ?_, [], [], (List.append_nil _).symm, Nat.zero_add _, .inl rfl,
    .inl rfl⟩
  exact fun hmem => h (lineFeed_mem_bytes.1 (List.dropLast_subset _ hmem))

/-! ## Every line -/

theorem lineFrom?_eq_none_iff {number : Nat} {ls : List (List Char)} :
    lineFrom? number ls offset = none ↔ byteLength ls.flatten ≤ offset := by
  induction ls generalizing number offset with
  | nil => simp [lineFrom?]
  | cons line ls ih =>
    rw [lineFrom?, List.flatten_cons, byteLength_append]
    split
    · rename_i hlt
      exact iff_of_false (by simp) (by omega)
    · rw [ih]
      omega

theorem lineAt?_eq_none_iff : lineAt? text position = none ↔ (bytes text).length ≤ position := by
  rw [lineAt?, lineFrom?_eq_none_iff, flatten_lines, length_bytes]

theorem exists_lineAt?_of_lt (h : position < (bytes text).length) :
    ∃ place, lineAt? text position = some place := by
  apply Option.ne_none_iff_exists'.1
  intro hnone
  exact absurd (lineAt?_eq_none_iff.1 hnone) (Nat.not_le.2 h)

/-- **The line that is found** holds the byte, and has the number of line feeds before the byte. -/
theorem holdsByte_of_lineAt? {place : Place} (h : lineAt? text position = some place) :
    HoldsByte (bytes text) position (bytes place.line) place.column ∧
      place.number = 1 + ((bytes text).take position).count lineFeed := by
  have hlt : position < byteLength text := by
    by_contra hge
    rw [lineAt?_eq_none_iff.2 (by rw [length_bytes]; omega)] at h
    cases h
  obtain ⟨offset, c, rest, byte, hdrop, hbyte, rfl⟩ := exists_char_of_lt hlt
  rw [lineAt?_of_drop hdrop hbyte] at h
  obtain rfl := Option.some.inj h
  obtain ⟨hholds, hcount⟩ := holdsByte_of_drop hdrop hbyte
  exact ⟨hholds, by rw [← hcount, Nat.add_comm]⟩

/-- **The line that holds a byte is found**, as there is no other. -/
theorem lineAt?_eq_some_iff {place : Place} : lineAt? text position = some place ↔
    HoldsByte (bytes text) position (bytes place.line) place.column ∧
      place.number = 1 + ((bytes text).take position).count lineFeed := by
  refine ⟨holdsByte_of_lineAt?, ?_⟩
  rintro ⟨hholds, hnumber⟩
  obtain ⟨found, hfound⟩ := exists_lineAt?_of_lt hholds.lt_length
  obtain ⟨hholds', hnumber'⟩ := holdsByte_of_lineAt? hfound
  obtain ⟨hline, hcolumn⟩ := hholds'.unique hholds
  have hline := bytes_injective hline
  obtain ⟨number, line, column⟩ := place
  obtain ⟨number', line', column'⟩ := found
  simp only at hnumber hnumber' hline hcolumn
  rw [hfound, hnumber, hnumber', hline, hcolumn]

/-- **The line of a byte is found.** There is none exactly for a position at the end of the text or
behind it. Otherwise what is found is the line that holds the byte, the byte's place in it, and one
more than the number of line feeds before the byte; and there is no other such line. The byte at that
place of the line is the byte of the text. -/
theorem lookup_holds_byte (text : List Char) (position : Nat) :
    (lineAt? text position = none ↔ (bytes text).length ≤ position) ∧
    ∀ place : Place,
      (lineAt? text position = some place ↔
        HoldsByte (bytes text) position (bytes place.line) place.column ∧
          place.number = 1 + ((bytes text).take position).count lineFeed) ∧
      (lineAt? text position = some place →
        place.column < (bytes place.line).length ∧
          (bytes place.line)[place.column]? = (bytes text)[position]?) := by
  refine ⟨lineAt?_eq_none_iff, fun place => ⟨lineAt?_eq_some_iff, ?_⟩⟩
  intro hfound
  obtain ⟨hholds, -⟩ := holdsByte_of_lineAt? hfound
  exact ⟨hholds.inside, hholds.getElem?⟩

/-- The second byte of a euro sign, behind a line that ends with a return; and that line's end. -/
theorem lookup_holds_byte_inside :
    let text := "é\r\n\t€x".toList
    lineAt? text 6 = some ⟨2, "\t€x".toList, 2⟩ ∧
      HoldsByte (bytes text) 6 [0x09, 0xE2, 0x82, 0xAC, 0x78] 2 ∧
      (bytes text)[6]? = some 0x82 ∧
      lineAt? text 3 = some ⟨1, "é\r\n".toList, 3⟩ ∧ (bytes text)[3]? = some lineFeed := by
  intro text
  have hinside : lineAt? text 6 = some ⟨2, "\t€x".toList, 2⟩ := by decide
  have hend : lineAt? text 3 = some ⟨1, "é\r\n".toList, 3⟩ := by decide
  obtain ⟨-, hfound⟩ := lookup_holds_byte text 6
  obtain ⟨hiff, hbyte⟩ := hfound _
  obtain ⟨-, hfound'⟩ := lookup_holds_byte text 3
  obtain ⟨-, hbyte'⟩ := (hfound' _).2 hend
  exact ⟨hinside, (hiff.1 hinside).1, (hbyte hinside).2.symm, hend, hbyte'.symm⟩

end Lexis.Text
