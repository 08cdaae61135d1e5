import Lexis.Proofs.Again

/-!
# Where a report points

The report of an error in a sanitized text has five lines. The fourth shows the line of the lexeme
without its indentation, and the caret of the fifth stands below the first character of the lexeme.

* `Text.lineAt?_of_drop`: **the line of a byte**, its number and the byte's place in it.
* `lineAt?_lexeme`: the excerpt for a place where a lexeme stands has all of it at its column.
* `Report.isLines_text?`, `Excerpt.points_layout`: the lines of a report, and where the last three of
  them point.
* `Settings.lexeme_of_judge_error`, `prefix_rightOf_of_isWord`: the lexeme of an error stands where
  the error is blamed.
* `session_points`: **the report of an error points at its lexeme**.
-/

namespace Lexis

open Text (isBlank byteLength IsLines unlines Word)

/-- **The last lines of a report point at a lexeme** in a line of some number: all of it is shown at
a column of the line, and the caret stands below its first character. -/
structure Points (third fourth fifth : List Char) (number column : Nat) (lexeme : List Char) :
    Prop where
  /-- The fourth line has the number and the text that has the lexeme at the column. -/
  shown : ∃ line, fourth = Nat.toDigits 10 number ++ [' ', '|', ' '] ++ line ∧
    lexeme <+: line.drop column
  /-- The caret ends the fifth line, behind as many dashes as the column says. -/
  caret : ∃ start, fifth = start ++ List.replicate column '-' ++ ['^'] ∧
    start.length = (Nat.toDigits 10 number).length + 3 ∧
    lexeme <+: fourth.drop (start.length + column)
  /-- The three bars stand in one column. -/
  bars : ∃ bar : Nat, third[bar]? = some '|' ∧ fourth[bar]? = some '|' ∧ fifth[bar]? = some '|'

variable {text line left lexeme right rest : List Char} {number offset : Nat} {c : Char}

/-! ## Text in one line -/

namespace Text

/-- What holds of the digits of numbers below sixteen, and of the star that there is for the others,
holds of all digits of a number. -/
theorem forall_mem_toDigits {p : Char → Prop} {base : Nat} (hbase : 1 < base)
    (h : ∀ d < 17, p (Nat.digitChar d)) (n : Nat) : ∀ c ∈ Nat.toDigits base n, p c := by
  have hdigit : ∀ d, p (Nat.digitChar d) := by
    intro d
    by_cases hd : d < 17
    · exact h d hd
    · rw [Nat.digitChar_eq_star.2 (by omega)]
      exact h 16 (by omega)
  induction n using Nat.strongRecOn with
  | _ n ih =>
    rw [Nat.toDigits_eq_if hbase]
    by_cases hn : n < base
    · rw [if_pos hn, List.forall_mem_singleton]
      exact hdigit n
    · have hlt : n / base < n := Nat.div_lt_self (by omega) hbase
      rw [if_neg hn, List.forall_mem_append, List.forall_mem_singleton]
      exact ⟨ih _ hlt, hdigit _⟩

theorem not_mem_toDigits {base : Nat} {c : Char} (hbase : 1 < base)
    (h : ∀ d < 17, Nat.digitChar d ≠ c) (n : Nat) : c ∉ Nat.toDigits base n :=
  fun hmem => forall_mem_toDigits (p := (· ≠ c)) hbase h n c hmem rfl

theorem lineFeed_not_mem_toDigits {base : Nat} (hbase : 1 < base) (n : Nat) :
    '\n' ∉ Nat.toDigits base n :=
  not_mem_toDigits hbase (by decide) n

theorem lineFeed_not_mem_escape (quote : Quote) (c : Char) : '\n' ∉ escape quote c := by
  unfold escape
  split_ifs with hnul htab hreturn hlf hmark hcode
  · decide
  · decide
  · decide
  · decide
  · simp [Ne.symm hlf]
  · simp [codePoint, lineFeed_not_mem_toDigits]
  · simp [Ne.symm hlf]

/-- **A quoted text is in one line**, whatever it is. -/
theorem lineFeed_not_mem_quoted (quote : Quote) (text : List Char) : '\n' ∉ quoted quote text := by
  have hmark : '\n' ≠ quote.mark := by cases quote <;> decide
  have hescape := lineFeed_not_mem_escape quote
  simp [quoted, hmark, hescape]

end Text

theorem toString_string (s : String) : toString s = s := rfl

theorem toList_toString_nat (n : Nat) : (toString n).toList = Nat.toDigits 10 n := by
  rw [Nat.toString_eq_ofList_toDigits, String.toList_ofList]

/-! ## Lines of places -/

namespace Text

/-- What stands before a place in its line. -/
def leftOf (text : List Char) (offset : Nat) : List Char :=
  (text.take offset).rtakeWhile (· ≠ '\n')

/-- What stands behind a place in its line. -/
def rightOf (text : List Char) (offset : Nat) : List Char :=
  (text.drop offset).takeWhile (· ≠ '\n')

theorem not_mem_leftOf (text : List Char) (offset : Nat) : '\n' ∉ leftOf text offset := by
  intro hmem
  have := List.mem_rtakeWhile_imp hmem
  simp at this

theorem not_mem_rightOf (text : List Char) (offset : Nat) : '\n' ∉ rightOf text offset := by
  intro hmem
  have := List.mem_takeWhile_imp hmem
  simp at this

theorem take_eq_append_leftOf (text : List Char) (offset : Nat) :
    ∃ before, text.take offset = before ++ leftOf text offset ∧
      (before = [] ∨ before.getLast? = some '\n') := by
  refine ⟨(text.take offset).rdropWhile (· ≠ '\n'), ?_, ?_⟩
  · exact List.rdropWhile_append_rtakeWhile.symm
  · cases hlast : ((text.take offset).rdropWhile (· ≠ '\n')).getLast? with
    | none => exact .inl (List.getLast?_eq_none_iff.1 hlast)
    | some c =>
      have hc := getLast?_rdropWhile c hlast
      exact .inr (congrArg some (by simpa using hc))

/-- **The line of a byte**, of some character of a text. Its number is one more than the number of
line feeds before the byte, and it goes from behind the last of them through the next one. -/
theorem lineAt?_of_drop {byte : Nat} (hdrop : text.drop offset = c :: rest)
    (hbyte : byte < c.utf8Size) :
    lineAt? text (byteLength (text.take offset) + byte) =
      some ⟨(text.take offset).count '\n' + 1, leftOf text offset ++ firstLine (text.drop offset),
        byteLength (leftOf text offset) + byte⟩ := by
  obtain ⟨before, htake, hbefore⟩ := take_eq_append_leftOf text offset
  have hleft := not_mem_leftOf text offset
  set left := leftOf text offset
  have htext : text = before ++ (left ++ text.drop offset) := by
    rw [← List.append_assoc, ← htake, List.take_append_drop]
  have hoffset : byteLength (text.take offset) + byte =
      byteLength before + (byteLength left + byte) := by
    rw [htake, byteLength_append, Nat.add_assoc]
  have hcount : (text.take offset).count '\n' = before.count '\n' := by
    rw [htake, List.count_append, List.count_eq_zero_of_not_mem hleft, Nat.add_zero]
  have hinside : byteLength left + byte < byteLength (firstLine (left ++ text.drop offset)) := by
    obtain ⟨line, hline⟩ := firstLine_cons c rest
    rw [firstLine_append hleft, byteLength_append, hdrop, hline, byteLength_cons]
    omega
  rw [hoffset, hcount, ← firstLine_append hleft, lineAt?]
  conv_lhs => rw [htext]
  rw [lineFrom?_behind hbefore, lineFrom?_firstLine hinside, Nat.add_comm]

/-- Behind ASCII characters the place in a line is the same in bytes and in characters. -/
theorem byteLength_leftOf (h : ∀ c ∈ text.take offset, isAscii c = true) :
    byteLength (leftOf text offset) = (leftOf text offset).length := by
  obtain ⟨before, htake, -⟩ := take_eq_append_leftOf text offset
  apply byteLength_of_ascii
  intro c hc
  apply h
  rw [htake]
  exact List.mem_append_right _ hc

theorem lineFeed_mem_drop (hended : text.getLast? = some '\n') (hlt : offset < text.length) :
    '\n' ∈ text.drop offset := by
  have hne : text.drop offset ≠ [] := by
    rw [Ne, List.drop_eq_nil_iff]
    omega
  rw [← List.take_append_drop offset text, List.getLast?_append_of_ne_nil _ hne] at hended
  exact List.mem_of_getLast? hended

/-- In an ASCII text that ends with a line feed each byte is a character, and each line is ended. -/
theorem lineAt?_eq (h : ∀ c ∈ text, isAscii c = true) (hended : text.getLast? = some '\n')
    (hlt : offset < text.length) :
    lineAt? text offset = some ⟨(text.take offset).count '\n' + 1,
      leftOf text offset ++ rightOf text offset ++ ['\n'], (leftOf text offset).length⟩ := by
  have hascii : ∀ c ∈ text.take offset, isAscii c = true :=
    fun c hc => h c (List.mem_of_mem_take hc)
  have hbytes : byteLength (text.take offset) = offset := by
    rw [byteLength_of_ascii hascii, List.length_take]
    omega
  have hfirst : firstLine (text.drop offset) = rightOf text offset ++ ['\n'] := by
    unfold firstLine rightOf
    rw [if_pos (lineFeed_mem_drop hended hlt)]
  have hline := lineAt?_of_drop (List.drop_eq_getElem_cons hlt) (Char.utf8Size_pos _)
  rwa [hbytes, byteLength_leftOf hascii, hfirst, Nat.add_zero, Nat.add_zero, ← List.append_assoc]
    at hline

end Text

/-! ## The excerpt for a lexeme -/

/-- In ASCII the white space is blank. -/
theorem isSpace_eq_false (hascii : Text.isAscii c = true) (hblank : isBlank c = false) :
    Text.isSpace c = false := by
  have hall : ∀ n < 128, Text.isSpace (Char.ofNat n) = true → isBlank (Char.ofNat n) = true := by
    decide
  have hlt : c.toNat < 128 := of_decide_eq_true hascii
  have hc := hall c.toNat hlt
  rw [Char.ofNat_toNat, hblank] at hc
  by_contra hspace
  rw [Bool.not_eq_false] at hspace
  cases hc hspace

/-- Behind a character that is no white space the end of a text is trimmed alone. -/
theorem trimEnd_append (h : ∀ c ∈ line.getLast?, Text.isSpace c = false) (rest : List Char) :
    trimEnd (line ++ rest) = line ++ trimEnd rest := by
  have hline : line.reverse.dropWhile Text.isSpace = line.reverse := by
    rcases List.eq_nil_or_concat line with rfl | ⟨body, c, rfl⟩
    · rfl
    · have hc : ¬ Text.isSpace c = true := by simp [h c (by simp)]
      rw [List.concat_eq_append, List.reverse_concat, List.dropWhile_cons_of_neg hc]
  unfold trimEnd
  rw [List.reverse_append, List.dropWhile_append]
  split
  · rename_i hnil
    rw [List.isEmpty_iff.1 hnil, hline, List.reverse_reverse]
    simp
  · rw [List.reverse_append, List.reverse_reverse]

/-- **The excerpt for a lexeme.** The indentation ends before the lexeme, and the line is shown with
all of the lexeme at its column. -/
theorem ofPlace_lexeme (hne : lexeme ≠ []) (hascii : ∀ c ∈ lexeme, Text.isAscii c = true)
    (hblank : ∀ c ∈ lexeme, isBlank c = false) (hleft : '\n' ∉ left) (hright : '\n' ∉ right) :
    let indent := (indentation (left ++ (lexeme ++ right))).length
    indent ≤ left.length ∧
      ∃ line, '\n' ∉ line ∧ lexeme <+: line.drop (left.length - indent) ∧
        Excerpt.ofPlace ⟨number, left ++ (lexeme ++ right) ++ ['\n'], left.length⟩ =
          ⟨number, line, left.length - indent⟩ := by
  intro indent
  have hle : indent ≤ left.length := by
    apply length_indentation_append_le
    intro c hc
    rw [List.head?_append_of_ne_nil _ hne] at hc
    have hc := hblank c (List.mem_of_head? hc)
    constructor <;> rintro rfl <;> cases hc
  -- what is shown ends with the lexeme and what follows it but white space
  have hline : trimEnd ((left ++ (lexeme ++ right)).drop indent) =
      left.drop indent ++ (lexeme ++ trimEnd right) := by
    rw [List.drop_append_of_le_length hle, ← List.append_assoc, trimEnd_append, List.append_assoc]
    intro c hc
    rw [List.getLast?_append_of_ne_nil _ hne] at hc
    have hmem := List.mem_of_getLast? hc
    exact isSpace_eq_false (hascii c hmem) (hblank c hmem)
  refine ⟨hle, left.drop indent ++ (lexeme ++ trimEnd right), ?_, ?_, ?_⟩
  · have hlexeme : '\n' ∉ lexeme := by
      intro hmem
      cases hblank '\n' hmem
    refine List.not_mem_append ?_ (List.not_mem_append hlexeme ?_)
    · exact fun hmem => hleft (List.mem_of_mem_drop hmem)
    · exact fun hmem => hright ((trimEnd_isPrefix right).subset hmem)
  · rw [List.drop_left' (by rw [List.length_drop])]
    exact List.prefix_append _ _
  · rw [Excerpt.ofPlace_concat (by rfl) (by decide) (by decide), ← hline]
    rfl

/-- **The excerpt for a place where a lexeme stands** in a text that ends with a line feed. -/
theorem lineAt?_lexeme (h : ∀ c ∈ text, Text.isAscii c = true) (hended : text.getLast? = some '\n')
    (hlt : offset < text.length) (hne : lexeme ≠ []) (hblank : ∀ c ∈ lexeme, isBlank c = false)
    (hright : lexeme <+: Text.rightOf text offset) :
    let left := Text.leftOf text offset
    let indent := (indentation (left ++ Text.rightOf text offset)).length
    indent ≤ left.length ∧
      ∃ line, '\n' ∉ line ∧ lexeme <+: line.drop (left.length - indent) ∧
        (Text.lineAt? text offset).map Excerpt.ofPlace =
          some ⟨(text.take offset).count '\n' + 1, line, left.length - indent⟩ := by
  have hascii : ∀ c ∈ Text.rightOf text offset, Text.isAscii c = true :=
    fun c hc => h c (List.mem_of_mem_drop ((List.takeWhile_prefix _).subset hc))
  have hright_lf := Text.not_mem_rightOf text offset
  rw [Text.lineAt?_eq h hended hlt, Option.map_some]
  obtain ⟨more, hmore⟩ := hright
  rw [← hmore] at hascii hright_lf ⊢
  have hlexeme : ∀ c ∈ lexeme, Text.isAscii c = true :=
    fun c hc => hascii c (List.mem_append_left _ hc)
  have hmore_lf : '\n' ∉ more := fun hmem => hright_lf (List.mem_append_right _ hmem)
  obtain ⟨hindent, line, hline, hshown, hexcerpt⟩ :=
    @ofPlace_lexeme (Text.leftOf text offset) lexeme more ((text.take offset).count '\n' + 1) hne
      hlexeme hblank (Text.not_mem_leftOf text offset) hmore_lf
  exact ⟨hindent, line, hline, hshown, congrArg some hexcerpt⟩

/-! ## The layout of a report -/

/-- The three lines that show an excerpt. -/
def Excerpt.layout (e : Excerpt) : List (List Char) :=
  let digits := Nat.toDigits 10 e.number
  let margin := List.replicate (digits.length + 1) ' '
  [margin ++ ['|'], digits ++ [' ', '|', ' '] ++ e.line,
    margin ++ ['|', ' '] ++ List.replicate e.column '-' ++ ['^']]

theorem Excerpt.toList_text (e : Excerpt) : e.text.toList = unlines e.layout := by
  have hlen : (toString e.number).length = (Nat.toDigits 10 e.number).length := by
    rw [← String.length_toList, toList_toString_nat]
  unfold Excerpt.text Excerpt.layout
  simp [String.toList_append, toString_string, ← hlen]

theorem Excerpt.not_mem_layout (e : Excerpt) (h : '\n' ∉ e.line) :
    ∀ line ∈ e.layout, '\n' ∉ line := by
  have hdigits := Text.lineFeed_not_mem_toDigits (by decide : 1 < 10) e.number
  simp [Excerpt.layout, hdigits, h]

/-- **An excerpt points at a lexeme** that its line has at its column. -/
theorem Excerpt.points_layout (e : Excerpt) (h : lexeme <+: e.line.drop e.column) :
    ∃ third fourth fifth, e.layout = [third, fourth, fifth] ∧
      Points third fourth fifth e.number e.column lexeme := by
  set digits := Nat.toDigits 10 e.number
  set margin := List.replicate (digits.length + 1) ' '
  have hmargin : margin.length = digits.length + 1 := List.length_replicate
  have hbar : ∀ start rest : List Char, (start ++ '|' :: rest)[start.length]? = some '|' := by
    intro start rest
    rw [List.getElem?_append_right (Nat.le_refl _), Nat.sub_self]
    rfl
  refine ⟨margin ++ ['|'], digits ++ [' ', '|', ' '] ++ e.line,
    margin ++ ['|', ' '] ++ List.replicate e.column '-' ++ ['^'], rfl, ⟨e.line, rfl, h⟩, ?_, ?_⟩
  · have hstart : (margin ++ ['|', ' ']).length = digits.length + 3 := by
      rw [List.length_append, hmargin]
      rfl
    have hnumber : digits.length + 3 = (digits ++ [' ', '|', ' ']).length := by
      rw [List.length_append]
      rfl
    refine ⟨margin ++ ['|', ' '], rfl, hstart, ?_⟩
    rwa [hstart, hnumber, List.drop_length_add_append]
  · have hnumber : margin.length = (digits ++ [' ']).length := by
      rw [hmargin, List.length_append]
      rfl
    have hfourth : digits ++ [' ', '|', ' '] ++ e.line =
        (digits ++ [' ']) ++ '|' :: ' ' :: e.line := by simp
    have hfifth : margin ++ ['|', ' '] ++ List.replicate e.column '-' ++ ['^'] =
        margin ++ '|' :: ' ' :: (List.replicate e.column '-' ++ ['^']) := by simp
    refine ⟨margin.length, hbar margin [], ?_, ?_⟩
    · rw [hfourth, hnumber]
      exact hbar _ _
    · rw [hfifth]
      exact hbar _ _

/-- **There is no report** exactly if the caret would stand too far right. -/
theorem Report.text?_eq_none_iff {r : Report} :
    r.text? = none ↔ ∃ e, r.excerpt? = some e ∧ maxCaretWidth < e.column + 1 := by
  unfold Report.text?
  cases r.excerpt? with
  | none => simp
  | some e => simp

/-- **The lines of a report** with an excerpt: two of them tell what is wrong and where, and three
show the excerpt. -/
theorem Report.isLines_text? {r : Report} {e : Excerpt} {shown : String} (h : r.excerpt? = some e)
    (hname : '\n' ∉ r.name.toList) (hadvice : '\n' ∉ r.advice.toList)
    (hfile : '\n' ∉ r.file.toList) (hline : '\n' ∉ e.line) (hshown : r.text? = some shown) :
    ∃ first second, IsLines shown.toList (first :: second :: e.layout) [] := by
  unfold Report.text? at hshown
  rw [h] at hshown
  simp only at hshown
  split at hshown
  · obtain rfl := Option.some.inj hshown
    refine ⟨"Error: ".toList ++ r.name.toList ++ " (".toList ++ r.advice.toList ++ [')'],
      "-> ".toList ++ r.file.toList, ?_, ?_, List.not_mem_nil⟩
    · simp [String.toList_append, toString_string, Excerpt.toList_text]
    · rw [List.forall_mem_cons, List.forall_mem_cons]
      refine ⟨?_, ?_, e.not_mem_layout hline⟩
      · simp [hname, hadvice]
      · simp [hfile]
  · cases hshown

/-! ## Lexemes of errors -/

theorem Fault.not_mem_name (f : Fault) : '\n' ∉ f.name.toList := by
  cases f <;> simp [Fault.name]

/-- What a report tells of a fault: its tip, or else its text. -/
def Fault.advice (f : Fault) : String := f.tip?.getD f.text

theorem Fault.not_mem_advice_unrecognized (lexeme : String) :
    '\n' ∉ (Fault.unrecognized lexeme).advice.toList := by
  have hquoted := Text.lineFeed_not_mem_quoted .double lexeme.toList
  show '\n' ∉ ("unrecognized lexeme: " ++ quote lexeme).toList
  rw [String.toList_append]
  refine List.not_mem_append (by simp) ?_
  rwa [quote, String.toList_ofList]

theorem Fault.not_mem_advice_tooLong (lexeme : String) (limit : Nat) :
    '\n' ∉ (Fault.tooLong lexeme limit).advice.toList := by
  have hlimit : '\n' ∉ (toString limit).toList := by
    rw [toList_toString_nat]
    exact Text.lineFeed_not_mem_toDigits (by decide) limit
  show '\n' ∉ ("Tokens are limited to " ++ toString limit ++
    " characters, is a literal left unterminated?").toList
  rw [String.toList_append, String.toList_append]
  exact List.not_mem_append (List.not_mem_append (by simp) hlimit) (by simp)

/-- **The lexeme of an error** is what the word starts with, or all of it; and what is told of it is
in one line. -/
theorem Settings.lexeme_of_judge_error {settings : Settings} {word : List Char} {fault : Fault}
    (hne : word ≠ []) (h : settings.judge word = .error fault) :
    ∃ lexeme, lexeme ≠ [] ∧ lexeme <+: word ∧
      (fault = .unrecognized (String.ofList lexeme) ∨
        fault = .tooLong (String.ofList lexeme) settings.limit) ∧
      '\n' ∉ fault.advice.toList := by
  rcases settings.judge_cases word with ⟨hlen, hj⟩ | ⟨hlen, -, hj⟩ | ⟨kind, -, -, hj⟩
  · obtain rfl := Except.error.inj (hj.symm.trans h)
    refine ⟨word.take (settings.limit + 1), ?_, List.take_prefix _ _, .inr rfl, ?_⟩
    · rw [Ne, List.take_eq_nil_iff]
      simp [hne]
    · exact Fault.not_mem_advice_tooLong _ _
  · obtain rfl := Except.error.inj (hj.symm.trans h)
    exact ⟨word, hne, List.prefix_refl _, .inl rfl, Fault.not_mem_advice_unrecognized _⟩
  · rw [hj] at h
    cases h

/-- **A word stands at its start**, and so does what it starts with. -/
theorem prefix_rightOf_of_isWord {w : Word} (h : ∀ c ∈ text, Text.isAscii c = true)
    (hw : Text.IsWord 0 text w) (hlexeme : lexeme <+: w.text) :
    w.start < text.length ∧ lexeme <+: Text.rightOf text w.start := by
  have hlt := hw.start_lt
  rw [Text.byteLength_of_ascii h, Nat.zero_add] at hlt
  obtain ⟨before, behind, htext, hstart, -, hblank, -, -⟩ := hw
  have hbytes : byteLength before = before.length :=
    Text.byteLength_of_ascii fun c hc => h c (by rw [htext]; simp [hc])
  have hdrop : text.drop w.start = w.text ++ behind := by
    rw [hstart, hbytes, htext, Nat.zero_add, List.append_assoc, List.drop_left]
  have hline : '\n' ∉ w.text := by
    intro hmem
    cases hblank '\n' hmem
  refine ⟨hlt, hlexeme.trans ?_⟩
  rw [Text.rightOf, hdrop, Text.takeWhile_append_line hline]
  exact List.prefix_append _ _

/-- **The report of an error points at its lexeme.** Let a session over an ASCII text meet an error.
The lexeme stands in the sanitized text at the offset of the error, behind the indentation of its
line. There is no report exactly if the caret would stand too far right. Otherwise the report has
five lines, the last three of which point at the lexeme: its line is the one behind the line feeds
before it, and its column what of that line stands before it and does not indent the line. -/
theorem session_points (settings : Settings) {file : String} (h : ∀ c ∈ text, Text.isAscii c = true)
    (hfile : '\n' ∉ file.toList) :
    ∃ s, (Session.start settings file text).value = .ok s ∧
      (s.source.text.length < UInt32.size → ∀ e, s.drain.error? = some e →
        let offset := e.position.offset.toNat
        let left := Text.leftOf s.source.text offset
        let right := Text.rightOf s.source.text offset
        let indent := (indentation (left ++ right)).length
        let report := Report.ofError e s.source.text
        ∃ lexeme, lexeme <+: right ∧ (e.fault = .unrecognized (String.ofList lexeme) ∨
            e.fault = .tooLong (String.ofList lexeme) settings.limit) ∧
          indent ≤ left.length ∧ (report.text? = none ↔ 65535 < left.length - indent + 1) ∧
          ∀ shown, report.text? = some shown → ∃ first second third fourth fifth,
            IsLines shown.toList [first, second, third, fourth, fifth] [] ∧
            Points third fourth fifth ((s.source.text.take offset).count '\n' + 1)
              (left.length - indent) lexeme) := by
  set s := Session.ofSanitized settings file (Sanitized.ofAscii text)
  have hascii : ∀ c ∈ s.source.text, Text.isAscii c = true := ascii_ofAscii h
  refine ⟨s, start_of_ascii settings file h, ?_⟩
  intro hsize e herror offset left right indent report
  rw [(Session.drain_eq_read rfl).2] at herror
  obtain ⟨w, hw, hj, hposition⟩ := Settings.exists_of_read_error herror
  have hword := (Text.mem_wordsFrom_iff hascii).1 hw
  obtain ⟨-, -, -, -, hne, hblank, -, -⟩ := id hword
  obtain ⟨lexeme, hlexeme, hstarts, hfault, hadvice⟩ := Settings.lexeme_of_judge_error hne hj
  obtain ⟨hlt, hright⟩ := prefix_rightOf_of_isWord hascii hword hstarts
  have hoffset : offset = w.start := by
    show e.position.offset.toNat = _
    rw [hposition, offset_ofByte (by omega)]
  rw [← hoffset] at hlt hright
  have hended : s.source.text.getLast? = some '\n' := by
    refine (isNormal_ofAscii text).ended.resolve_left ?_
    intro hnil
    have hlen : s.source.text.length = 0 := List.length_eq_zero_iff.2 hnil
    omega
  obtain ⟨hindent, line, hline, hshown, hexcerpt⟩ := lineAt?_lexeme hascii hended hlt hlexeme
    (fun c hc => hblank c (hstarts.subset hc)) hright
  set excerpt : Excerpt := ⟨(s.source.text.take offset).count '\n' + 1, line, left.length - indent⟩
  have hreport : report.excerpt? = some excerpt := hexcerpt
  refine ⟨lexeme, hright, hfault, hindent, ?_, ?_⟩
  · rw [Report.text?_eq_none_iff, hreport]
    simp [excerpt, maxCaretWidth]
  intro shown htext
  have hfile' : '\n' ∉ report.file.toList := by
    show '\n' ∉ e.position.file.toList
    rw [hposition]
    exact hfile
  obtain ⟨first, second, hlines⟩ :=
    Report.isLines_text? hreport (Fault.not_mem_name _) hadvice hfile' hline htext
  obtain ⟨third, fourth, fifth, hlayout, hpoints⟩ := excerpt.points_layout hshown
  rw [hlayout] at hlines
  exact ⟨first, second, third, fourth, fifth, hlines, hpoints⟩

/-- A tab indents the line and the vertical tab behind it does not, so that the caret stands behind
three dashes. -/
theorem session_points_unrecognized :
    let text := "if\n\t\x0bx @@@ y".toList
    let error : Error := ⟨.unrecognized "@@@", .ofByte "f" 7⟩
    (∀ c ∈ text, Text.isAscii c = true) ∧ '\n' ∉ "f".toList ∧
      ∃ s, (Session.start {} "f" text).value = .ok s ∧ s.source.text.length < UInt32.size ∧
        s.drain.error? = some error ∧
        ∃ shown first second third fourth fifth,
          (Report.ofError error s.source.text).text? = some shown ∧
          IsLines shown.toList [first, second, third, fourth, fifth] [] ∧
          Points third fourth fifth 2 3 "@@@".toList := by
  intro text error
  have hascii : ∀ c ∈ text, Text.isAscii c = true := List.all_eq_true.1 rfl
  have hfile : '\n' ∉ "f".toList := by decide
  have hsource : Sanitized.ofAscii "if\n\t\x0bx @@@ y".toList =
      ⟨"if\n\t\x0bx @@@ y\n".toList, 12, 0, 0⟩ := by cbv
  obtain ⟨s, hstart, hpoints⟩ := session_points {} hascii hfile
  obtain ⟨-, rfl⟩ := start_eq_ok_iff.1 hstart
  change Sanitized.ofAscii text = _ at hsource
  rw [hsource] at hstart hpoints
  set s := Session.ofSanitized {} "f" ⟨"if\n\t\x0bx @@@ y\n".toList, 12, 0, 0⟩
  have hsize : s.source.text.length < UInt32.size := by decide
  have herror : s.drain.error? = some error := by
    rw [(Session.drain_eq_read rfl).2]
    rfl
  obtain ⟨lexeme, -, hfault, -, hnone, hlines⟩ := hpoints hsize error herror
  have hlexeme : lexeme = "@@@".toList := by
    rcases hfault with hfault | hfault
    · rw [Fault.unrecognized.inj hfault, String.toList_ofList]
    · cases hfault
  cases hshown : (Report.ofError error s.source.text).text? with
  | none => exact absurd (hnone.1 hshown) (by decide)
  | some shown =>
    obtain ⟨first, second, third, fourth, fifth, hlines, hpoints⟩ := hlines shown hshown
    rw [hlexeme] at hpoints
    exact ⟨hascii, hfile, s, hstart, hsize, herror, shown, first, second, third, fourth, fifth,
      hshown, hlines, hpoints⟩

end Lexis
