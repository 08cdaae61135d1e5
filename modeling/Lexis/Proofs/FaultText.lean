import Lexis.Proofs.Carets

/-!
# Faults told apart by their texts

A character between quotes is written in one of three forms: behind a backslash one character, or
`u` and the digits of its code point in braces, or as itself. The forms tell each other apart by the
first two characters, and each tells where it ends, so a quoted text can be read in one way whatever
stands behind it. What a text of a fault has besides a quotation is in a known place: the reason ends
the text, and the limit ends with the first space behind it.

* `Text.Escaped.append_inj`: **an escape** tells the character, and where it ends.
* `Text.quoted_append_inj`: **a quotation** tells the quoted text, and where it ends.
* `Text.controls_quoted`: no control character stands in a quotation.
* `Fault.text_inj`: **a fault's text** tells the fault.
* `faults_told_apart`: faults are told apart by their texts, and only a reason can have brought a
  control character into one.
-/

namespace Lexis

namespace Text

variable {quote : Quote} {c d : Char} {a b s t x y : List Char}

/-- The same text is cut at the same place, where a character stands for the first time. -/
theorem append_cons_inj (hs : c ∉ s) (ht : c ∉ t) :
    s ++ c :: x = t ++ c :: y ↔ s = t ∧ x = y := by
  constructor
  · intro h
    have hstart : ∀ {s x : List Char}, c ∉ s → (s ++ c :: x).takeWhile (· != c) = s := by
      intro s x hs
      have hne : ∀ d ∈ s, (d != c) = true := by
        intro d hd
        rw [bne_iff_ne]
        rintro rfl
        exact hs hd
      rw [List.takeWhile_append_of_pos hne, List.takeWhile_cons_of_neg (by simp), List.append_nil]
    have heq : s = t := by rw [← hstart (x := x) hs, h, hstart ht]
    subst heq
    exact ⟨rfl, (List.cons.inj (List.append_cancel_left h)).2⟩
  · rintro ⟨rfl, rfl⟩
    rfl

/-! ## Digits -/

theorem digitChar_inj {m n : Nat} (hm : m < 16) (hn : n < 16)
    (h : Nat.digitChar m = Nat.digitChar n) : m = n := by
  have hdigits : ∀ m < 16, ∀ n < 16, Nat.digitChar m = Nat.digitChar n → m = n := by decide
  exact hdigits m hm n hn h

/-- **The digits of a number** tell it, in any base that has a digit for each smaller number. -/
theorem toDigits_inj {base m n : Nat} (hbase : 1 < base) (hle : base ≤ 16) :
    Nat.toDigits base m = Nat.toDigits base n ↔ m = n := by
  refine ⟨fun h => ?_, congrArg _⟩
  induction m using Nat.strongRecOn generalizing n with
  | _ m ih =>
    -- a number has one digit or the digits of a quotient and one more
    rw [Nat.toDigits_eq_if hbase, Nat.toDigits_eq_if (n := n) hbase] at h
    by_cases hm : m < base
    · by_cases hn : n < base
      · rw [if_pos hm, if_pos hn] at h
        exact digitChar_inj (by omega) (by omega) (List.singleton_inj.1 h)
      · rw [if_pos hm, if_neg hn] at h
        have hlen := congrArg List.length h
        simp at hlen
    · by_cases hn : n < base
      · rw [if_neg hm, if_pos hn] at h
        have hlen := congrArg List.length h
        simp at hlen
      · rw [if_neg hm, if_neg hn] at h
        obtain ⟨hfront, hdigit⟩ := List.append_inj' h rfl
        have hlt : m / base < m := Nat.div_lt_self (by omega) hbase
        have hdiv : m / base = n / base := ih _ hlt hfront
        have hm' : m % base < base := Nat.mod_lt m (by omega)
        have hn' : n % base < base := Nat.mod_lt n (by omega)
        have hmod : m % base = n % base :=
          digitChar_inj (by omega) (by omega) (List.singleton_inj.1 hdigit)
        rw [← Nat.div_add_mod m base, hdiv, hmod, Nat.div_add_mod]

/-! ## Escapes -/

/-- The character that a short escape stands for, by the character behind the backslash. -/
def short? : Char → Option Char
  | '0' => some '\x00'
  | 't' => some '\t'
  | 'r' => some '\r'
  | 'n' => some '\n'
  | '\\' => some '\\'
  | '\'' => some '\''
  | '"' => some '"'
  | _ => none

/-- **The forms of an escape** between quotes. -/
inductive Escaped (quote : Quote) : Char → List Char → Prop where
  /-- A backslash, and a character that tells which. -/
  | short {c d : Char} (h : short? d = some c) : Escaped quote c ['\\', d]
  /-- The digits of the code point, in braces. -/
  | code (c : Char) : Escaped quote c (codePoint c)
  /-- The character itself, that is neither a backslash nor the mark. -/
  | raw {c : Char} (hbackslash : c ≠ '\\') (hmark : c ≠ quote.mark) : Escaped quote c [c]

theorem escaped_escape (quote : Quote) (c : Char) : Escaped quote c (escape quote c) := by
  unfold escape
  split_ifs with hnul htab hreturn hlf hmark hcode
  · exact .short (by rw [hnul]; rfl)
  · exact .short (by rw [htab]; rfl)
  · exact .short (by rw [hreturn]; rfl)
  · exact .short (by rw [hlf]; rfl)
  · refine .short ?_
    rcases hmark with rfl | rfl
    · rfl
    · cases quote <;> rfl
  · exact .code c
  · exact .raw (fun h => hmark (.inl h)) (fun h => hmark (.inr h))

theorem Quote.mark_ne_backslash (quote : Quote) : quote.mark ≠ '\\' := by
  cases quote <;> decide

/-- **No escape starts with the mark**, so where the mark stands the quotation ends. -/
theorem Escaped.append_ne_mark (h : Escaped quote c s) : s ++ x ≠ quote.mark :: y := by
  intro heq
  cases h with
  | short => exact quote.mark_ne_backslash (List.cons.inj heq).1.symm
  | code => exact quote.mark_ne_backslash (List.cons.inj heq).1.symm
  | raw _ hmark => exact hmark (List.cons.inj heq).1

/-- Digits have no brace among them, so where it stands a code point ends. -/
theorem codePoint_append_inj : codePoint c ++ x = codePoint d ++ y ↔ c = d ∧ x = y := by
  have hbrace : ∀ n, '\x7d' ∉ Nat.toDigits 16 n := not_mem_toDigits (by decide) (by decide)
  simp only [codePoint, List.append_assoc, List.append_cancel_left_eq, List.singleton_append]
  rw [append_cons_inj (hbrace _) (hbrace _), toDigits_inj (by decide) (by decide), Char.toNat_inj]

/-- `u` stands for nothing by itself, so a short escape is no start of a code point. -/
theorem short_append_ne_codePoint {e : Char} (h : short? e = some c) :
    ['\\', e] ++ x ≠ codePoint d ++ y := by
  intro heq
  obtain ⟨-, htail⟩ := List.cons.inj heq
  obtain ⟨rfl, -⟩ := List.cons.inj htail
  cases h

/-- **An escape** tells the character, whatever stands behind it, and where it ends. -/
theorem Escaped.append_inj (hc : Escaped quote c s) (hd : Escaped quote d t)
    (h : s ++ x = t ++ y) : c = d ∧ x = y := by
  cases hc with
  | short hc =>
    cases hd with
    | short hd =>
      obtain ⟨-, htail⟩ := List.cons.inj h
      obtain ⟨rfl, hrest⟩ := List.cons.inj htail
      exact ⟨Option.some.inj (hc.symm.trans hd), hrest⟩
    | code => exact absurd h (short_append_ne_codePoint hc)
    | raw hbackslash => exact absurd (List.cons.inj h).1.symm hbackslash
  | code =>
    cases hd with
    | short hd => exact absurd h.symm (short_append_ne_codePoint hd)
    | code => exact codePoint_append_inj.1 h
    | raw hbackslash => exact absurd (List.cons.inj h).1.symm hbackslash
  | raw hbackslash =>
    cases hd with
    | short => exact absurd (List.cons.inj h).1 hbackslash
    | code => exact absurd (List.cons.inj h).1 hbackslash
    | raw => exact List.cons.inj h

/-- The escapes of a text up to the mark tell the text, and where the mark stands. -/
theorem flatMap_escape_inj
    (h : a.flatMap (escape quote) ++ quote.mark :: x = b.flatMap (escape quote) ++ quote.mark :: y) :
    a = b ∧ x = y := by
  -- both texts end where the mark stands, as it starts no escape
  induction a generalizing b with
  | nil =>
    cases b with
    | nil => exact ⟨rfl, (List.cons.inj h).2⟩
    | cons d b =>
      rw [List.flatMap_cons, List.append_assoc] at h
      exact absurd h.symm (escaped_escape quote d).append_ne_mark
  | cons c a ih =>
    rw [List.flatMap_cons, List.append_assoc] at h
    cases b with
    | nil => exact absurd h (escaped_escape quote c).append_ne_mark
    | cons d b =>
      rw [List.flatMap_cons, List.append_assoc] at h
      obtain ⟨rfl, hrest⟩ := (escaped_escape quote c).append_inj (escaped_escape quote d) h
      obtain ⟨rfl, hbehind⟩ := ih hrest
      exact ⟨rfl, hbehind⟩

/-- **A quotation** tells the quoted text, whatever stands behind it, and where it ends. -/
theorem quoted_append_inj : quoted quote a ++ x = quoted quote b ++ y ↔ a = b ∧ x = y := by
  constructor
  · intro h
    simp only [quoted, List.cons_append, List.append_assoc, List.nil_append] at h
    exact flatMap_escape_inj (List.cons.inj h).2
  · rintro ⟨rfl, rfl⟩
    rfl

theorem quoted_inj : quoted quote a = quoted quote b ↔ a = b :=
  ⟨fun h => (quoted_append_inj.1 (congrArg (· ++ []) h)).1, congrArg _⟩

/-! ## Control characters -/

/-- Whether a character is a control character, of ASCII or of those above it. -/
def isControl (c : Char) : Bool := c.toNat ≤ 0x1F || (0x7F ≤ c.toNat && c.toNat ≤ 0x9F)

/-- The control characters of a text, in order. -/
def controls (text : List Char) : List Char := text.filter isControl

@[simp] theorem controls_append (a b : List Char) : controls (a ++ b) = controls a ++ controls b :=
  List.filter_append a b

theorem controls_eq_nil_iff : controls a = [] ↔ ∀ c ∈ a, isControl c = false := by
  simp [controls]

@[simp] theorem controls_toDigits {base : Nat} (hbase : 1 < base) (n : Nat) :
    controls (Nat.toDigits base n) = [] :=
  controls_eq_nil_iff.2 (forall_mem_toDigits hbase (by decide) n)

theorem isUnprintable_of_isControl (h : isControl c = true) : isUnprintable c = true := by
  apply isUnprintable_of_control
  simpa [isControl] using h

theorem controls_codePoint (c : Char) : controls (codePoint c) = [] := by
  have hopen : controls ['\\', 'u', '\x7b'] = [] := rfl
  have hclose : controls ['\x7d'] = [] := rfl
  rw [codePoint, controls_append, controls_append, hopen, hclose,
    controls_toDigits (by decide)]
  rfl

theorem controls_escape (quote : Quote) (c : Char) : controls (escape quote c) = [] := by
  unfold escape
  split_ifs with hnul htab hreturn hlf hmark hcode
  · rfl
  · rfl
  · rfl
  · rfl
  · rcases hmark with rfl | rfl
    · rfl
    · cases quote <;> rfl
  · exact controls_codePoint c
  · have hc : isControl c = false :=
      Bool.eq_false_iff.2 fun h => hcode (isUnprintable_of_isControl h)
    rw [controls, List.filter_singleton, hc]
    rfl

/-- **In a quotation** stands no control character, whatever text is quoted. -/
@[simp] theorem controls_quoted (quote : Quote) (text : List Char) :
    controls (quoted quote text) = [] := by
  have hmark : isControl quote.mark = false := by cases quote <;> rfl
  rw [controls_eq_nil_iff]
  intro c hc
  simp only [quoted, List.cons_append, List.mem_cons, List.mem_append, List.mem_flatMap,
    List.not_mem_nil, or_false] at hc
  obtain rfl | ⟨d, -, hd⟩ | rfl := hc
  · exact hmark
  · exact controls_eq_nil_iff.1 (controls_escape quote d) c hd
  · exact hmark

end Text

/-! ## Texts of faults -/

namespace Fault

open Text (quoted controls)

variable {f g : Fault}

theorem toList_inputUnavailable (path reason : String) :
    (inputUnavailable path reason).text.toList = "input unavailable: ".toList ++
      (quoted .double path.toList ++ (" (".toList ++ (reason.toList ++ ")".toList))) := by
  show ("input unavailable: " ++ quote path ++ " (" ++ reason ++ ")").toList = _
  simp only [quote, String.toList_append, String.toList_ofList, List.append_assoc]

theorem toList_nonAscii (c : Char) :
    (nonAscii c).text.toList = "non-ASCII character in input: ".toList ++ quoted .single [c] := by
  show ("non-ASCII character in input: " ++ String.ofList (quoted .single [c])).toList = _
  simp only [String.toList_append, String.toList_ofList]

theorem toList_unrecognized (lexeme : String) :
    (unrecognized lexeme).text.toList =
      "unrecognized lexeme: ".toList ++ quoted .double lexeme.toList := by
  show ("unrecognized lexeme: " ++ quote lexeme).toList = _
  simp only [quote, String.toList_append, String.toList_ofList]

theorem toList_tooLong (lexeme : String) (limit : Nat) :
    (tooLong lexeme limit).text.toList = "lexeme exceeds ".toList ++
      (Nat.toDigits 10 limit ++ ' ' :: ("characters: ".toList ++
        quoted .double lexeme.toList)) := by
  show ("lexeme exceeds " ++ toString limit ++ " characters: " ++ quote lexeme).toList = _
  have hspace : " characters: ".toList = ' ' :: "characters: ".toList := by simp
  simp only [quote, String.toList_append, String.toList_ofList, List.append_assoc,
    toList_toString_nat, hspace, List.cons_append]

/-- The first letter of the text, that no two sorts of fault have in common. -/
def initial : Fault → Char
  | inputUnavailable .. => 'i'
  | nonAscii _ => 'n'
  | unrecognized _ => 'u'
  | tooLong .. => 'l'

theorem head?_text (f : Fault) : f.text.toList.head? = some f.initial := by
  cases f with
  | inputUnavailable => simp [toList_inputUnavailable, initial]
  | nonAscii => simp [toList_nonAscii, initial]
  | unrecognized => simp [toList_unrecognized, initial]
  | tooLong => simp [toList_tooLong, initial]

theorem initial_eq_of_text (h : f.text = g.text) : f.initial = g.initial := by
  have hhead := g.head?_text
  rw [← h, head?_text] at hhead
  exact Option.some.inj hhead

/-- **A fault's text** tells the fault, whatever characters its fields have. -/
theorem text_inj : f.text = g.text ↔ f = g := by
  refine ⟨fun h => ?_, congrArg text⟩
  have hinitial := initial_eq_of_text h
  have hchars : f.text.toList = g.text.toList := congrArg String.toList h
  cases f with
  | inputUnavailable path reason =>
    cases g with
    | inputUnavailable path' reason' =>
      rw [toList_inputUnavailable, toList_inputUnavailable] at hchars
      obtain ⟨hpath, hrest⟩ := Text.quoted_append_inj.1 (List.append_cancel_left hchars)
      have hreason := List.append_cancel_right (List.append_cancel_left hrest)
      rw [String.toList_inj.1 hpath, String.toList_inj.1 hreason]
    | _ => simp [initial] at hinitial
  | nonAscii c =>
    cases g with
    | nonAscii d =>
      rw [toList_nonAscii, toList_nonAscii] at hchars
      have hc := Text.quoted_inj.1 (List.append_cancel_left hchars)
      rw [List.singleton_inj.1 hc]
    | _ => simp [initial] at hinitial
  | unrecognized lexeme =>
    cases g with
    | unrecognized lexeme' =>
      rw [toList_unrecognized, toList_unrecognized] at hchars
      have hlexeme := Text.quoted_inj.1 (List.append_cancel_left hchars)
      rw [String.toList_inj.1 hlexeme]
    | _ => simp [initial] at hinitial
  | tooLong lexeme limit =>
    cases g with
    | tooLong lexeme' limit' =>
      -- the lexeme may have spaces, but the first one stands behind the limit
      have hspace : ∀ n, ' ' ∉ Nat.toDigits 10 n := Text.not_mem_toDigits (by decide) (by decide)
      rw [toList_tooLong, toList_tooLong] at hchars
      obtain ⟨hlimit, hrest⟩ :=
        (Text.append_cons_inj (hspace _) (hspace _)).1 (List.append_cancel_left hchars)
      have hlexeme := Text.quoted_inj.1 (List.append_cancel_left hrest)
      rw [(Text.toDigits_inj (by decide) (by decide)).1 hlimit, String.toList_inj.1 hlexeme]
    | _ => simp [initial] at hinitial

/-- The part of a fault that stands in its text as it is. -/
def verbatim : Fault → List Char
  | inputUnavailable _ reason => reason.toList
  | _ => []

/-- **The control characters of a text** are those of what stands in it as it is. -/
theorem controls_text (f : Fault) : controls f.text.toList = controls f.verbatim := by
  cases f with
  | inputUnavailable path reason =>
    have hlead : controls "input unavailable: ".toList = [] := by decide
    have hopen : controls " (".toList = [] := by decide
    have hclose : controls ")".toList = [] := by decide
    simp only [toList_inputUnavailable, Text.controls_append, Text.controls_quoted, hlead, hopen,
      hclose, List.nil_append, List.append_nil, verbatim]
  | nonAscii c =>
    have hlead : controls "non-ASCII character in input: ".toList = [] := by decide
    rw [toList_nonAscii, Text.controls_append, Text.controls_quoted, hlead]
    rfl
  | unrecognized lexeme =>
    have hlead : controls "unrecognized lexeme: ".toList = [] := by decide
    rw [toList_unrecognized, Text.controls_append, Text.controls_quoted, hlead]
    rfl
  | tooLong lexeme limit =>
    have hlead : controls "lexeme exceeds ".toList = [] := by decide
    have hlast : controls (' ' :: "characters: ".toList) = [] := by decide
    rw [toList_tooLong, Text.controls_append, Text.controls_append,
      Text.controls_toDigits (by decide), ← List.cons_append, Text.controls_append,
      Text.controls_quoted, hlead, hlast]
    rfl

end Fault

/-- **Faults are told apart** by their texts: whatever quotes, backslashes, parentheses and line
breaks their fields have, and whatever text they look like, faults of the same text are the same. And
the text of a refused character or word has no control character; that of a file that cannot be read
has those of the reason. -/
theorem faults_told_apart :
    (∀ f g : Fault, f.text = g.text ↔ f = g) ∧
      (∀ c, Text.controls (Fault.nonAscii c).text.toList = []) ∧
      (∀ lexeme, Text.controls (Fault.unrecognized lexeme).text.toList = []) ∧
      (∀ lexeme limit, Text.controls (Fault.tooLong lexeme limit).text.toList = []) ∧
      ∀ path reason, Text.controls (Fault.inputUnavailable path reason).text.toList =
        Text.controls reason.toList :=
  ⟨fun _ _ => Fault.text_inj, fun _ => Fault.controls_text _, fun _ => Fault.controls_text _,
    fun _ _ => Fault.controls_text _, fun _ _ => Fault.controls_text _⟩

/-- Without escapes these two would have the same text, with a quote in the path of one and in the
reason of the other; and a word may be a whole text of another fault, or a control character. -/
theorem faults_told_apart_quotes :
    (Fault.inputUnavailable "a\" (b" "c").text ≠ (Fault.inputUnavailable "a" "b\" (c").text ∧
      (Fault.unrecognized "lexeme exceeds 5 characters: \"a\"").text ≠
        (Fault.tooLong "a" 5).text ∧
      (Fault.unrecognized "\x7f\\\"").text = "unrecognized lexeme: \"\\u\x7b7f\x7d\\\\\\\"\"" ∧
      Text.controls (Fault.unrecognized "\x7f\\\"").text.toList = [] := by
  obtain ⟨hinj, -, hunrecognized, -, -⟩ := faults_told_apart
  refine ⟨fun h => ?_, fun h => ?_, by decide, hunrecognized _⟩
  · exact absurd ((hinj _ _).1 h) (by decide)
  · exact absurd ((hinj _ _).1 h) (by decide)

end Lexis
