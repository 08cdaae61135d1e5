import Lexis.Load
import Mathlib.Data.List.Basic

/-!
# Well-formed UTF-8

What bytes say is defined by the bytes alone. The first byte of a character tells by its size how
many more there are, and these have six bits of the number each. More bytes could spell the same
number with leading zeros, so the shortest spelling is the one that counts. Surrogates and the
numbers above U+10FFFF are no characters.

* `Spells`: **the number** that bytes spell, be it a character or not.
* `Encodes`, `Decodes`: the bytes of a character and of a text.
* `encodes_iff`: a character has the bytes that it is written with, and no others.
* `decode_eq_ok_iff`: **what is decoded** are the bytes of a text.
* `exists_decode_iff`: and these are the well-formed bytes.
* `load_eq_ok_iff`, `load_eq_error`: so it is for files, and other files are blamed as a whole.
-/

namespace Lexis

namespace Utf8

/-- A byte that continues a character. -/
def IsTail (b : UInt8) : Prop := 0x80 ≤ b.toNat ∧ b.toNat < 0xC0

/-- **The number that bytes spell.** -/
inductive Spells : List UInt8 → Nat → Prop where
  | one {a : UInt8} {n : Nat} (ha : a.toNat < 0x80) (hn : n = a.toNat) : Spells [a] n
  | two {a b : UInt8} {n : Nat} (ha : 0xC0 ≤ a.toNat ∧ a.toNat < 0xE0) (hb : IsTail b)
      (hn : n = (a.toNat - 0xC0) * 0x40 + (b.toNat - 0x80)) : Spells [a, b] n
  | three {a b c : UInt8} {n : Nat} (ha : 0xE0 ≤ a.toNat ∧ a.toNat < 0xF0) (hb : IsTail b)
      (hc : IsTail c)
      (hn : n = (a.toNat - 0xE0) * 0x1000 + (b.toNat - 0x80) * 0x40 + (c.toNat - 0x80)) :
      Spells [a, b, c] n
  | four {a b c d : UInt8} {n : Nat} (ha : 0xF0 ≤ a.toNat ∧ a.toNat < 0xF8) (hb : IsTail b)
      (hc : IsTail c) (hd : IsTail d)
      (hn : n = (a.toNat - 0xF0) * 0x40000 + (b.toNat - 0x80) * 0x1000 + (c.toNat - 0x80) * 0x40 +
        (d.toNat - 0x80)) : Spells [a, b, c, d] n

/-- **The bytes of a character** spell its number, and no fewer bytes do. -/
structure Encodes (bytes : List UInt8) (c : Char) : Prop where
  spells : Spells bytes c.toNat
  shortest : ∀ others, Spells others c.toNat → bytes.length ≤ others.length

/-- **The bytes of a text** are those of its characters. -/
inductive Decodes : List UInt8 → List Char → Prop where
  | nil : Decodes [] []
  | cons {bytes rest : List UInt8} {c : Char} {text : List Char} (head : Encodes bytes c)
      (tail : Decodes rest text) : Decodes (bytes ++ rest) (c :: text)

/-- Bytes that are those of a text. -/
def WellFormed (bytes : List UInt8) : Prop := ∃ text, Decodes bytes text

variable {bytes others : List UInt8} {c : Char} {text : List Char} {n : Nat}

/-! ## Characters -/

/-- The room that so many bytes have. -/
theorem Spells.room (h : Spells bytes n) : 0 < bytes.length ∧ (bytes.length ≤ 1 → n < 0x80) ∧
    (bytes.length ≤ 2 → n < 0x800) ∧ (bytes.length ≤ 3 → n < 0x10000) := by
  cases h with
  | one ha hn =>
    simp only [List.length_cons, List.length_nil]
    omega
  | two ha hb hn =>
    unfold IsTail at hb
    simp only [List.length_cons, List.length_nil]
    omega
  | three ha hb hc hn =>
    unfold IsTail at hb hc
    simp only [List.length_cons, List.length_nil]
    omega
  | four ha hb hc hd hn => simp

/-- **As many bytes spell a number in one way.** -/
theorem Spells.unique (h : Spells bytes n) (h' : Spells others n)
    (hlen : bytes.length = others.length) : bytes = others := by
  -- both are of one sort, as the sorts differ in length, and then the number has their digits
  cases h with
  | one ha hn =>
    cases h' with
    | one ha' hn' =>
      simp only [List.cons.injEq, and_true, ← UInt8.toNat_inj]
      omega
    | _ => cases hlen
  | two ha hb hn =>
    cases h' with
    | two ha' hb' hn' =>
      unfold IsTail at hb hb'
      simp only [List.cons.injEq, and_true, ← UInt8.toNat_inj]
      omega
    | _ => cases hlen
  | three ha hb hc hn =>
    cases h' with
    | three ha' hb' hc' hn' =>
      unfold IsTail at hb hc hb' hc'
      simp only [List.cons.injEq, and_true, ← UInt8.toNat_inj]
      omega
    | _ => cases hlen
  | four ha hb hc hd hn =>
    cases h' with
    | four ha' hb' hc' hd' hn' =>
      unfold IsTail at hb hc hd hb' hc' hd'
      simp only [List.cons.injEq, and_true, ← UInt8.toNat_inj]
      omega
    | _ => cases hlen

theorem toNat_lt (c : Char) : c.toNat < 0x110000 := by
  have hvalid := c.valid
  unfold UInt32.isValidChar Nat.isValidChar at hvalid
  unfold Char.toNat
  omega

/-- A character is written with bytes that spell its number. -/
theorem spells_encodeChar (c : Char) : Spells (String.utf8EncodeChar c) c.toNat := by
  have hc := toNat_lt c
  have hval : c.val.toNat = c.toNat := rfl
  unfold String.utf8EncodeChar
  simp only [hval]
  -- the bounds that the encoder splits at are those up to which the spellings have room
  split_ifs with hone htwo hthree
  · refine .one ?_ ?_ <;> rw [UInt8.toNat_ofNat'] <;> omega
  · refine .two ?_ ?_ ?_ <;> simp only [IsTail, UInt8.toNat_ofNat'] <;> omega
  · refine .three ?_ ?_ ?_ ?_ <;> simp only [IsTail, UInt8.toNat_ofNat'] <;> omega
  · refine .four ?_ ?_ ?_ ?_ ?_ <;> simp only [IsTail, UInt8.toNat_ofNat'] <;> omega

/-- No fewer bytes spell its number. -/
theorem length_encodeChar_le (h : Spells others c.toNat) :
    (String.utf8EncodeChar c).length ≤ others.length := by
  obtain ⟨hpos, hone, htwo, hthree⟩ := h.room
  have hval : c.val.toNat = c.toNat := rfl
  unfold String.utf8EncodeChar
  simp only [hval]
  split_ifs <;> simp only [List.length_cons, List.length_nil] <;> omega

/-- **A character has the bytes that it is written with**, and no others. -/
theorem encodes_iff : Encodes bytes c ↔ bytes = String.utf8EncodeChar c := by
  constructor
  · intro h
    refine h.spells.unique (spells_encodeChar c) (Nat.le_antisymm ?_ ?_)
    · exact h.shortest _ (spells_encodeChar c)
    · exact length_encodeChar_le h.spells
  · rintro rfl
    exact ⟨spells_encodeChar c, fun _ => length_encodeChar_le⟩

/-! ## Texts -/

theorem decodes_iff : Decodes bytes text ↔ bytes = text.flatMap String.utf8EncodeChar := by
  constructor
  · intro h
    induction h with
    | nil => rfl
    | cons head tail ih => rw [List.flatMap_cons, ← ih, ← encodes_iff.1 head]
  · rintro rfl
    induction text with
    | nil => exact .nil
    | cons c text ih => exact .cons (encodes_iff.2 rfl) ih

theorem toByteArray_eq_iff {bytes : List UInt8} {array : ByteArray} :
    bytes.toByteArray = array ↔ array.data.toList = bytes := by
  constructor
  · rintro rfl
    exact List.toList_data_toByteArray
  · rintro rfl
    exact ByteArray.ext List.data_toByteArray

/-- **A text has the bytes of its characters.** -/
theorem decodes_toList_iff {array : ByteArray} {text : String} :
    Decodes array.data.toList text.toList ↔ text.toByteArray = array := by
  rw [decodes_iff, ← toByteArray_eq_iff, ← List.utf8Encode, String.utf8Encode_toList]

theorem wellFormed_iff : WellFormed bytes ↔ bytes.toByteArray.IsValidUTF8 := by
  constructor
  · rintro ⟨text, h⟩
    exact .intro text (congrArg _ (decodes_iff.1 h))
  · rintro ⟨text, h⟩
    exact ⟨text, decodes_iff.2 (List.toByteArray_inj.1 h)⟩

instance : DecidablePred WellFormed := fun _ => decidable_of_iff _ wellFormed_iff.symm

/-- A slash with leading zeros, a surrogate, a number above U+10FFFF, and a euro sign broken off. -/
example : ¬ WellFormed [0xC0, 0xAF] ∧ ¬ WellFormed [0xED, 0xA0, 0x80] ∧
    ¬ WellFormed [0xF4, 0x90, 0x80, 0x80] ∧ ¬ WellFormed [0xE2, 0x82] := by decide

/-! ## ASCII -/

/-- **The first byte that is not ASCII**, with the character that starts there. -/
structure FirstHigh (bytes : List UInt8) (offset : Nat) (c : Char) : Prop where
  high : ∃ b, bytes[offset]? = some b ∧ 0x80 ≤ b.toNat
  before : ∀ b ∈ bytes.take offset, b.toNat < 0x80
  character : ∃ front rest, bytes.drop offset = front ++ rest ∧ Encodes front c

theorem Encodes.of_ascii (h : Encodes bytes c) (hc : Text.isAscii c = true) :
    ∃ b, bytes = [b] ∧ b.toNat < 0x80 := by
  have hlt : c.toNat < 0x80 := of_decide_eq_true hc
  have hle : c.val.toNat ≤ 127 := Nat.le_of_lt_succ hlt
  refine ⟨UInt8.ofNat c.toNat, ?_, ?_⟩
  · rw [encodes_iff.1 h]
    exact if_pos hle
  · rw [UInt8.toNat_ofNat']
    omega

theorem Encodes.head (h : Encodes bytes c) (hc : Text.isAscii c = false) :
    ∃ b, bytes.head? = some b ∧ 0x80 ≤ b.toNat := by
  have hle : ¬ c.toNat < 0x80 := of_decide_eq_false hc
  cases h.spells with
  | one ha hn => omega
  | two ha hb hn => exact ⟨_, rfl, by omega⟩
  | three ha hb hc hn => exact ⟨_, rfl, by omega⟩
  | four ha hb hc hd hn => exact ⟨_, rfl, by omega⟩

/-- A byte that is ASCII is a character of its own, and no part of a longer one. -/
theorem Spells.of_low (h : Spells bytes n) {b : UInt8} (hb : b ∈ bytes) (hlow : b.toNat < 0x80) :
    n = b.toNat := by
  cases h with
  | one ha hn => rw [hn, List.mem_singleton.1 hb]
  | two ha hb' hn =>
    unfold IsTail at hb'
    simp only [List.mem_cons, List.not_mem_nil, or_false] at hb
    rcases hb with rfl | rfl <;> omega
  | three ha hb' hc hn =>
    unfold IsTail at hb' hc
    simp only [List.mem_cons, List.not_mem_nil, or_false] at hb
    rcases hb with rfl | rfl | rfl <;> omega
  | four ha hb' hc hd hn =>
    unfold IsTail at hb' hc hd
    simp only [List.mem_cons, List.not_mem_nil, or_false] at hb
    rcases hb with rfl | rfl | rfl | rfl <;> omega

/-- **In ASCII** a character is a byte. -/
theorem Decodes.of_ascii (h : Decodes bytes text) (htext : ∀ c ∈ text, Text.isAscii c = true) :
    bytes.length = text.length ∧ ∀ b ∈ bytes, b.toNat < 0x80 := by
  induction h with
  | nil => simp
  | cons head tail ih =>
    obtain ⟨hc, htext⟩ := List.forall_mem_cons.1 htext
    obtain ⟨b, rfl, hb⟩ := head.of_ascii hc
    obtain ⟨hlen, hbytes⟩ := ih htext
    exact ⟨congrArg (· + 1) hlen, List.forall_mem_cons.2 ⟨hb, hbytes⟩⟩

theorem decodes_append_iff {front back : List Char} : Decodes bytes (front ++ back) ↔
    ∃ before behind, bytes = before ++ behind ∧ Decodes before front ∧ Decodes behind back := by
  simp only [decodes_iff, List.flatMap_append]
  constructor
  · rintro rfl
    exact ⟨_, _, rfl, rfl, rfl⟩
  · rintro ⟨before, behind, rfl, rfl, rfl⟩
    rfl

theorem decodes_cons_iff : Decodes bytes (c :: text) ↔
    ∃ front rest, bytes = front ++ rest ∧ Encodes front c ∧ Decodes rest text := by
  constructor
  · intro h
    cases h with
    | cons head tail => exact ⟨_, _, rfl, head, tail⟩
  · rintro ⟨front, rest, rfl, hfront, hrest⟩
    exact .cons hfront hrest

/-- **ASCII bytes are well-formed.** -/
theorem wellFormed_of_ascii (h : ∀ b ∈ bytes, b.toNat < 0x80) : WellFormed bytes := by
  induction bytes with
  | nil => exact ⟨[], .nil⟩
  | cons b bytes ih =>
    obtain ⟨hb, hbytes⟩ := List.forall_mem_cons.1 h
    obtain ⟨text, htext⟩ := ih hbytes
    have hvalid : b.toNat.isValidChar := .inl (by omega)
    have hc : (Char.ofNat b.toNat).toNat = b.toNat := by
      unfold Char.ofNat
      rw [dif_pos hvalid]
      rfl
    have hencodes : Encodes [b] (Char.ofNat b.toNat) := by
      refine ⟨.one hb hc, ?_⟩
      intro others hothers
      exact hothers.room.1
    exact ⟨_, .cons hencodes htext⟩

end Utf8

/-! ## Files -/

/-- **What is decoded** are the bytes of the text. -/
theorem decode_eq_ok_iff {array : ByteArray} {text : String} :
    decode array = .ok text ↔ text.toByteArray = array := by
  constructor
  · intro h
    unfold decode String.fromUTF8? at h
    split_ifs at h with hvalid
    obtain rfl := Except.ok.inj h
    rfl
  · rintro rfl
    unfold decode String.fromUTF8?
    rw [dif_pos text.isValidUTF8]
    rfl

/-- **Well-formed bytes are decoded**, and they alone. -/
theorem exists_decode_iff {array : ByteArray} :
    (∃ text, decode array = .ok text) ↔ Utf8.WellFormed array.data.toList := by
  simp only [decode_eq_ok_iff]
  constructor
  · rintro ⟨text, h⟩
    exact ⟨_, Utf8.decodes_toList_iff.2 h⟩
  · rintro ⟨text, h⟩
    rw [← String.toList_ofList (l := text), Utf8.decodes_toList_iff] at h
    exact ⟨_, h⟩

theorem decode_eq_error {array : ByteArray} (h : ¬ Utf8.WellFormed array.data.toList) :
    decode array = .error .notText := by
  rw [← exists_decode_iff] at h
  unfold decode at h ⊢
  cases htext : String.fromUTF8? array with
  | none => rfl
  | some text =>
    rw [htext] at h
    exact absurd ⟨text, rfl⟩ h

/-- **What is loaded** are the bytes of the text. -/
theorem load_eq_ok_iff {path : String} {array : ByteArray} {text : String} :
    (load path (.ok array)).value = .ok text ↔ text.toByteArray = array := by
  rw [← decode_eq_ok_iff]
  unfold load
  rw [Except.bind]
  cases decode array <;> simp

/-- **Other bytes are not loaded.** The whole file is blamed. -/
theorem load_eq_error {path : String} {array : ByteArray}
    (h : ¬ Utf8.WellFormed array.data.toList) : (load path (.ok array)).value = .error
      ⟨.inputUnavailable path "stream did not contain valid UTF-8", .ofByte path 0⟩ := by
  unfold load
  rw [Except.bind, decode_eq_error h]
  rfl

end Lexis
