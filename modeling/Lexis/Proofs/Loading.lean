import Lexis.Proofs.Encoding
import Lexis.Proofs.Invocations
import Lexis.Proofs.Refusals

/-!
# Sessions over the bytes of a file

A file is read as a whole before its text is looked at. So bytes that are not well-formed are the
error, wherever they stand, and then the first byte that is not ASCII.

* `Refused.firstHigh`: the character that a text is refused for starts with the first byte that is
  not ASCII.
* `ofFile_of_bytes`: **what bytes come to**, whatever they are.
-/

namespace Lexis

open Utf8 (Encodes Decodes WellFormed FirstHigh)

variable {path : String} {array : ByteArray} {bytes : List UInt8} {text : List Char}

/-- **The character that a text is refused for** starts with the first byte that is not ASCII. -/
theorem Refused.firstHigh {offset : Nat} {c : Char} (h : Refused text offset c)
    (hbytes : Decodes bytes text) : FirstHigh bytes offset c := by
  rw [← List.take_append_drop offset text, h.drop_eq] at hbytes
  obtain ⟨before, behind, rfl, hbefore, hbehind⟩ := Utf8.decodes_append_iff.1 hbytes
  obtain ⟨front, rest, rfl, hfront, -⟩ := Utf8.decodes_cons_iff.1 hbehind
  obtain ⟨b, hb, hhigh⟩ := hfront.head h.notAscii
  obtain ⟨hlen, hlow⟩ := hbefore.of_ascii h.before
  have hoffset : before.length = offset := by
    rw [hlen, List.length_take, Nat.min_eq_left h.lt_length.le]
  refine ⟨⟨b, ?_, hhigh⟩, ?_, front, rest, ?_, hfront⟩
  · rw [← List.head?_drop, List.drop_left' hoffset, List.head?_append, hb]
    rfl
  · rwa [List.take_left' hoffset]
  · exact List.drop_left' hoffset

/-- So a text has no such character exactly if its bytes are ASCII. -/
theorem ascii_iff_of_decodes (h : Decodes bytes text) :
    (∀ c ∈ text, Text.isAscii c = true) ↔ ∀ b ∈ bytes, b.toNat < 0x80 := by
  constructor
  · intro htext
    exact (h.of_ascii htext).2
  · intro hbytes
    by_contra htext
    simp only [not_forall, Bool.not_eq_true] at htext
    obtain ⟨c, hmem, hc⟩ := htext
    obtain ⟨offset, d, hrefused⟩ := exists_refused_iff.2 ⟨c, hmem, hc⟩
    obtain ⟨b, hb, hhigh⟩ := (hrefused.firstHigh h).high
    have hlow := hbytes b (List.mem_of_getElem? hb)
    omega

/-- **What bytes come to.** A file can be loaded exactly if its bytes are well-formed UTF-8, and its
text has these bytes. If they are not, there is no session, and the file as a whole is blamed,
whatever stands before the first bad byte. If they are well-formed but not all ASCII, the first that
is not is blamed, with the character that starts there. If they are ASCII, there is a session, the
one over the text. -/
theorem ofFile_of_bytes (settings : Settings) (path : String) (array : ByteArray) :
    let bytes := array.data.toList
    let loaded := (load path (.ok array)).value
    let session := (Session.ofFile settings path (.ok array)).value
    let unavailable : Error :=
      ⟨.inputUnavailable path "stream did not contain valid UTF-8", ⟨0, path⟩⟩
    ((∃ text, loaded = .ok text) ↔ WellFormed bytes) ∧
    (∀ text, loaded = .ok text ↔ text.toByteArray = array) ∧
    (¬ WellFormed bytes → loaded = .error unavailable ∧ session = .error unavailable) ∧
    (WellFormed bytes → (∃ b ∈ bytes, 0x80 ≤ b.toNat) → ∃ offset c position,
      FirstHigh bytes offset c ∧ session = .error ⟨.nonAscii c, position⟩ ∧
      position.file = path ∧ position.offset.toNat = offset % UInt32.size) ∧
    ((∀ b ∈ bytes, b.toNat < 0x80) → ∃ text s, loaded = .ok text ∧
      (Session.start settings path text.toList).value = .ok s ∧ session = .ok s) := by
  intro bytes loaded session unavailable
  have hloaded : (∃ text, loaded = .ok text) ↔ WellFormed bytes := by
    rw [← exists_decode_iff]
    simp only [loaded, load_eq_ok_iff, decode_eq_ok_iff]
  refine ⟨hloaded, fun text => load_eq_ok_iff, ?_, ?_, ?_⟩
  · intro hill
    have hload : loaded = .error unavailable := load_eq_error hill
    exact ⟨hload, Session.ofFile_eq_error_iff.2 (.inl hload)⟩
  · rintro hwell ⟨b, hb, hhigh⟩
    obtain ⟨text, hload⟩ := hloaded.2 hwell
    have hbytes := Utf8.decodes_toList_iff.2 (load_eq_ok_iff.1 hload)
    have hrefused : ∃ c ∈ text.toList, Text.isAscii c = false := by
      by_contra hnone
      have hlow := (ascii_iff_of_decodes hbytes).1 (by simpa using hnone) b hb
      omega
    obtain ⟨offset, c, hrefused⟩ := exists_refused_iff.2 hrefused
    have herror : (sanitize path text.toList).value = .error ⟨.nonAscii c, .ofByte path offset⟩ :=
      sanitize_eq_error_iff.2 ⟨offset, c, hrefused, rfl⟩
    exact ⟨offset, c, _, hrefused.firstHigh hbytes,
      Session.ofFile_eq_error_iff.2 (.inr ⟨text, hload, herror⟩), rfl, rfl⟩
  · intro hlow
    obtain ⟨text, hload⟩ := hloaded.2 (Utf8.wellFormed_of_ascii hlow)
    have hbytes := Utf8.decodes_toList_iff.2 (load_eq_ok_iff.1 hload)
    have hascii := (ascii_iff_of_decodes hbytes).2 hlow
    refine ⟨text, _, hload, start_of_ascii settings path hascii, ?_⟩
    exact Session.ofFile_eq_ok_iff.2 ⟨text, _, hload, sanitize_of_ascii path hascii, rfl⟩

/-- A word that no rule accepts and a letter that is not ASCII, with half a letter behind them and
without; and the word alone. -/
theorem ofFile_of_bytes_brokenOff :
    let broken : ByteArray := [0x3F, 0x20, 0xC3, 0xA9, 0xC3].toByteArray
    let whole : ByteArray := [0x3F, 0x20, 0xC3, 0xA9].toByteArray
    let plain : ByteArray := [0x3F, 0x20].toByteArray
    let unavailable : Error :=
      ⟨.inputUnavailable "f" "stream did not contain valid UTF-8", ⟨0, "f"⟩⟩
    (¬ WellFormed broken.data.toList ∧ (load "f" (.ok broken)).value = .error unavailable ∧
      (Session.ofFile {} "f" (.ok broken)).value = .error unavailable) ∧
    (WellFormed whole.data.toList ∧ (∃ b ∈ whole.data.toList, 0x80 ≤ b.toNat) ∧
      FirstHigh whole.data.toList 2 'é' ∧
      (Session.ofFile {} "f" (.ok whole)).value = .error ⟨.nonAscii 'é', .ofByte "f" 2⟩) ∧
    (∀ b ∈ plain.data.toList, b.toNat < 0x80) ∧ ∃ s,
      (Session.start {} "f" "? ".toList).value = .ok s ∧
      (Session.ofFile {} "f" (.ok plain)).value = .ok s := by
  intro broken whole plain unavailable
  have hbroken : ¬ WellFormed broken.data.toList := by decide
  have hwhole : WellFormed whole.data.toList := by decide
  have hhigh : ∃ b ∈ whole.data.toList, 0x80 ≤ b.toNat :=
    ⟨0xC3, by simp [whole], by decide⟩
  have hplain : ∀ b ∈ plain.data.toList, b.toNat < 0x80 := by simp [plain]
  refine ⟨⟨hbroken, (ofFile_of_bytes {} "f" broken).2.2.1 hbroken⟩, ⟨hwhole, hhigh, ?_⟩, hplain, ?_⟩
  · obtain ⟨-, hload, -, hfirst, -⟩ := ofFile_of_bytes {} "f" whole
    obtain ⟨offset, c, position, hfirst, hsession, -, hoffset⟩ := hfirst hwhole hhigh
    have hwhole : (load "f" (.ok whole)).value = .ok "? é" := (hload _).2 rfl
    have herror : (Session.ofFile {} "f" (.ok whole)).value =
        .error ⟨.nonAscii 'é', .ofByte "f" 2⟩ :=
      Session.ofFile_eq_error_iff.2 (.inr ⟨_, hwhole, rfl⟩)
    obtain ⟨⟨⟩, rfl⟩ := Error.mk.inj (Except.error.inj (hsession.symm.trans herror))
    obtain rfl : offset = 2 := by
      obtain ⟨b, hb, -⟩ := hfirst.high
      have hlt : offset < 4 := (List.getElem?_eq_some_iff.1 hb).1
      have hmod : 2 = offset % 4294967296 := hoffset
      omega
    exact ⟨hfirst, herror⟩
  · obtain ⟨-, hload, -, -, hascii⟩ := ofFile_of_bytes {} "f" plain
    obtain ⟨text, s, htext, hs, hsession⟩ := hascii hplain
    have hplain : (load "f" (.ok plain)).value = .ok "? " := (hload _).2 rfl
    obtain rfl := Except.ok.inj (htext.symm.trans hplain)
    exact ⟨s, hs, hsession⟩

end Lexis
