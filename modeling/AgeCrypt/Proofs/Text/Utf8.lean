import AgeCrypt.Text.Utf8

/-!
# Texts and their bytes

Bytes spell at most one text, the one that has these bytes (`ofUtf8?_eq_some_iff`).  A byte below
128 is always a character of its own, so such a byte at the end can be taken off or put there
without a change to how the rest is read (`ofUtf8?_append`).
-/

namespace AgeCrypt
namespace Text

theorem utf8_append (s t : String) : utf8 (s ++ t) = utf8 s ++ utf8 t := by
  simp only [utf8, String.toByteArray_append, ByteArray.data_append, Array.toList_append]

theorem utf8_ofList (cs : List Char) :
    utf8 (String.ofList cs) = cs.flatMap String.utf8EncodeChar := by
  simp [utf8, List.utf8Encode]

/-- Bytes are read as a text just if they spell it. -/
theorem ofUtf8?_eq_some_iff {b : Bytes} {s : String} : ofUtf8? b = some s ↔ utf8 s = b := by
  have hbytes : utf8 s = b ↔ s.toByteArray = ⟨b.toArray⟩ := by
    rw [ByteArray.ext_iff, ← Array.toList_inj]
    rfl
  rw [hbytes, ofUtf8?, String.fromUTF8?]
  constructor
  · intro h
    split at h
    · rw [← Option.some.inj h]
      rfl
    · cases h
  · intro h
    have hvalid : ByteArray.IsValidUTF8 ⟨b.toArray⟩ := h ▸ s.isValidUTF8
    rw [dif_pos hvalid, Option.some_inj, ← String.toByteArray_inj, h]
    rfl

theorem ofUtf8?_utf8 (s : String) : ofUtf8? (utf8 s) = some s :=
  ofUtf8?_eq_some_iff.2 rfl

/-- Only a character of one byte ends with a byte below 128. -/
theorem utf8EncodeChar_of_last {c : Char} {front : Bytes} {x : UInt8} (hx : x < 128)
    (h : String.utf8EncodeChar c = front ++ [x]) : front = [] := by
  have hlast : ∀ (more : Bytes) {v : Nat}, more ++ [UInt8.ofNat (v % 64 + 128)] = front ++ [x] →
      front = [] := by
    intro more v heq
    have hbyte : UInt8.ofNat (v % 64 + 128) = x := (List.append_singleton_inj.1 heq).2
    rw [← hbyte, UInt8.lt_iff_toNat_lt, UInt8.toNat_ofNat'] at hx
    have hlarge : (128 : UInt8).toNat = 128 := rfl
    omega
  unfold String.utf8EncodeChar at h
  dsimp only at h
  split at h
  · rcases List.append_eq_singleton_iff.1 h.symm with ⟨hfront, -⟩ | ⟨-, hmore⟩
    · exact hfront
    · cases hmore
  · split at h
    · exact hlast [_] h
    · split at h
      · exact hlast [_, _] h
      · exact hlast [_, _, _] h

/-- What is before a byte below 128 spells a text. -/
theorem exists_utf8_of_append {s : String} {b : Bytes} {x : UInt8} (hx : x < 128)
    (h : utf8 s = b ++ [x]) : ∃ t, utf8 t = b := by
  rw [← String.ofList_toList (s := s), utf8_ofList] at h
  rcases List.eq_nil_or_concat s.toList with hnil | ⟨cs, c, hcs⟩
  · rw [hnil] at h
    exact absurd h.symm (List.append_ne_nil_of_right_ne_nil _ (List.cons_ne_nil _ _))
  · have hall : cs.flatMap String.utf8EncodeChar ++ String.utf8EncodeChar c = b ++ [x] := by
      rw [← h, hcs, List.concat_eq_append, List.flatMap_append, List.flatMap_singleton]
    rcases List.eq_nil_or_concat (String.utf8EncodeChar c) with hempty | ⟨front, y, hfront⟩
    · exact absurd hempty String.utf8EncodeChar_ne_nil
    · rw [List.concat_eq_append] at hfront
      rw [hfront, ← List.append_assoc, List.append_singleton_inj] at hall
      have hone : front = [] := utf8EncodeChar_of_last hx (hfront.trans (by rw [hall.2]))
      rw [hone, List.append_nil] at hall
      exact ⟨String.ofList cs, (utf8_ofList cs).trans hall.1⟩

/-- A byte below 128 at the end is a character of its own. -/
theorem ofUtf8?_append (b : Bytes) {x : UInt8} (hx : x < 128) :
    ofUtf8? (b ++ [x]) = (ofUtf8? b).map (· ++ ofAscii [x]) := by
  have hone : utf8 (ofAscii [x]) = [x] := utf8_ofAscii fun y hy => List.mem_singleton.1 hy ▸ hx
  cases hb : ofUtf8? b with
  | some s =>
      rw [ofUtf8?_eq_some_iff] at hb
      rw [Option.map_some, ofUtf8?_eq_some_iff, utf8_append, hone, hb]
  | none =>
      cases hall : ofUtf8? (b ++ [x]) with
      | none => rfl
      | some s =>
          rcases exists_utf8_of_append hx (ofUtf8?_eq_some_iff.1 hall) with ⟨t, ht⟩
          rw [ofUtf8?_eq_some_iff.2 ht] at hb
          cases hb

end Text
end AgeCrypt
