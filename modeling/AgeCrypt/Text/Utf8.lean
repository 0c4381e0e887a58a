import AgeCrypt.Bytes

/-!
# UTF-8

The bytes of a text, and the text that bytes spell.
-/

namespace AgeCrypt
namespace Text

def utf8 (text : String) : Bytes :=
  text.toByteArray.data.toList

/-- The text spelled by `b`, or `none` where `b` is not UTF-8. -/
def ofUtf8? (b : Bytes) : Option String :=
  String.fromUTF8? ⟨b.toArray⟩

/-- The text whose characters have the bytes of `b` as code points.  On ASCII bytes this is the text
they spell. -/
def ofAscii (b : Bytes) : String :=
  String.ofList (b.map fun x => Char.ofNat x.toNat)

/-! ## ASCII texts -/

theorem utf8_inj {s t : String} : utf8 s = utf8 t ↔ s = t := by
  simp only [utf8, Array.toList_inj, ← ByteArray.ext_iff, String.toByteArray_inj]

/-- A byte below 128 is the encoding of the character with that code point. -/
theorem utf8EncodeChar_ofNat {x : UInt8} (h : x < 128) :
    String.utf8EncodeChar (Char.ofNat x.toNat) = [x] := by
  have hlt : x.toNat < 128 := h
  have hval : (Char.ofNat x.toNat).val.toNat = x.toNat := by
    have hvalid : x.toNat.isValidChar := .inl (by omega)
    rw [Char.ofNat, dif_pos hvalid]
    rfl
  simp only [String.utf8EncodeChar, hval]
  rw [if_pos (by omega)]
  simp

theorem utf8_ofAscii {b : Bytes} (h : ∀ x ∈ b, x < 128) : utf8 (ofAscii b) = b := by
  have hbytes : utf8 (ofAscii b) =
      (b.map fun x => Char.ofNat x.toNat).flatMap String.utf8EncodeChar := by
    simp [utf8, ofAscii, List.utf8Encode]
  rw [hbytes]
  clear hbytes
  induction b with
  | nil => rfl
  | cons x b ih =>
      have hx := utf8EncodeChar_ofNat (h x (List.mem_cons_self ..))
      have hb := ih fun y hy => h y (List.mem_cons_of_mem _ hy)
      rw [List.map_cons, List.flatMap_cons, hx, hb]
      rfl

theorem ofAscii_utf8 {s : String} (h : ∀ x ∈ utf8 s, x < 128) : ofAscii (utf8 s) = s :=
  utf8_inj.1 (utf8_ofAscii h)

theorem ofUtf8?_of_ascii {b : Bytes} (h : ∀ x ∈ b, x < 128) : ofUtf8? b = some (ofAscii b) := by
  have hbytes : (ofAscii b).toByteArray = ⟨b.toArray⟩ := by
    apply ByteArray.ext
    apply Array.toList_inj.1
    exact utf8_ofAscii h
  have hvalid : ByteArray.IsValidUTF8 ⟨b.toArray⟩ := hbytes ▸ (ofAscii b).isValidUTF8
  rw [ofUtf8?, String.fromUTF8?, dif_pos hvalid, Option.some_inj, ← String.toByteArray_inj, hbytes]
  rfl

end Text
end AgeCrypt
