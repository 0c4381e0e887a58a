import AgeCrypt.Text.Ascii

/-!
# Base64

Bytes as printable text: three bytes as four symbols.  Headers use the form without padding, armor
the form that is filled up by `=` to a multiple of four symbols.

What the formats rest on is stated with the functions.  Above all, a text is decoded only if it is
the one that its bytes are encoded to, so no two texts stand for the same bytes.
-/

namespace AgeCrypt

def Base64.padding : UInt8 := 61

class Base64 where
  encode : Bytes → Bytes
  decode? : Bytes → Option Bytes
  decode?_eq_some_iff {text b : Bytes} : decode? text = some b ↔ encode b = text
  length_encode (b : Bytes) : (encode b).length = (4 * b.length + 2) / 3
  isVisible_of_mem_encode {b : Bytes} {x : UInt8} : x ∈ encode b → Ascii.isVisible x = true
  -- The same with padding.
  encodePadded : Bytes → Bytes
  decodePadded? : Bytes → Option Bytes
  decodePadded?_eq_some_iff {text b : Bytes} : decodePadded? text = some b ↔ encodePadded b = text
  length_encodePadded (b : Bytes) : (encodePadded b).length = 4 * ((b.length + 2) / 3)
  isVisible_of_mem_encodePadded {b : Bytes} {x : UInt8} :
    x ∈ encodePadded b → Ascii.isVisible x = true
  -- Groups of three bytes need no padding, other lengths do.
  padding_notMem_encodePadded {b : Bytes} : b.length % 3 = 0 → Base64.padding ∉ encodePadded b
  getLast?_encodePadded {b : Bytes} :
    b.length % 3 ≠ 0 → (encodePadded b).getLast? = some Base64.padding

namespace Base64

variable [Base64]

/-- What is spelled is read as it was. -/
theorem decode?_encode (b : Bytes) : decode? (encode b) = some b :=
  decode?_eq_some_iff.2 rfl

/-- A text has only one reading, and is the spelling of it. -/
theorem encode_of_decode? {text b : Bytes} (h : decode? text = some b) : encode b = text :=
  decode?_eq_some_iff.1 h

theorem encode_inj {a b : Bytes} (h : encode a = encode b) : a = b := by
  have hdecode := decode?_encode a
  rw [h, decode?_encode] at hdecode
  exact (Option.some.inj hdecode).symm

/-- What is spelled with padding is read as it was. -/
theorem decodePadded?_encodePadded (b : Bytes) : decodePadded? (encodePadded b) = some b :=
  decodePadded?_eq_some_iff.2 rfl

/-- A padded text has only one reading, and is the spelling of it. -/
theorem encodePadded_of_decodePadded? {text b : Bytes} (h : decodePadded? text = some b) :
    encodePadded b = text :=
  decodePadded?_eq_some_iff.1 h

theorem encodePadded_nil : encodePadded [] = [] := by
  rw [← List.length_eq_zero_iff, length_encodePadded]
  rfl

/-- Decoding gives no more bytes than there are symbols. -/
theorem length_of_decodePadded? {text b : Bytes} (h : decodePadded? text = some b) :
    b.length ≤ text.length := by
  rw [← encodePadded_of_decodePadded? h, length_encodePadded]
  omega

end Base64
end AgeCrypt
