import AgeCrypt.Proofs.Base64

/-!
# The Base64 of the program
-/

namespace AgeCrypt
namespace Base64

instance standard : Base64 where
  encode := Strict.encode
  decode? := Strict.decode?
  decode?_eq_some_iff := ⟨Strict.encode_of_decode?, fun h => h ▸ Strict.decode?_encode _⟩
  length_encode := Strict.length_encode
  isVisible_of_mem_encode := Strict.isVisible_of_mem_encode
  encodePadded := Strict.encodePadded
  decodePadded? := Strict.decodePadded?
  decodePadded?_eq_some_iff :=
    ⟨Strict.encodePadded_of_decodePadded?, fun h => h ▸ Strict.decodePadded?_encodePadded _⟩
  length_encodePadded := Strict.length_encodePadded
  isVisible_of_mem_encodePadded := Strict.isVisible_of_mem_encodePadded
  padding_notMem_encodePadded := Strict.padding_notMem_encodePadded
  getLast?_encodePadded := Strict.getLast?_encodePadded

end Base64
end AgeCrypt
