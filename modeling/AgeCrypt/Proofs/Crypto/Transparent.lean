import AgeCrypt.Proofs.Crypto.Laws

/-!
# Transparent primitives

A suite that hides nothing and keeps things apart: a sealed message is the message itself and a tag
that names the nonce and the beginning of the key.  It has every law of `Proofs.Crypto.Laws`, and it
can be computed with, so it shows that what is asked of primitives can be met.
-/

namespace AgeCrypt

/-- The first `n` bytes of `b`, filled up with zeros. -/
def Block.pad (n : Nat) (b : Bytes) : Block n :=
  ⟨(b ++ List.replicate n 0).take n, by simp⟩

namespace Crypto
namespace Transparent

/-- The tag under a key and a nonce: all of the nonce and four bytes of the key. -/
def tag (key : Block 32) (nonce : Block 12) : Bytes :=
  nonce.bytes ++ key.bytes.take 4

theorem length_tag (key : Block 32) (nonce : Block 12) : (tag key nonce).length = tagSize := by
  simp [tag, nonce.length_eq, key.length_eq, tagSize]

def decrypt? (key : Block 32) (nonce : Block 12) (sealed : Bytes) : Option Bytes :=
  let body := sealed.take (sealed.length - tagSize)
  if sealed = body ++ tag key nonce then some body else none

theorem decrypt?_eq_some_iff {key : Block 32} {nonce : Block 12} {sealed message : Bytes} :
    decrypt? key nonce sealed = some message ↔ sealed = message ++ tag key nonce := by
  constructor
  · intro h
    simp only [decrypt?] at h
    split at h
    · rename_i hsealed
      cases h
      exact hsealed
    · cases h
  · rintro rfl
    have hlen : (message ++ tag key nonce).length - tagSize = message.length := by
      rw [List.length_append, length_tag, Nat.add_sub_cancel]
    simp only [decrypt?, hlen, List.take_left, if_true]

end Transparent

/-- The transparent suite.  A secret is its own public key, and two secrets agree on their
difference bit by bit. -/
def Suite.transparent : Suite where
  encrypt key nonce message := message ++ Transparent.tag key nonce
  decrypt? := Transparent.decrypt?
  mac key message := .pad 32 (key ++ message)
  derive _ keyMaterial _ := .pad 32 keyMaterial
  stretch passphrase salt _ := some (.pad 32 (passphrase ++ salt))
  publicKey secret := secret
  agree secret point := .pad 32 (List.zipWith (· ^^^ ·) secret.bytes point.bytes)
  length_encrypt := by
    intro key nonce message
    rw [List.length_append, Transparent.length_tag]
  length_of_decrypt := by
    intro key nonce sealed message h
    rw [Transparent.decrypt?_eq_some_iff] at h
    rw [h, List.length_append, Transparent.length_tag]

namespace Suite

theorem transparent_opensSealed : transparent.OpensSealed := by
  intro key nonce message
  exact Transparent.decrypt?_eq_some_iff.2 rfl

theorem transparent_agreementCommutes : transparent.AgreementCommutes := by
  intro a b
  change Block.pad 32 (List.zipWith _ a.bytes b.bytes) =
    Block.pad 32 (List.zipWith _ b.bytes a.bytes)
  rw [List.zipWith_comm_of_comm UInt8.xor_comm]

/-- What is sealed under a key and a nonce opens only under that nonce and a key that begins
alike. -/
theorem transparent_decrypt?_encrypt_eq_none {k k' : Block 32} {n n' : Block 12} (m : Bytes)
    (h : Transparent.tag k n ≠ Transparent.tag k' n') :
    transparent.decrypt? k' n' (transparent.encrypt k n m) = none := by
  rw [Option.eq_none_iff_forall_ne_some]
  intro q hq
  have happend : m ++ Transparent.tag k n = q ++ Transparent.tag k' n' :=
    Transparent.decrypt?_eq_some_iff.1 hq
  have hlen : (Transparent.tag k n).length = (Transparent.tag k' n').length := by
    rw [Transparent.length_tag, Transparent.length_tag]
  exact h (List.append_inj_right' happend hlen)

/-- Keys that do not begin alike are kept apart. -/
theorem transparent_keepsApart {keys : List (Block 32)} (message : Bytes)
    (h : ∀ a ∈ keys, ∀ b ∈ keys, a.bytes.take 4 = b.bytes.take 4 → a = b) :
    transparent.KeepsApart keys message := by
  intro a ha b hb hne
  apply transparent_decrypt?_encrypt_eq_none
  intro htag
  exact hne (h a ha b hb (List.append_cancel_left htag))

end Suite

end Crypto
end AgeCrypt
