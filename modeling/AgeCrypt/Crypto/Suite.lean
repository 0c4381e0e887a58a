import AgeCrypt.Crypto.Aead
import AgeCrypt.Crypto.Scrypt
import AgeCrypt.Crypto.X25519

/-!
# Suite

The primitives the file format is built on, gathered in one record.  Everything above this module
takes a `Suite` and asks nothing of it but the fields below, so what is proved there holds for any
primitives, ideal ones included.  `Suite.standard` is the one the program runs.
-/

namespace AgeCrypt
namespace Crypto

/-- A choice of primitives. -/
structure Suite where
  -- Authenticated encryption of a message under a key and a nonce.
  encrypt : Block 32 → Block 12 → Bytes → Bytes
  -- What a sealed message holds, or `none` where it does not authenticate.
  decrypt? : Block 32 → Block 12 → Bytes → Option Bytes
  -- The message authentication code of a message under a key.
  mac : (key message : Bytes) → Block 32
  -- The key derived from a salt, key material and a label.
  derive : (salt keyMaterial label : Bytes) → Block 32
  -- The key derived from a passphrase at cost `2 ^ logN`, or `none` where that cost is beyond
  -- reach.
  stretch : (passphrase salt : Bytes) → (logN : Nat) → Option (Block 32)
  publicKey : Block 32 → Block 32
  -- The value a secret shares with a public key.
  agree : (secret point : Block 32) → Block 32
  -- Sealing adds one tag.
  length_encrypt : ∀ k n m, (encrypt k n m).length = m.length + tagSize
  -- What opens was one tag longer.
  length_of_decrypt : ∀ {k n c m}, decrypt? k n c = some m → c.length = m.length + tagSize

/-- ChaCha20-Poly1305, HMAC and HKDF over SHA-256, scrypt, and X25519. -/
def Suite.standard : Suite where
  encrypt := Aead.encrypt
  decrypt? := Aead.decrypt?
  mac := hmac
  derive := hkdf
  stretch := Scrypt.derive
  publicKey := X25519.publicKey
  agree := X25519.agree
  length_encrypt := Aead.length_encrypt
  length_of_decrypt := Aead.length_of_decrypt

end Crypto
end AgeCrypt
