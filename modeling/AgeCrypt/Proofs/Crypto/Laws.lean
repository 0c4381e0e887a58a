import AgeCrypt.Crypto.Suite

/-!
# Laws of a suite

The theory of the file format asks little of the primitives.  This file states what it asks, as
properties of a `Suite`:

* `OpensSealed` and `SealsOpened` — opening and sealing undo each other, one law for each order;
* `AgreementCommutes` — two key pairs agree on the same value from either side;
* `KeepsApart` — a message sealed under one of finitely many keys opens under no other of them;
* `DerivesApart` — finitely many different inputs give different keys.

The first two hold of the suite that the program runs (`standard_opensSealed`,
`standard_sealsOpened`).  The last two are about the keys of one run only: no cipher whose tag is
shorter than its key, and no derivation of fewer bytes than it is given, could have them for all
keys and inputs at once.
-/

namespace AgeCrypt
namespace Crypto

namespace Suite

/-- What was sealed opens, to what it was. -/
def OpensSealed (S : Suite) : Prop :=
  ∀ k n m, S.decrypt? k n (S.encrypt k n m) = some m

/-- What opens was sealed: sealing what came out gives the same bytes again. -/
def SealsOpened (S : Suite) : Prop :=
  ∀ k n c m, S.decrypt? k n c = some m → S.encrypt k n m = c

/-- Two key pairs agree on the same value from either side. -/
def AgreementCommutes (S : Suite) : Prop :=
  ∀ a b, S.agree a (S.publicKey b) = S.agree b (S.publicKey a)

/-- A message wrapped under one of `keys` opens under no other of them. -/
def KeepsApart (S : Suite) (keys : List (Block 32)) (message : Bytes) : Prop :=
  ∀ a ∈ keys, ∀ b ∈ keys, a ≠ b →
    S.decrypt? b (Block.zeros 12) (S.encrypt a (Block.zeros 12) message) = none

structure DerivationInput where
  salt : Bytes
  keyMaterial : Bytes
  label : Bytes
deriving DecidableEq

def deriveFrom (S : Suite) (i : DerivationInput) : Block 32 :=
  S.derive i.salt i.keyMaterial i.label

/-- No two of `inputs` give the same key. -/
def DerivesApart (S : Suite) (inputs : List DerivationInput) : Prop :=
  ∀ a ∈ inputs, ∀ b ∈ inputs, S.deriveFrom a = S.deriveFrom b → a = b

end Suite

/-! ## The standard suite -/

namespace ChaCha20

/-- Combining with the same bytes twice changes nothing. -/
theorem zipWith_xor_cancel (b k : Bytes) (h : b.length ≤ k.length) :
    List.zipWith (· ^^^ ·) (List.zipWith (· ^^^ ·) b k) k = b := by
  induction b generalizing k with
  | nil =>
      simp
  | cons x b ih =>
      cases k with
      | nil =>
          simp at h
      | cons y k =>
          have htail : b.length ≤ k.length := by
            simpa using h
          rw [List.zipWith_cons_cons, List.zipWith_cons_cons, ih k htail, UInt8.xor_assoc,
            UInt8.xor_self, UInt8.xor_zero]

/-- The key stream covers a first block, which is full unless it is the last, and then the rest. -/
theorem xorStream_append (key : Block 32) (nonce : Block 12) (counter : UInt32) {first rest : Bytes}
    (hne : first ≠ []) (hle : first.length ≤ 64) (hfull : rest ≠ [] → first.length = 64) :
    xorStream key nonce counter (first ++ rest) =
      List.zipWith (· ^^^ ·) first (block key nonce counter).toBytes
        ++ xorStream key nonce (counter + 1) rest := by
  have happ : first ++ rest ≠ [] := by
    simp [hne]
  rw [xorStream, if_neg happ]
  by_cases hrest : rest = []
  · subst hrest
    rw [List.append_nil, List.take_of_length_le hle, List.drop_of_length_le hle]
  · have hlen : first.length = 64 := hfull hrest
    rw [← hlen, List.take_left, List.drop_left]

/-- The key stream is its own inverse. -/
theorem xorStream_xorStream (key : Block 32) (nonce : Block 12) (counter : UInt32)
    (message : Bytes) :
    xorStream key nonce counter (xorStream key nonce counter message) = message := by
  fun_induction xorStream key nonce counter message with
  | case1 counter =>
      simp [xorStream]
  | case2 counter message hne ih =>
      have hblock : (block key nonce counter).toBytes.length = 64 := Words.length_toBytes _
      have hpos : 0 < message.length := List.length_pos_iff.2 hne
      -- the first block of the result is as long as that of the message: it meets the same key bytes
      rw [xorStream_append, ih, zipWith_xor_cancel, List.take_append_drop]
      · simp only [List.length_take, hblock]
        omega
      · rw [← List.length_pos_iff]
        simp only [List.length_zipWith, List.length_take, hblock]
        omega
      · simp only [List.length_zipWith, List.length_take, hblock]
        omega
      · intro hrest
        have hdrop : 0 < (message.drop 64).length := by
          simpa using List.length_pos_iff.2 hrest
        simp only [List.length_drop] at hdrop
        simp only [List.length_zipWith, List.length_take, hblock]
        omega

end ChaCha20

namespace Aead

/-- A body with its tag behind it is cut apart again. -/
theorem decrypt?_append_tag (key : Block 32) (nonce : Block 12) (body : Bytes) :
    decrypt? key nonce (body ++ (tag key nonce body).bytes) =
      some (ChaCha20.xorStream key nonce 1 body) := by
  have htag : (tag key nonce body).bytes.length = 16 := (tag key nonce body).length_eq
  have hlen : (body ++ (tag key nonce body).bytes).length - tagSize = body.length := by
    simp [htag, tagSize]
  unfold decrypt?
  rw [hlen, List.take_left, List.drop_left, if_neg (by simp [htag, tagSize])]
  simp

/-- The key stream is added twice, so it is gone; and the tag is made again. -/
theorem decrypt?_encrypt (key : Block 32) (nonce : Block 12) (message : Bytes) :
    decrypt? key nonce (encrypt key nonce message) = some message := by
  rw [encrypt, decrypt?_append_tag, ChaCha20.xorStream_xorStream]

/-- What is opened determines what was sealed: the body by the key stream, and the tag by the body.
-/
theorem encrypt_of_decrypt? {key : Block 32} {nonce : Block 12} {sealed message : Bytes}
    (h : decrypt? key nonce sealed = some message) : encrypt key nonce message = sealed := by
  unfold decrypt? at h
  split at h
  · cases h
  · dsimp only at h
    split at h
    · rename_i htag
      cases h
      rw [encrypt, ChaCha20.xorStream_xorStream, htag, List.take_append_drop]
    · cases h

end Aead

namespace Suite

theorem standard_opensSealed : standard.OpensSealed := by
  intro k n m
  exact Aead.decrypt?_encrypt k n m

theorem standard_sealsOpened : standard.SealsOpened := by
  intro k n c m h
  exact Aead.encrypt_of_decrypt? h

end Suite

end Crypto
end AgeCrypt
