import AgeCrypt.Crypto.Words

/-!
# ChaCha20-Poly1305

Authenticated encryption without associated data.  A sealed message is the message under the
ChaCha20 key stream followed by a 16-byte Poly1305 tag, so sealing adds exactly `tagSize` bytes
(`length_encrypt`) and whatever opens was that much longer (`length_of_decrypt`).
-/

namespace AgeCrypt
namespace Crypto

def tagSize : Nat := 16

namespace ChaCha20

@[inline] def quarter (a b c d : UInt32) : UInt32 × UInt32 × UInt32 × UInt32 :=
  let a := a + b
  let d := rotateLeft (d ^^^ a) 16
  let c := c + d
  let b := rotateLeft (b ^^^ c) 12
  let a := a + b
  let d := rotateLeft (d ^^^ a) 8
  let c := c + d
  let b := rotateLeft (b ^^^ c) 7
  (a, b, c, d)

/-- Four quarter rounds on the columns, then four on the diagonals. -/
def doubleRound (x : Words) : Words :=
  let (x0, x4, x8, x12) := quarter x.w0 x.w4 x.w8 x.w12
  let (x1, x5, x9, x13) := quarter x.w1 x.w5 x.w9 x.w13
  let (x2, x6, x10, x14) := quarter x.w2 x.w6 x.w10 x.w14
  let (x3, x7, x11, x15) := quarter x.w3 x.w7 x.w11 x.w15
  let (x0, x5, x10, x15) := quarter x0 x5 x10 x15
  let (x1, x6, x11, x12) := quarter x1 x6 x11 x12
  let (x2, x7, x8, x13) := quarter x2 x7 x8 x13
  let (x3, x4, x9, x14) := quarter x3 x4 x9 x14
  ⟨x0, x1, x2, x3, x4, x5, x6, x7, x8, x9, x10, x11, x12, x13, x14, x15⟩

def block (key : Block 32) (nonce : Block 12) (counter : UInt32) : Words :=
  let start := Words.ofList
    ([0x61707865, 0x3320646e, 0x79622d32, 0x6b206574] ++ wordsLE key.bytes ++ [counter]
      ++ wordsLE nonce.bytes)
  start.add (Nat.repeat doubleRound 10 start)

/-- `message` combined with the key stream from block `counter` on. -/
def xorStream (key : Block 32) (nonce : Block 12) (counter : UInt32) (message : Bytes) : Bytes :=
  if message = [] then
    []
  else
    List.zipWith (· ^^^ ·) (message.take 64) (block key nonce counter).toBytes
      ++ xorStream key nonce (counter + 1) (message.drop 64)
termination_by message.length
decreasing_by
  rename_i h
  have : message.length ≠ 0 := fun hl => h (List.length_eq_zero_iff.1 hl)
  simp only [List.length_drop]
  omega

@[simp] theorem length_xorStream (key : Block 32) (nonce : Block 12) (counter : UInt32)
    (message : Bytes) : (xorStream key nonce counter message).length = message.length := by
  fun_induction xorStream key nonce counter message with
  | case1 => rfl
  | case2 counter message _ ih =>
      simp only [List.length_append, List.length_zipWith, List.length_take, Words.length_toBytes,
        ih, List.length_drop]
      omega

end ChaCha20

namespace Poly1305

def prime : Nat := Nat.pow 2 130 - 5

/-- The tag of `message` under a one-time key: a polynomial in the first half of the key, with each
run of 16 bytes closed by a one as its coefficient, plus the second half. -/
def tag (key : Block 32) (message : Bytes) : Block 16 :=
  let r := Bytes.toNatLE (key.bytes.take 16) &&& 0x0ffffffc0ffffffc0ffffffc0fffffff
  let s := Bytes.toNatLE (key.bytes.drop 16)
  let step := fun (acc : Nat) (run : Bytes) =>
    (acc + Bytes.toNatLE (run ++ [1])) * r % prime
  Block.ofNatLE 16 ((message.chunks 16).foldl step 0 + s)

end Poly1305

namespace Aead

/-- The tag of a sealed body: the one-time key is the first half of key stream block 0, and the
length of the body is bound in. -/
def tag (key : Block 32) (nonce : Block 12) (body : Bytes) : Block 16 :=
  let oneTime : Block 32 := ⟨(ChaCha20.block key nonce 0).toBytes.take 32, by
    simp [Words.length_toBytes]⟩
  Poly1305.tag oneTime
    (body ++ List.replicate ((16 - body.length % 16) % 16) 0
      ++ (Block.ofNatLE 8 0).bytes ++ (Block.ofNatLE 8 body.length).bytes)

def encrypt (key : Block 32) (nonce : Block 12) (message : Bytes) : Bytes :=
  let body := ChaCha20.xorStream key nonce 1 message
  body ++ (tag key nonce body).bytes

/-- The message that was sealed, or `none` where the tag does not verify. -/
def decrypt? (key : Block 32) (nonce : Block 12) (sealed : Bytes) : Option Bytes :=
  if sealed.length < tagSize then
    none
  else
    let body := sealed.take (sealed.length - tagSize)
    if (tag key nonce body).bytes = sealed.drop (sealed.length - tagSize) then
      some (ChaCha20.xorStream key nonce 1 body)
    else
      none

/-- Sealing adds the tag and nothing else. -/
theorem length_encrypt (key : Block 32) (nonce : Block 12) (message : Bytes) :
    (encrypt key nonce message).length = message.length + tagSize := by
  simp [encrypt, (tag key nonce _).length_eq, tagSize]

/-- What opens is shorter than what was sealed by the tag. -/
theorem length_of_decrypt {key : Block 32} {nonce : Block 12} {sealed message : Bytes}
    (h : decrypt? key nonce sealed = some message) : sealed.length = message.length + tagSize := by
  unfold decrypt? at h
  split at h
  · cases h
  · rename_i hlen
    dsimp only at h
    split at h
    · cases h
      simp only [ChaCha20.length_xorStream, List.length_take]
      omega
    · cases h

end Aead

end Crypto
end AgeCrypt
