import AgeCrypt.Crypto.Words

/-!
# SHA-256

The hash function, and the three constructions over it that the format uses: HMAC, HKDF with a
single output block, and PBKDF2.
-/

namespace AgeCrypt
namespace Crypto

namespace Sha256

def roundConstants : List UInt32 :=
  [0x428a2f98, 0x71374491, 0xb5c0fbcf, 0xe9b5dba5, 0x3956c25b, 0x59f111f1, 0x923f82a4, 0xab1c5ed5,
   0xd807aa98, 0x12835b01, 0x243185be, 0x550c7dc3, 0x72be5d74, 0x80deb1fe, 0x9bdc06a7, 0xc19bf174,
   0xe49b69c1, 0xefbe4786, 0x0fc19dc6, 0x240ca1cc, 0x2de92c6f, 0x4a7484aa, 0x5cb0a9dc, 0x76f988da,
   0x983e5152, 0xa831c66d, 0xb00327c8, 0xbf597fc7, 0xc6e00bf3, 0xd5a79147, 0x06ca6351, 0x14292967,
   0x27b70a85, 0x2e1b2138, 0x4d2c6dfc, 0x53380d13, 0x650a7354, 0x766a0abb, 0x81c2c92e, 0x92722c85,
   0xa2bfe8a1, 0xa81a664b, 0xc24b8b70, 0xc76c51a3, 0xd192e819, 0xd6990624, 0xf40e3585, 0x106aa070,
   0x19a4c116, 0x1e376c08, 0x2748774c, 0x34b0bcb5, 0x391c0cb3, 0x4ed8aa4a, 0x5b9cca4f, 0x682e6ff3,
   0x748f82ee, 0x78a5636f, 0x84c87814, 0x8cc70208, 0x90befffa, 0xa4506ceb, 0xbef9a3f7, 0xc67178f2]

structure State where
  a : UInt32
  b : UInt32
  c : UInt32
  d : UInt32
  e : UInt32
  f : UInt32
  g : UInt32
  h : UInt32

namespace State

def initial : State :=
  ⟨0x6a09e667, 0xbb67ae85, 0x3c6ef372, 0xa54ff53a, 0x510e527f, 0x9b05688c, 0x1f83d9ab, 0x5be0cd19⟩

def round (s : State) (k w : UInt32) : State :=
  let s1 := rotateRight s.e 6 ^^^ rotateRight s.e 11 ^^^ rotateRight s.e 25
  let ch := (s.e &&& s.f) ^^^ (~~~s.e &&& s.g)
  let t1 := s.h + s1 + ch + k + w
  let s0 := rotateRight s.a 2 ^^^ rotateRight s.a 13 ^^^ rotateRight s.a 22
  let maj := (s.a &&& s.b) ^^^ (s.a &&& s.c) ^^^ (s.b &&& s.c)
  ⟨t1 + s0 + maj, s.a, s.b, s.c, s.d + t1, s.e, s.f, s.g⟩

def add (s t : State) : State :=
  ⟨s.a + t.a, s.b + t.b, s.c + t.c, s.d + t.d, s.e + t.e, s.f + t.f, s.g + t.g, s.h + t.h⟩

def digest (s : State) : Block 32 :=
  ⟨[s.a, s.b, s.c, s.d, s.e, s.f, s.g, s.h].flatMap bytesBE, rfl⟩

end State

/-- The 64 schedule words of one 64-byte block. -/
def schedule (block : Bytes) : List UInt32 :=
  let extend := fun (w : Array UInt32) (t : Nat) =>
    let w15 := w.getD (t + 1) 0
    let w2 := w.getD (t + 14) 0
    let s0 := rotateRight w15 7 ^^^ rotateRight w15 18 ^^^ (w15 >>> 3)
    let s1 := rotateRight w2 17 ^^^ rotateRight w2 19 ^^^ (w2 >>> 10)
    w.push (w.getD t 0 + s0 + w.getD (t + 9) 0 + s1)
  ((List.range 48).foldl extend (wordsBE block).toArray).toList

def compress (s : State) (block : Bytes) : State :=
  s.add ((roundConstants.zip (schedule block)).foldl (fun s kw => s.round kw.1 kw.2) s)

/-- The message closed by a one bit, zeros, and its length in bits. -/
def pad (message : Bytes) : Bytes :=
  message ++ [0x80] ++ List.replicate ((119 - message.length % 64) % 64) 0
    ++ (Block.ofNatBE 8 (8 * message.length)).bytes

def hash (message : Bytes) : Block 32 :=
  (((pad message).chunks 64).foldl compress .initial).digest

end Sha256

/-- HMAC-SHA-256 of `message` under a key of any length. -/
def hmac (key message : Bytes) : Block 32 :=
  let key := if key.length ≤ 64 then key else (Sha256.hash key).bytes
  let key := key ++ List.replicate (64 - key.length) 0
  let inner := Sha256.hash (key.map (· ^^^ 0x36) ++ message)
  Sha256.hash (key.map (· ^^^ 0x5c) ++ inner.bytes)

/-- HKDF-SHA-256 with one block of output.  An absent salt is the empty one: HMAC fills either up
with the same zeros. -/
def hkdf (salt keyMaterial info : Bytes) : Block 32 :=
  hmac (hmac salt keyMaterial).bytes (info ++ [1])

/-- PBKDF2-HMAC-SHA-256 with a single iteration: `blocks` output blocks of 32 bytes. -/
def pbkdf2 (password salt : Bytes) (blocks : Nat) : Bytes :=
  (List.range blocks).flatMap fun i =>
    (hmac password (salt ++ (Block.ofNatBE 4 (i + 1)).bytes)).bytes

end Crypto
end AgeCrypt
