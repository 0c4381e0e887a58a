import AgeCrypt.Crypto.Suite

/-!
# Chunks

A payload is sealed in chunks of 64 KiB; only the last may be shorter, and it is empty only when the
payload is.  Chunk `i` is sealed under the nonce that spells `i`, with a last byte that tells the
last chunk from the others.
-/

namespace AgeCrypt
namespace Payload

open Crypto

def chunkSize : Nat := 64 * 1024

def sealedSize : Nat := chunkSize + tagSize

/-- The nonce of a chunk: its number in eleven bytes, most significant first, and the mark of the
last chunk. -/
def nonce (counter : Nat) (last : Bool) : Block 12 :=
  (Block.ofNatBE 11 counter).append ⟨[if last then 1 else 0], rfl⟩

/-- The numbers a nonce can spell. -/
def counterLimit : Nat := Nat.pow 256 11

/-- A nonce tells the last chunk from the others, and the numbers it can spell from each other. -/
theorem nonce_inj {i j : Nat} {a b : Bool} (h : nonce i a = nonce j b) :
    a = b ∧ (i < counterLimit → j < counterLimit → i = j) := by
  rcases Block.append_inj h with ⟨hcounter, hmark⟩
  refine ⟨?_, fun hi hj => Block.ofNatBE_inj hi hj hcounter⟩
  have hbytes := congrArg Block.bytes hmark
  revert hbytes
  cases a <;> cases b <;> decide

/-- A payload sealed from chunk `counter` on. -/
def sealFrom (S : Suite) (key : Block 32) (counter : Nat) (plaintext : Bytes) : Bytes :=
  if plaintext.length ≤ chunkSize then
    S.encrypt key (nonce counter true) plaintext
  else
    S.encrypt key (nonce counter false) (plaintext.take chunkSize)
      ++ sealFrom S key (counter + 1) (plaintext.drop chunkSize)
termination_by plaintext.length
decreasing_by
  simp only [chunkSize, List.length_drop] at *
  omega

def sealAll (S : Suite) (key : Block 32) (plaintext : Bytes) : Bytes :=
  sealFrom S key 0 plaintext

end Payload
end AgeCrypt
