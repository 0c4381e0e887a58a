import AgeCrypt.Crypto.Sha256

/-!
# scrypt

The memory-hard key derivation of passphrase recipients, with block size 8 and no parallelism.  Its
cost is `2 ^ logN` blocks of 1024 bytes.
-/

namespace AgeCrypt
namespace Crypto
namespace Scrypt

@[inline] def quarter (a b c d : UInt32) : UInt32 × UInt32 × UInt32 × UInt32 :=
  let b := b ^^^ rotateLeft (a + d) 7
  let c := c ^^^ rotateLeft (b + a) 9
  let d := d ^^^ rotateLeft (c + b) 13
  let a := a ^^^ rotateLeft (d + c) 18
  (a, b, c, d)

/-- Four quarter rounds on the columns, then four on the rows. -/
def doubleRound (x : Words) : Words :=
  let (x0, x4, x8, x12) := quarter x.w0 x.w4 x.w8 x.w12
  let (x5, x9, x13, x1) := quarter x.w5 x.w9 x.w13 x.w1
  let (x10, x14, x2, x6) := quarter x.w10 x.w14 x.w2 x.w6
  let (x15, x3, x7, x11) := quarter x.w15 x.w3 x.w7 x.w11
  let (x0, x1, x2, x3) := quarter x0 x1 x2 x3
  let (x5, x6, x7, x4) := quarter x5 x6 x7 x4
  let (x10, x11, x8, x9) := quarter x10 x11 x8 x9
  let (x15, x12, x13, x14) := quarter x15 x12 x13 x14
  ⟨x0, x1, x2, x3, x4, x5, x6, x7, x8, x9, x10, x11, x12, x13, x14, x15⟩

/-- The Salsa20 core with eight rounds. -/
def salsa8 (x : Words) : Words :=
  x.add (doubleRound (doubleRound (doubleRound (doubleRound x))))

/-- Each piece is mixed into a running state; the states at even places come first. -/
def blockMix (b : List Words) : List Words :=
  let step := fun (acc : Words × List Words × List Words) (piece : Words) =>
    let x := salsa8 (acc.1.xor piece)
    (x, acc.2.2, x :: acc.2.1)
  let (_, odd, even) := b.foldl step (b.getLastD default, [], [])
  if b.length % 2 = 0 then odd.reverse ++ even.reverse else even.reverse ++ odd.reverse

/-- The number spelled by the first eight bytes of the last piece. -/
def index (b : List Words) : Nat :=
  let last := b.getLastD default
  last.w0.toNat + Nat.pow 2 32 * last.w1.toNat

/-- Fill a table with `n` successive states, then walk it `n` times in an order that depends on the
data. -/
def roMix (n : Nat) (b : List Words) : List Words :=
  let fill := fun (acc : List Words × Array (List Words)) (_ : Nat) =>
    (blockMix acc.1, acc.2.push acc.1)
  let (b, table) := Nat.fold n (fun i _ acc => fill acc i) (b, #[])
  Nat.fold n (fun _ _ b => blockMix (b.zipWith Words.xor (table.getD (index b % n) []))) b

/-- Whether the table for this cost can be addressed with 64-bit sizes. -/
def supported (logN : Nat) : Bool :=
  logN < 64 && 1024 * Nat.pow 2 logN < Nat.pow 2 64

/-- The 32-byte scrypt key with `N = 2 ^ logN`, `r = 8` and `p = 1`, or `none` where the table
cannot be addressed. -/
def derive (passphrase salt : Bytes) (logN : Nat) : Option (Block 32) :=
  if supported logN then
    let b := ((pbkdf2 passphrase salt 32).chunks 64).map fun c => Words.ofList (wordsLE c)
    let mixed := (roMix (Nat.pow 2 logN) b).flatMap Words.toBytes
    some (hmac passphrase (mixed ++ [0, 0, 0, 1]))
  else
    none

end Scrypt
end Crypto
end AgeCrypt
