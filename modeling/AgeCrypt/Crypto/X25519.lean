import AgeCrypt.Bytes

/-!
# X25519

Key agreement on the Montgomery curve over the field of `2 ^ 255 - 19` elements.  Secrets are any 32
bytes; the bits the agreement fixes are set when a secret is used, not when it is stored.
-/

namespace AgeCrypt
namespace Crypto
namespace X25519

def fieldSize : Nat := Nat.pow 2 255 - 19

/-- The scalar a secret stands for: its three lowest bits and its highest are cleared, and bit 254
is set. -/
def scalar (secret : Block 32) : Nat :=
  (Bytes.toNatLE secret.bytes &&& (Nat.pow 2 254 - 8)) ||| Nat.pow 2 254

/-- The field element a public key stands for: its highest bit is dropped. -/
def coordinate (point : Block 32) : Nat :=
  Bytes.toNatLE point.bytes % Nat.pow 2 255 % fieldSize

/-- `b ^ e` in the field, by repeated squaring over the 255 low bits of `e`. -/
def power (b e : Nat) : Nat :=
  (List.range 255).foldr
    (fun i acc =>
      let sq := acc * acc % fieldSize
      if e.testBit i then sq * b % fieldSize else sq)
    1

structure Ladder where
  x2 : Nat
  z2 : Nat
  x3 : Nat
  z3 : Nat

namespace Ladder

def swap (l : Ladder) : Ladder :=
  ⟨l.x3, l.z3, l.x2, l.z2⟩

/-- Double the first point and add it to the second, whose difference has coordinate `u`. -/
def step (u : Nat) (l : Ladder) : Ladder :=
  let p := fieldSize
  let a := (l.x2 + l.z2) % p
  let aa := a * a % p
  let b := (l.x2 + p - l.z2) % p
  let bb := b * b % p
  let e := (aa + p - bb) % p
  let c := (l.x3 + l.z3) % p
  let d := (l.x3 + p - l.z3) % p
  let da := d * a % p
  let cb := c * b % p
  let sum := (da + cb) % p
  let difference := (da + p - cb) % p
  ⟨aa * bb % p, e * (aa + 121665 * e) % p, sum * sum % p,
   u * (difference * difference % p) % p⟩

end Ladder

/-- The coordinate of `k` times the point with coordinate `u`. -/
def multiply (k u : Nat) : Nat :=
  let visit := fun (i : Nat) (l : Ladder) =>
    if k.testBit i then ((l.swap).step u).swap else l.step u
  let final := (List.range 255).foldr visit ⟨1, 0, u, 1⟩
  final.x2 * power final.z2 (fieldSize - 2) % fieldSize

/-- The shared value of a secret and a public key. -/
def agree (secret point : Block 32) : Block 32 :=
  Block.ofNatLE 32 (multiply (scalar secret) (coordinate point))

def publicKey (secret : Block 32) : Block 32 :=
  agree secret (Block.ofNatLE 32 9)

end X25519
end Crypto
end AgeCrypt
