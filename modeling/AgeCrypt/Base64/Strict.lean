import AgeCrypt.Base64

/-!
# Base64 read strictly

Base64 with the standard alphabet, read strictly: the unused bits of the last symbol must be zero,
so every byte string has one spelling without padding and one with it.
-/

namespace AgeCrypt
namespace Base64.Strict

def symbol (v : Nat) : UInt8 :=
  if v < 26 then UInt8.ofNat (65 + v)
  else if v < 52 then UInt8.ofNat (71 + v)
  else if v < 62 then UInt8.ofNat (v - 4)
  else if v = 62 then 43
  else 47

/-- The six-bit value of a symbol; bytes outside the alphabet have none. -/
def value? (s : UInt8) : Option Nat :=
  if 65 ≤ s ∧ s ≤ 90 then some (s.toNat - 65)
  else if 97 ≤ s ∧ s ≤ 122 then some (s.toNat - 71)
  else if 48 ≤ s ∧ s ≤ 57 then some (s.toNat + 4)
  else if s = 43 then some 62
  else if s = 47 then some 63
  else none

/-- The unpadded spelling: three bytes give four symbols. -/
def encode : Bytes → Bytes
  | a :: b :: c :: rest =>
      symbol (a.toNat / 4)
        :: symbol (a.toNat % 4 * 16 + b.toNat / 16)
        :: symbol (b.toNat % 16 * 4 + c.toNat / 64)
        :: symbol (c.toNat % 64)
        :: encode rest
  | [a, b] =>
      [symbol (a.toNat / 4), symbol (a.toNat % 4 * 16 + b.toNat / 16), symbol (b.toNat % 16 * 4)]
  | [a] =>
      [symbol (a.toNat / 4), symbol (a.toNat % 4 * 16)]
  | [] => []

/-- The bytes that an unpadded text spells, or `none` where it is not the spelling of any. -/
def decode? : Bytes → Option Bytes
  | p :: q :: r :: s :: rest => do
      let p ← value? p
      let q ← value? q
      let r ← value? r
      let s ← value? s
      let tail ← decode? rest
      some (UInt8.ofNat (p * 4 + q / 16) :: UInt8.ofNat (q % 16 * 16 + r / 4)
        :: UInt8.ofNat (r % 4 * 64 + s) :: tail)
  | [p, q, r] => do
      let p ← value? p
      let q ← value? q
      let r ← value? r
      if r % 4 = 0 then
        some [UInt8.ofNat (p * 4 + q / 16), UInt8.ofNat (q % 16 * 16 + r / 4)]
      else
        none
  | [p, q] => do
      let p ← value? p
      let q ← value? q
      if q % 16 = 0 then
        some [UInt8.ofNat (p * 4 + q / 16)]
      else
        none
  | [_] => none
  | [] => some []

/-- A text filled up by padding to a multiple of four symbols. -/
def fill (text : Bytes) : Bytes :=
  text ++ List.replicate ((4 - text.length % 4) % 4) padding

/-- A text without the padding at its end. -/
def strip (text : Bytes) : Bytes :=
  (text.reverse.dropWhile (· == padding)).reverse

def encodePadded (b : Bytes) : Bytes :=
  fill (encode b)

/-- The bytes that a padded text spells, or `none` where it is not the padded spelling of any. -/
def decodePadded? (text : Bytes) : Option Bytes :=
  if fill (strip text) = text then decode? (strip text) else none

end Base64.Strict
end AgeCrypt
