import AgeCrypt.Text.Ascii

/-!
# Checksum

The six-symbol remainder that closes a key string.  It is taken over the human-readable part, spread
into five-bit values, and the data.
-/

namespace AgeCrypt
namespace Bech32

def checksumLength : Nat := 6

/-- The words added for each of the five bits shifted out. -/
def generators : List UInt32 :=
  [0x3b6a57b2, 0x26508e6d, 0x1ea119fa, 0x3d4233dd, 0x2a1462b3]

def remainderStep (chk : UInt32) (v : UInt8) : UInt32 :=
  let top := chk >>> 25
  let shifted := ((chk &&& 0x1ffffff) <<< 5) ^^^ v.toUInt32
  generators.zipIdx.foldl
    (fun acc g => if (top >>> UInt32.ofNat g.2) &&& 1 = 1 then acc ^^^ g.1 else acc)
    shifted

def remainder (values : Bytes) : UInt32 :=
  values.foldl remainderStep 1

/-- The human-readable part as symbols: the high bits of its lower-case characters, a zero, then
their low bits. -/
def expand (human : Bytes) : Bytes :=
  let lower := human.map Ascii.toLower
  lower.map (fun (b : UInt8) => b >>> 5) ++ 0 :: lower.map (fun (b : UInt8) => b &&& 31)

def verify (human values : Bytes) : Bool :=
  remainder (expand human ++ values) == 1

def checksum (human values : Bytes) : Bytes :=
  let m := remainder (expand human ++ values ++ List.replicate checksumLength 0) ^^^ 1
  (List.range checksumLength).map fun i => ((m >>> UInt32.ofNat (5 * (5 - i))) &&& 31).toUInt8

end Bech32
end AgeCrypt
