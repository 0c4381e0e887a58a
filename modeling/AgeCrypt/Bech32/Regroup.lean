import AgeCrypt.Bytes

/-!
# Regrouping bits

A list of values of one width, read as one run of bits and cut into values of another width.  Key
strings use it from eight bits to five, filling up the last group with zeros, and back from five to
eight, where what is left over must be such a filling.
-/

namespace AgeCrypt
namespace Bech32

inductive Error where
  | mixedCase
  | separatorMisplaced
  | invalidCharacter
  | checksumMismatch
  | invalidHumanPart
  | valueOutOfRange
  | paddingTooLong
  | paddingNotZero
deriving DecidableEq, Repr

def Error.message : Error → String
  | mixedCase => "string mixes upper and lower case"
  | separatorMisplaced => "separator missing or misplaced"
  | invalidCharacter => "invalid character"
  | checksumMismatch => "checksum mismatch"
  | invalidHumanPart => "invalid human-readable prefix"
  | valueOutOfRange => "value out of range for bit conversion"
  | paddingTooLong => "more than 4 bits of padding"
  | paddingNotZero => "non-zero padding bits"

namespace Regroup

/-- The word with the low `n` bits set. -/
def lowBits (n : Nat) : UInt32 :=
  (1 <<< UInt32.ofNat n) - 1

/-- What has been read and not yet written: the low `pending` bits of `acc`.  Values already written
are in `out`, the latest first. -/
structure State where
  acc : UInt32 := 0
  pending : Nat := 0
  out : Bytes := []

/-- Write groups of `target` bits while enough bits are pending. -/
def emit (target : Nat) (s : State) : State :=
  if target = 0 ∨ s.pending < target then
    s
  else
    let left := s.pending - target
    emit target
      { s with
        pending := left
        out := ((s.acc >>> UInt32.ofNat left) &&& lowBits target).toUInt8 :: s.out }
termination_by s.pending
decreasing_by
  rename_i h
  simp only [not_or, Nat.not_lt] at h
  omega

/-- Read one value of `source` bits.  The accumulator keeps `source + target - 1` bits: more are
never pending. -/
def push (source target : Nat) (s : State) (value : UInt8) : Except Error State :=
  let v := value.toUInt32
  if v >>> UInt32.ofNat source ≠ 0 then
    .error .valueOutOfRange
  else
    .ok (emit target
      { s with
        acc := ((s.acc <<< UInt32.ofNat source) ||| v) &&& lowBits (source + target - 1)
        pending := s.pending + source })

/-- The pending bits moved to the top of a group of `target` bits. -/
def rest (target : Nat) (s : State) : UInt32 :=
  (s.acc <<< UInt32.ofNat (target - s.pending)) &&& lowBits target

end Regroup

/-- `values` regrouped from `source` to `target` bits.  With `pad` the last group is filled up with
zero bits; without it, what is left over must be zero bits, and fewer than a whole value's. -/
def regroup (source target : Nat) (pad : Bool) (values : Bytes) : Except Error Bytes := do
  let s ← values.foldlM (Regroup.push source target) {}
  if pad then
    if s.pending > 0 then
      .ok ((Regroup.rest target s).toUInt8 :: s.out).reverse
    else
      .ok s.out.reverse
  else if s.pending ≥ source then
    .error .paddingTooLong
  else if Regroup.rest target s ≠ 0 then
    .error .paddingNotZero
  else
    .ok s.out.reverse

end Bech32
end AgeCrypt
