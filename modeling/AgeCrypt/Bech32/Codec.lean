import AgeCrypt.Bech32.Checksum
import AgeCrypt.Bech32.Regroup
import AgeCrypt.Text.Utf8

/-!
# Key strings

A key string is a human-readable part, the separator `1`, the data in symbols of five bits, and a
checksum.  It is written in one case: upper where the human-readable part has an upper-case letter.
There is no limit on its length.
-/

namespace AgeCrypt
namespace Bech32

def separator : UInt8 := 49

/-- The symbols of the values 0 to 31. -/
def alphabet : Bytes :=
  Bytes.ascii "qpzry9x8gf2tvdw0s3jn54khce6mua7l"

def symbol (v : UInt8) : UInt8 :=
  alphabet.getD v.toNat 0

def value? (s : UInt8) : Option UInt8 :=
  (alphabet.idxOf? (Ascii.toLower s)).map UInt8.ofNat

def encodeBytes (human data : Bytes) : Except Error Bytes :=
  if human = [] ∨ ¬ human.all Ascii.isVisible then
    .error .invalidHumanPart
  else if human.any Ascii.isUpper ∧ human.any Ascii.isLower then
    .error .mixedCase
  else do
    let values ← regroup 8 5 true data
    let text := human.map Ascii.toLower
      ++ separator :: (values ++ checksum human values).map symbol
    .ok (if human.any Ascii.isUpper then text.map Ascii.toUpper else text)

/-- A byte string cut at the last occurrence of `mark`, which is left out. -/
def splitLast (mark : UInt8) : Bytes → Option (Bytes × Bytes)
  | [] => none
  | x :: rest =>
      match splitLast mark rest with
      | some (before, after) => some (x :: before, after)
      | none => if x = mark then some ([], rest) else none

/-- The human-readable part, its case as written, and the data that a key string spells. -/
def decodeBytes (text : Bytes) : Except Error (Bytes × Bytes) :=
  if text.any Ascii.isLower ∧ text.any Ascii.isUpper then
    .error .mixedCase
  else
    match splitLast separator text with
    | none => .error .separatorMisplaced
    | some (human, symbols) =>
        if human = [] ∨ symbols.length < checksumLength then
          .error .separatorMisplaced
        else if ¬ human.all Ascii.isVisible then
          .error .invalidCharacter
        else
          match symbols.mapM value? with
          | none => .error .invalidCharacter
          | some values =>
              if ¬ verify human values then
                .error .checksumMismatch
              else do
                let data ← regroup 5 8 false (values.take (values.length - checksumLength))
                .ok (human, data)

/-- The key string of `data` under a human-readable part. -/
def encode (human : String) (data : Bytes) : Except Error String :=
  (encodeBytes (Text.utf8 human) data).map Text.ofAscii

def decode (text : String) : Except Error (String × Bytes) :=
  (decodeBytes (Text.utf8 text)).map fun r => (Text.ofAscii r.1, r.2)

end Bech32
end AgeCrypt
