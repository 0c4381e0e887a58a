import AgeCrypt.File.Error
import AgeCrypt.Text.Ascii
import AgeCrypt.Text.Utf8

/-!
# Work factors

The cost of stretching a passphrase, as the binary logarithm of the number of blocks.  A stanza
gives it in decimal.
-/

namespace AgeCrypt
namespace WorkFactor

def least : Nat := 2

def greatest : Nat := 30

/-- Whether a work factor is one that is written. -/
def isWritten (logN : Nat) : Bool :=
  least ≤ logN && logN ≤ greatest

/-- The number larger ones are read as. -/
def saturation : Nat := Nat.pow 2 32 - 1

/-- A 32-bit number with one more decimal digit behind it, where there is room for it. -/
def pushDigit (n : Nat) (d : UInt8) : Option Nat :=
  if Ascii.isDigit d then
    let next := 10 * n + (d.toNat - 48)
    if next ≤ saturation then some next else none
  else
    none

/-- The 32-bit number that is written in decimal, with or without a plus sign. -/
def readWord (written : Bytes) : Option Nat :=
  let digits := if written.head? = some 43 then written.tail else written
  if digits = [] then none else digits.foldlM pushDigit 0

/-- The work factor that a text spells: digits without a leading zero.  Those that spell no 32-bit
number spell one that is too large. -/
def parse (text : String) : Except DecryptError Nat :=
  let digits := Text.utf8 text
  if digits = [] ∨ digits.head? = some 48 ∨ ¬ digits.all Ascii.isDigit then
    .error .invalidWorkFactor
  else
    .ok ((readWord digits).getD saturation)

def text (logN : Nat) : String :=
  String.ofList (Nat.toDigits 10 logN)

end WorkFactor
end AgeCrypt
