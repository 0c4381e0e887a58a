import AgeCrypt.Bytes

/-!
# ASCII

Classes and case maps of single bytes read as ASCII characters.  Bytes from 128 on belong to no
class and keep their value under both case maps.
-/

namespace AgeCrypt
namespace Ascii

def newline : UInt8 := 10

def carriageReturn : UInt8 := 13

def space : UInt8 := 32

def isUpper (b : UInt8) : Bool :=
  65 ≤ b && b ≤ 90

def isLower (b : UInt8) : Bool :=
  97 ≤ b && b ≤ 122

def isDigit (b : UInt8) : Bool :=
  48 ≤ b && b ≤ 57

/-- A character with a visible form: neither a control nor the blank. -/
def isVisible (b : UInt8) : Bool :=
  33 ≤ b && b ≤ 126

/-- Blank, tab, line feed, form feed or carriage return. -/
def isWhitespace (b : UInt8) : Bool :=
  b == 32 || b == 9 || b == 10 || b == 12 || b == 13

def toLower (b : UInt8) : UInt8 :=
  if isUpper b then b + 32 else b

def toUpper (b : UInt8) : UInt8 :=
  if isLower b then b - 32 else b

end Ascii
end AgeCrypt
