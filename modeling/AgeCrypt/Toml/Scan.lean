/-!
# Scanning TOML

The small pieces of a TOML document: what characters may stand where, blanks, line ends and
comments.  A scanner takes what it understands from the front of a text.
-/

namespace AgeCrypt
namespace Toml

/-- A reader of the front of a text: what it found, and what is left. -/
abbrev Scan (α : Type) : Type := StateT (List Char) Option α

/-! ## Classes of characters -/

def isBlank (c : Char) : Bool :=
  c == ' ' || c == '\t'

/-- A character that stands for itself: anything but control characters other than the tab. -/
def isPlain (c : Char) : Bool :=
  c == '\t' || (0x20 ≤ c.toNat && c.toNat != 0x7f)

/-- A character of a name that needs no quotes. -/
def isBare (c : Char) : Bool :=
  c.isAlphanum || c == '-' || c == '_'

def hexDigit? (c : Char) : Option Nat :=
  if c.isDigit then some (c.toNat - '0'.toNat)
  else if 'a' ≤ c ∧ c ≤ 'f' then some (c.toNat - 'a'.toNat + 10)
  else if 'A' ≤ c ∧ c ≤ 'F' then some (c.toNat - 'A'.toNat + 10)
  else none

namespace Scan

/-! ## Pieces -/

def rest : Scan (List Char) :=
  fun cs => some (cs, cs)

def leave (cs : List Char) : Scan Unit :=
  fun _ => some ((), cs)

def char (c : Char) : Scan Unit
  | x :: cs => if x = c then some ((), cs) else none
  | [] => none

def accept (c : Char) : Scan Bool
  | x :: cs => if x = c then some (true, cs) else some (false, x :: cs)
  | [] => some (false, [])

def word (w : String) : Scan Unit :=
  fun cs => if w.toList.isPrefixOf cs then some ((), cs.drop w.length) else none

def blanks : Scan Unit :=
  fun cs => some ((), cs.dropWhile isBlank)

def lineBreak? : List Char → Option (List Char)
  | '\n' :: cs => some cs
  | '\r' :: '\n' :: cs => some cs
  | _ => none

def skipLineBreak (cs : List Char) : List Char :=
  (lineBreak? cs).getD cs

def skipComment : List Char → List Char
  | '#' :: cs => cs.dropWhile isPlain
  | cs => cs

/-- The rest of a line on which nothing more is said. -/
def lineEnd : Scan Unit :=
  fun cs =>
    match skipComment (cs.dropWhile isBlank) with
    | [] => some ((), [])
    | c :: cs => (lineBreak? (c :: cs)).map fun left => ((), left)

/-- A text without the blanks, line ends and comments it begins with, given whether it begins inside
a comment. -/
def dropGap : Bool → List Char → List Char
  | _, [] => []
  | inComment, c :: cs =>
      if inComment && isPlain c then dropGap true cs
      else if isBlank c || c == '\n' || (c == '\r' && cs.head? == some '\n') then dropGap false cs
      else if c == '#' then dropGap true cs
      else c :: cs

def gap : Scan Unit :=
  fun cs => some ((), dropGap false cs)

end Scan

end Toml
end AgeCrypt
