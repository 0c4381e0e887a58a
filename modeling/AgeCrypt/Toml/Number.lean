import AgeCrypt.Toml.Scan
import AgeCrypt.Toml.Value

/-!
# TOML numbers and dates

Integers of 64 bits in base 10, 16, 8 and 2, floating point numbers, and dates with and without a
time of day.  Of the last two only the form is of interest: their values are not kept.
-/

namespace AgeCrypt
namespace Toml

/-! ## Digits -/

def numberOf (base : Nat) (digits : List Char) : Nat :=
  digits.foldl (fun n c => base * n + (hexDigit? c).getD 0) 0

def isDigitOf (base : Nat) (c : Char) : Bool :=
  (hexDigit? c).any (· < base)

/-- Any number of digits; between two digits an underscore may stand. -/
def moreDigits (p : Char → Bool) : List Char → Option (List Char × List Char)
  | [] => some ([], [])
  | '_' :: c :: cs =>
      if p c then (moreDigits p cs).map fun r => (c :: r.1, r.2) else none
  | c :: cs =>
      if p c then (moreDigits p cs).map fun r => (c :: r.1, r.2)
      else if c = '_' then none
      else some ([], c :: cs)

/-- At least one digit; between two digits an underscore may stand. -/
def digits (p : Char → Bool) : Scan (List Char)
  | c :: cs => if p c then (moreDigits p cs).map fun r => (c :: r.1, r.2) else none
  | [] => none

/-- Exactly `n` decimal digits that spell a number in a range. -/
def fixedNumber (n least most : Nat) : Scan Nat := fun cs =>
  let ds := cs.take n
  if ds.length = n ∧ ds.all Char.isDigit ∧ least ≤ numberOf 10 ds ∧ numberOf 10 ds ≤ most then
    some (numberOf 10 ds, cs.drop n)
  else
    none

/-! ## Dates -/

/-- Whether `n` decimal digits and a given character come next. -/
def startsWith (n : Nat) (mark : Char) (cs : List Char) : Bool :=
  (cs.take n).all Char.isDigit && (cs.drop n).head? == some mark

def daysOf (year month : Nat) : Nat :=
  if month = 2 then
    if year % 4 = 0 ∧ (year % 100 ≠ 0 ∨ year % 400 = 0) then 29 else 28
  else if month = 4 ∨ month = 6 ∨ month = 9 ∨ month = 11 then 30
  else 31

def secondFraction : Scan Unit
  | '.' :: c :: cs =>
      if c.isDigit then some ((), cs.dropWhile Char.isDigit) else some ((), '.' :: c :: cs)
  | cs => some ((), cs)

def timeOfDay : Scan Unit := do
  let _ ← fixedNumber 2 0 23
  Scan.char ':'
  let _ ← fixedNumber 2 0 59
  Scan.char ':'
  let _ ← fixedNumber 2 0 60
  secondFraction

def offset : Scan Unit
  | c :: cs =>
      if c = 'Z' ∨ c = 'z' then
        some ((), cs)
      else if c = '+' ∨ c = '-' then
        (do
          let _ ← fixedNumber 2 0 23
          Scan.char ':'
          let _ ← fixedNumber 2 0 59 : Scan Unit) cs
      else
        some ((), c :: cs)
  | [] => some ((), [])

def timeAfterDate : Scan Unit
  | c :: cs =>
      if (c = 'T' ∨ c = 't' ∨ c = ' ') ∧ startsWith 2 ':' cs then
        (do
          timeOfDay
          offset : Scan Unit) cs
      else
        some ((), c :: cs)
  | [] => some ((), [])

def date : Scan Unit := do
  let year ← fixedNumber 4 0 9999
  Scan.char '-'
  let month ← fixedNumber 2 1 12
  Scan.char '-'
  let _ ← fixedNumber 2 1 (daysOf year month)
  timeAfterDate

/-! ## Numbers -/

/-- The integer with a given sign and magnitude, if 64 bits hold it. -/
def integer? (negative : Bool) (magnitude : Nat) : Option Value :=
  if negative then
    if magnitude ≤ Nat.pow 2 63 then some (.integer (-(magnitude : Int))) else none
  else
    if magnitude < Nat.pow 2 63 then some (.integer magnitude) else none

/-- Whether a positive number in scientific form is read as infinity: whether it is at least as far
up as half way from the greatest floating point number to the next power of two. -/
def overflows (mantissa : List Char) (exponent : Int) : Bool :=
  let m := numberOf 10 mantissa
  let limit := Nat.pow 2 1024 - Nat.pow 2 970
  if 0 ≤ exponent then
    m != 0 && (400 ≤ exponent || limit ≤ m * Nat.pow 10 exponent.toNat)
  else
    (-exponent).toNat < mantissa.length && limit * Nat.pow 10 (-exponent).toNat ≤ m

def exponent : Scan (Option Int) := fun cs =>
  match cs with
  | c :: cs' =>
      if c = 'e' ∨ c = 'E' then
        let (negative, cs') := match cs' with
          | '-' :: cs' => (true, cs')
          | '+' :: cs' => (false, cs')
          | cs' => (false, cs')
        (digits Char.isDigit cs').map fun r =>
          let n : Int := numberOf 10 r.1
          (some (if negative then -n else n), r.2)
      else
        some (none, cs)
  | [] => some (none, [])

def places : Scan (Option (List Char)) := fun cs =>
  match cs with
  | '.' :: cs' => (digits Char.isDigit cs').map fun r => (some r.1, r.2)
  | _ => some (none, cs)

/-- The digits of a decimal integer: a zero, or digits that do not begin with one. -/
def leadingDigits : Scan (List Char)
  | '0' :: cs => some (['0'], cs)
  | cs => digits Char.isDigit cs

def decimal (negative : Bool) : Scan Value := do
  let whole ← leadingDigits
  let after ← places
  let scale ← exponent
  match after, scale with
  | none, none => StateT.lift (integer? negative (numberOf 10 whole))
  | _, _ =>
      let fraction := after.getD []
      if ¬ negative ∧ overflows (whole ++ fraction) (scale.getD 0 - fraction.length) then
        failure
      else
        return .float

def inBase (base : Nat) : Scan Value := do
  let ds ← digits (isDigitOf base)
  StateT.lift (integer? false (numberOf base ds))

/-- A number without a sign in a decimal form, infinity, or what is not a number. -/
def unsigned (negative : Bool) : Scan Value := fun cs =>
  match cs with
  | 'i' :: 'n' :: 'f' :: cs' => some (.float, cs')
  | 'n' :: 'a' :: 'n' :: cs' => some (.float, cs')
  | _ => decimal negative cs

def numberOrDate : Scan Value := fun cs =>
  if startsWith 4 '-' cs then
    (date cs).map fun r => (.date, r.2)
  else if startsWith 2 ':' cs then
    (timeOfDay cs).map fun r => (.date, r.2)
  else
    match cs with
    | '0' :: 'x' :: cs' => inBase 16 cs'
    | '0' :: 'o' :: cs' => inBase 8 cs'
    | '0' :: 'b' :: cs' => inBase 2 cs'
    | '+' :: cs' => unsigned false cs'
    | '-' :: cs' => unsigned true cs'
    | _ => unsigned false cs

end Toml
end AgeCrypt
