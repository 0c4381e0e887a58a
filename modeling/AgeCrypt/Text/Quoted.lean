import AgeCrypt.Text.Combining
import AgeCrypt.Text.Unprintable

/-!
# Quoted text

Text as it is quoted in messages: between double quotes, on one line, with every character visible.
-/

namespace AgeCrypt
namespace Text

/-- A character inside quotes.  The quote, the backslash and the common controls have short escapes;
any other character that cannot stand alone is given by its code point. -/
def escape (c : Char) : String :=
  if c = '"' then "\\\""
  else if c = '\\' then "\\\\"
  else if c = '\n' then "\\n"
  else if c = '\r' then "\\r"
  else if c = '\t' then "\\t"
  else if c = '\x00' then "\\0"
  else if isCombining c || isUnprintable c then
    "\\u\x7b" ++ String.ofList (Nat.toDigits 16 c.toNat) ++ "\x7d"
  else c.toString

def quote (text : String) : String :=
  "\"" ++ String.join (text.toList.map escape) ++ "\""

end Text
end AgeCrypt
