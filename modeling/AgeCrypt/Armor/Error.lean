/-!
# Armor errors

Why an armored text is refused.
-/

namespace AgeCrypt

inductive ArmorError where
  -- The first line is not the begin marker.
  | missingBegin
  -- A data line has the wrong length, is not base64, or follows a short line.
  | malformedLine
  -- The text ended before the end marker.
  | missingEnd
  -- More than white space follows the end marker.
  | trailingData
deriving DecidableEq, Repr

def ArmorError.message : ArmorError → String
  | missingBegin => "missing armor begin marker"
  | malformedLine => "malformed armor line"
  | missingEnd => "missing armor end marker"
  | trailingData => "trailing data after armor end marker"

end AgeCrypt
