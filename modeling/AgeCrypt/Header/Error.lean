import AgeCrypt.Io.Error
import AgeCrypt.Text.Quoted

/-!
# Header errors

Why a header is refused.  Lines are counted from 1.
-/

namespace AgeCrypt

/-- The longest header line that is read, without its line feed. -/
def maxLineLength : Nat := 16 * 1024

inductive HeaderError where
  -- The first line is not the one every file begins with.
  | wrongIntro
  -- A line stands where a stanza should open and does not begin with `->`.
  | openingExpected (line : Nat)
  -- A stanza opens without a type, or with arguments that are not visible ASCII.
  | malformedStanza (line : Nat)
  -- A body line has more than 64 columns.
  | bodyLineTooLong (line : Nat)
  -- The closing line is not `--- ` and a code.
  | malformedClosing (line : Nat)
  | invalidBase64 (line : Nat)
  -- A field holds a line break.
  | lineBreakInField
  -- The input ended before the closing line did.
  | truncated
  -- A line is longer than `maxLineLength`.
  | lineTooLong (line : Nat)
  -- A type or an argument cannot be written.
  | invalidName (name : String)
  | io (cause : IoError)
deriving DecidableEq, Repr

def HeaderError.message : HeaderError → String
  | wrongIntro => "unexpected intro line (not an age v1 file)"
  | openingExpected line => s!"line {line}: stanza must start with \"->\""
  | malformedStanza line => s!"line {line}: malformed stanza arguments"
  | bodyLineTooLong line => s!"line {line}: stanza body line longer than 64 columns"
  | malformedClosing line => s!"line {line}: malformed closing line"
  | invalidBase64 line => s!"line {line}: invalid base64"
  | lineBreakInField => "unexpected newline in base64 field"
  | truncated => "header ended before the closing line"
  | lineTooLong line => s!"line {line}: header line longer than {maxLineLength} bytes"
  | invalidName name => "stanza has an invalid type or argument: " ++ Text.quote name
  | io cause => "I/O error reading header: " ++ cause.message

end AgeCrypt
