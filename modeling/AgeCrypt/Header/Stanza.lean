import AgeCrypt.Base64
import AgeCrypt.Header.Error
import AgeCrypt.Text.Ascii
import AgeCrypt.Text.Utf8

/-!
# Stanzas

A stanza carries one wrapped copy of the file key.  In the header it is an opening line with its
type and arguments, then its body in base64, 64 columns to a line.  The body ends with its first
shorter line, so a body that fills its lines exactly is followed by an empty one.
-/

namespace AgeCrypt

/-- The columns of a full line of base64, in a stanza body and in an armored text. -/
def columnsPerLine : Nat := 64

/-- The bytes that a full line of base64 spells. -/
def bytesPerLine : Nat := 48

/-- One wrapped copy of the file key. -/
structure Stanza where
  -- The type of the stanza: how the copy is wrapped.
  tag : String
  -- What the type needs to know besides the body.
  args : List String := []
  body : Bytes := []
deriving DecidableEq, Repr

namespace Stanza

variable [Base64]

def mark : Bytes := Bytes.ascii "->"

/-- Whether bytes can stand as a type or an argument: visible ASCII, and some of it. -/
def isName (b : Bytes) : Bool :=
  !b.isEmpty && b.all Ascii.isVisible

def names (s : Stanza) : List String :=
  s.tag :: s.args

/-- Refuse a stanza whose first unfit type or argument cannot be written. -/
def validate (s : Stanza) : Except HeaderError Unit :=
  match s.names.find? fun name => !isName (Text.utf8 name) with
  | some name => .error (.invalidName name)
  | none => .ok ()

def encodeBody (body : Bytes) : Bytes :=
  if (body.take bytesPerLine).length < bytesPerLine then
    Base64.encode body ++ [Ascii.newline]
  else
    Base64.encode (body.take bytesPerLine) ++ [Ascii.newline]
      ++ encodeBody (body.drop bytesPerLine)
termination_by body.length
decreasing_by
  simp only [bytesPerLine, List.length_take, List.length_drop] at *
  omega

def openingLine (s : Stanza) : Bytes :=
  mark ++ s.names.flatMap fun name => Ascii.space :: Text.utf8 name

def encode (s : Stanza) : Bytes :=
  s.openingLine ++ [Ascii.newline] ++ encodeBody s.body

end Stanza

end AgeCrypt
