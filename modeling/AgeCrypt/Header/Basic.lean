import AgeCrypt.Header.Stanza

/-!
# Headers

A header is an introductory line, stanzas, and a closing line with the code that authenticates all
before it.
-/

namespace AgeCrypt

/-- The stanzas of a file and the code that authenticates them. -/
structure Header where
  stanzas : List Stanza
  mac : Block 32
deriving DecidableEq

namespace Header

variable [Base64]

def intro : Bytes := Bytes.ascii "age-encryption.org/v1"

def closingMark : Bytes := Bytes.ascii "---"

/-- The bytes that the code covers: all of the header up to the mark of the closing line. -/
def signedBytes (stanzas : List Stanza) : Bytes :=
  intro ++ [Ascii.newline] ++ stanzas.flatMap Stanza.encode ++ closingMark

def encode (h : Header) : Bytes :=
  signedBytes h.stanzas ++ [Ascii.space] ++ Base64.encode h.mac.bytes ++ [Ascii.newline]

/-- The bytes of an unpadded base64 field, which stands on the given line. -/
def decodeField (line : Nat) (field : Bytes) : Except HeaderError Bytes :=
  if field.any fun b => b == Ascii.newline || b == Ascii.carriageReturn then
    .error .lineBreakInField
  else
    match Base64.decode? field with
    | some b => .ok b
    | none => .error (.invalidBase64 line)

end Header

end AgeCrypt
