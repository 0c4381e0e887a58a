import AgeCrypt.Header.Stanza

/-!
# Armored text

The armored form of a file is text: a begin marker, the file in padded base64 with 64 columns to a
line, and an end marker.
-/

namespace AgeCrypt
namespace Armor

variable [Base64]

def beginMarker : Bytes := Bytes.ascii "-----BEGIN AGE ENCRYPTED FILE-----"

def endMarker : Bytes := Bytes.ascii "-----END AGE ENCRYPTED FILE-----"

def dataLine (b : Bytes) : Bytes :=
  Base64.encodePadded b ++ [Ascii.newline]

/-- The armored form of a file. -/
def text (file : Bytes) : Bytes :=
  beginMarker ++ [Ascii.newline] ++ (file.chunks bytesPerLine).flatMap dataLine
    ++ endMarker ++ [Ascii.newline]

end Armor
end AgeCrypt
