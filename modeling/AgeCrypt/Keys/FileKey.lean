import AgeCrypt.Crypto.Suite
import AgeCrypt.Header.Basic
import AgeCrypt.Tape

/-!
# File keys

Every file has a key of its own.  The key of the payload and the code of the header come from it;
what a stanza carries is the file key sealed under a key that is used once.
-/

namespace AgeCrypt

open Crypto

def fileKeySize : Nat := 16

abbrev FileKey := Block 16

/-- Why a sealed key does not open. -/
inductive UnwrapError where
  | wrongSize
  | unauthentic
deriving DecidableEq, Repr

def UnwrapError.message : UnwrapError → String
  | wrongSize => "ciphertext has the wrong size for the expected plaintext"
  | unauthentic => "authentication tag mismatch"

namespace FileKey

variable [Base64] (S : Suite)

/-- How a file key is shown: not at all. -/
def description : String := "FileKey \x7b bytes: \"[REDACTED]\" \x7d"

def macKey (key : FileKey) : Block 32 :=
  S.derive [] key.bytes (Bytes.ascii "header")

/-- The key of the payload, given the nonce before it. -/
def payloadKey (key : FileKey) (nonce : Bytes) : Block 32 :=
  S.derive nonce key.bytes (Bytes.ascii "payload")

/-- The authentication code of a header with the given stanzas. -/
def mac (key : FileKey) (stanzas : List Stanza) : Block 32 :=
  S.mac (macKey S key).bytes (Header.signedBytes stanzas)

def verifies (key : FileKey) (header : Header) : Bool :=
  mac S key header.stanzas == header.mac

/-- The file key sealed under a key that is used once, so the nonce is zero. -/
def wrap (wrapping : Block 32) (key : FileKey) : Bytes :=
  S.encrypt wrapping (Block.zeros 12) key.bytes

/-- What was sealed under a key that is used once.  The length is fixed in advance, so that no
message opens under many keys. -/
def openSized (wrapping : Block 32) (size : Nat) (sealed : Bytes) : Except UnwrapError Bytes :=
  if sealed.length ≠ size + tagSize then
    .error .wrongSize
  else
    match S.decrypt? wrapping (Block.zeros 12) sealed with
    | some b => .ok b
    | none => .error .unauthentic

def unwrap (wrapping : Block 32) (sealed : Bytes) : Except UnwrapError FileKey := do
  let b ← openSized S wrapping fileKeySize sealed
  match Block.ofBytes? 16 b with
  | some key => .ok key
  | none => .error .wrongSize

def generate (tape : Tape) : FileKey × Tape :=
  tape.draw fileKeySize

end FileKey

end AgeCrypt
