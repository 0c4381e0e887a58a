import AgeCrypt.Bech32.Codec
import AgeCrypt.Keys.Party

/-!
# Key pairs

Public keys that files are written to, and the secret keys that open them.  Both are 32 bytes and
are written as key strings: a public key under `age`, a secret key in upper case under
`AGE-SECRET-KEY-`.

To wrap a file key, a fresh secret is agreed with the public key, and the shared value is turned
into a wrapping key together with both public keys.  The stanza carries the public key of the fresh
secret.
-/

namespace AgeCrypt

open Crypto

variable [Base64]

inductive KeyError where
  -- It is no key string.
  | encoding (cause : Bech32.Error)
  -- It is a key string of another kind.
  | wrongKind (expected found : String)
  -- It does not spell 32 bytes.
  | wrongLength (found : Nat)
deriving DecidableEq, Repr

def KeyError.message : KeyError → String
  | encoding cause => "invalid key encoding: " ++ cause.message
  | wrongKind expected found =>
      "unexpected key prefix " ++ Text.quote found ++ " (expected " ++ Text.quote expected ++ ")"
  | wrongLength found => s!"key has {found} bytes (expected 32)"

/-- The 32 bytes of a key string whose human-readable part is `kind` in either case. -/
def decodeKey (kind text : String) : Except KeyError (Block 32) :=
  match Bech32.decode text with
  | .error e => .error (.encoding e)
  | .ok (found, data) =>
      if (Text.utf8 found).map Ascii.toLower ≠ (Text.utf8 kind).map Ascii.toLower then
        .error (.wrongKind kind found)
      else
        match Block.ofBytes? 32 data with
        | some key => .ok key
        | none => .error (.wrongLength data.length)

/-- A key string.  Both kinds have a human-readable part that can be written. -/
def encodeKey (kind : String) (key : Block 32) : String :=
  match Bech32.encode kind key.bytes with
  | .ok text => text
  | .error _ => ""

structure PublicKey where
  -- The key as it is written and agreed with.
  point : Block 32
deriving DecidableEq

structure SecretKey where
  -- The secret as it is written; the bits that agreement fixes are as they were given.
  secret : Block 32
deriving DecidableEq

def keyPairTag : String := "X25519"

/-- The wrapping key for a shared value: both public keys are bound in. -/
def keyPairWrapping (S : Suite) (ephemeral recipient shared : Block 32) : Block 32 :=
  S.derive (ephemeral.bytes ++ recipient.bytes) shared.bytes
    (Bytes.ascii "age-encryption.org/v1/X25519")

namespace PublicKey

def kind : String := "age"

def parse (text : String) : Except KeyError PublicKey :=
  (decodeKey kind text).map fun b => ⟨b⟩

def text (k : PublicKey) : String :=
  encodeKey kind k.point

def description (k : PublicKey) : String :=
  "X25519Recipient(" ++ k.text ++ ")"

def wrap (S : Suite) (k : PublicKey) (fileKey : FileKey) (tape : Tape) :
    Except EncryptError (List Stanza × Tape) :=
  let (secret, tape) := tape.draw 32
  let ephemeral := S.publicKey secret
  let shared := S.agree secret k.point
  if shared = Block.zeros 32 then
    .error .lowOrderRecipient
  else
    .ok ([{ tag := keyPairTag
            args := [Text.ofAscii (Base64.encode ephemeral.bytes)]
            body := FileKey.wrap S (keyPairWrapping S ephemeral k.point shared) fileKey }], tape)

def recipient (S : Suite) (k : PublicKey) : Recipient where
  wrap := k.wrap S

end PublicKey

namespace SecretKey

def kind : String := "AGE-SECRET-KEY-"

def parse (text : String) : Except KeyError SecretKey :=
  (decodeKey kind text).map fun b => ⟨b⟩

def text (k : SecretKey) : String :=
  encodeKey kind k.secret

def publicKey (S : Suite) (k : SecretKey) : PublicKey :=
  ⟨S.publicKey k.secret⟩

def description (S : Suite) (k : SecretKey) : String :=
  "X25519Identity \x7b public: " ++ (k.publicKey S).description
    ++ ", secret: \"[REDACTED]\" \x7d"

def generate (tape : Tape) : SecretKey × Tape :=
  let (secret, tape) := tape.draw 32
  (⟨secret⟩, tape)

/-- The file key in a stanza.  Whatever is wrong with a stanza, it may be meant for somebody
else. -/
def unwrapStanza (S : Suite) (k : SecretKey) (s : Stanza) : Except Refusal FileKey :=
  if s.tag ≠ keyPairTag then
    .error .mismatch
  else
    match s.args with
    | [arg] =>
        match (Base64.decode? (Text.utf8 arg)).bind (Block.ofBytes? 32) with
        | none => .error .mismatch
        | some ephemeral =>
            if s.body.length ≠ fileKeySize + tagSize then
              .error .mismatch
            else
              let shared := S.agree k.secret ephemeral
              if shared = Block.zeros 32 then
                .error .mismatch
              else
                match FileKey.unwrap S
                    (keyPairWrapping S ephemeral (S.publicKey k.secret) shared) s.body with
                | .ok key => .ok key
                | .error _ => .error .mismatch
    | _ => .error .mismatch

def identity (S : Suite) (k : SecretKey) : Identity :=
  .byStanza (k.unwrapStanza S)

end SecretKey

end AgeCrypt
