import AgeCrypt.File.Encryptor
import AgeCrypt.Header.Reader
import AgeCrypt.Payload.Reader

/-!
# Opening files

A decryptor is a file whose header has been read.  Given identities it finds the file key, checks
the code of the header, and only then hands out a source of the plaintext.
-/

namespace AgeCrypt

open Crypto

variable [Base64]

structure Decryptor (σ : Type) where
  -- What follows the header.
  input : Buffered σ
  header : Header

/-- The file key that the first fitting party finds, if `unwrap` says what each finds; `absent` is
the error if none is left to try. -/
def searchFileKey {m : Type → Type} [Monad m] {ι : Type} (unwrap : ι → m (Except Refusal FileKey))
    (absent : DecryptError) : List ι → m (Except DecryptError FileKey)
  | [] => pure (.error absent)
  | i :: rest => do
      match ← unwrap i with
      | .ok key => pure (.ok key)
      | .error (.fatal cause) => pure (.error cause)
      | .error .mismatch => searchFileKey unwrap .noMatch rest

/-- The file key that the first fitting identity finds. -/
def findFileKey (identities : List Identity) (stanzas : List Stanza) :
    Except DecryptError FileKey :=
  Id.run (searchFileKey (·.unwrap stanzas) .noIdentities identities)

namespace Decryptor

variable {σ : Type} [ByteSource σ]

def start (input : Buffered σ) : Except DecryptError (Decryptor σ) :=
  match Header.read input with
  | (.ok header, input) => .ok { input, header }
  | (.error cause, _) => .error (.header cause)

omit [ByteSource σ] in
def isPassphrase (d : Decryptor σ) : Bool :=
  d.header.stanzas.any fun s => s.tag == passphraseTag

/-- What becomes of a file by what the search for its key has found. -/
def proceed (S : Suite) (d : Decryptor σ) :
    Except DecryptError FileKey → Except DecryptError (PayloadReader S (Buffered σ))
  | .error cause => .error cause
  | .ok key =>
      if ¬ FileKey.verifies S key d.header then
        .error .badMac
      else
        match ByteSource.readExact d.input payloadNonceSize with
        | (.error cause, _) => .error (.io cause)
        | (.ok nonce, rest) => .ok (.start S (FileKey.payloadKey S key nonce.bytes) rest)

/-- The source of the plaintext, by a way to find the file key in the stanzas.  A passphrase stanza
that has company is refused before any search. -/
def decryptBy {m : Type → Type} [Monad m] (S : Suite) (d : Decryptor σ)
    (find : List Stanza → m (Except DecryptError FileKey)) :
    m (Except DecryptError (PayloadReader S (Buffered σ))) :=
  if d.isPassphrase ∧ d.header.stanzas.length ≠ 1 then
    pure (.error .passphraseNotAlone)
  else do
    let found ← find d.header.stanzas
    pure (d.proceed S found)

def decrypt (S : Suite) (d : Decryptor σ) (identities : List Identity) :
    Except DecryptError (PayloadReader S (Buffered σ)) :=
  Id.run (d.decryptBy S (findFileKey identities))

/-- A passphrase stanza in company is refused before any identity is asked. -/
theorem decrypt_eq (S : Suite) (d : Decryptor σ) (identities : List Identity) :
    d.decrypt S identities =
      if d.isPassphrase ∧ d.header.stanzas.length ≠ 1 then
        .error .passphraseNotAlone
      else
        d.proceed S (findFileKey identities d.header.stanzas) := by
  rw [decrypt, decryptBy]
  split <;> rfl

end Decryptor

def decryptBytes (S : Suite) (identities : List Identity) (file : Bytes) :
    Except DecryptError Bytes := do
  let d ← Decryptor.start { inner := ScriptedSource.ofBytes file : Buffered ScriptedSource }
  let r ← d.decrypt S identities
  match ByteSource.readToEnd r with
  | (.ok plaintext, _) => .ok plaintext
  | (.error (.payload cause), _) => .error (.payload cause)
  | (.error cause, _) => .error (.io cause)

end AgeCrypt
