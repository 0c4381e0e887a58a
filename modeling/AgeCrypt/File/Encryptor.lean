import AgeCrypt.Armor.Writer
import AgeCrypt.Io.Scripted
import AgeCrypt.Keys.Passphrase
import AgeCrypt.Payload.Writer

/-!
# Writing files

A file is its header, a nonce of 16 bytes, and the sealed payload.  An encryptor writes the first
two and hands out a sink for the payload.
-/

namespace AgeCrypt

open Crypto

variable [Base64]

def payloadNonceSize : Nat := 16

/-- The recipients of a file: at least one, and an exclusive one only alone. -/
structure Encryptor where
  recipients : List Recipient

namespace Encryptor

def ofRecipients (recipients : List Recipient) : Except EncryptError Encryptor :=
  if recipients.isEmpty then
    .error .noRecipients
  else if 1 < recipients.length ∧ recipients.any (·.exclusive) then
    .error .passphraseNotAlone
  else
    .ok { recipients }

def ofPassphrase (S : Suite) (passphrase : String) (limits : ScryptLimits := {}) :
    Except EncryptError Encryptor := do
  let r ← PassphraseRecipient.create passphrase limits
  ofRecipients [r.recipient S]

def wrapAll : List Recipient → FileKey → Tape → Except EncryptError (List Stanza × Tape)
  | [], _, tape => .ok ([], tape)
  | r :: rest, key, tape => do
      let (first, tape) ← r.wrap key tape
      let (others, tape) ← wrapAll rest key tape
      .ok (first ++ others, tape)

def header (S : Suite) (e : Encryptor) (key : FileKey) (tape : Tape) :
    Except EncryptError (Header × Tape) := do
  let (stanzas, tape) ← wrapAll e.recipients key tape
  match stanzas.forM Stanza.validate with
  | .error cause => .error (.header cause)
  | .ok () => .ok (⟨stanzas, FileKey.mac S key stanzas⟩, tape)

variable {τ : Type} [ByteSink τ]

/-- Write header and nonce, and go on with the payload.  On failure the sink is given back. -/
def start (S : Suite) (e : Encryptor) (sink : τ) (tape : Tape) :
    Except (EncryptError × τ) (PayloadWriter S τ) :=
  let (key, tape) := FileKey.generate tape
  match e.header S key tape with
  | .error cause => .error (cause, sink)
  | .ok (header, tape) =>
      match ByteSink.writeAll sink header.encode with
      | (.error cause, t) => .error (.io cause, t)
      | (.ok (), t) =>
          let (nonce, _) := tape.draw payloadNonceSize
          match ByteSink.writeAll t nonce.bytes with
          | (.error cause, u) => .error (.io cause, u)
          | (.ok (), u) => .ok (.start S (FileKey.payloadKey S key nonce.bytes) u)

/-- Why a file was not written in full. -/
inductive Failure where
  -- Header and nonce were not written.
  | start (cause : EncryptError)
  -- The payload or the armor was not written.
  | transfer (cause : IoError)
deriving DecidableEq, Repr

def writePayload {S : Suite} (w : PayloadWriter S τ) (pieces : List Bytes) :
    Except Failure Unit × τ :=
  match ByteSink.writeEach w pieces with
  | (.error cause, w) => (.error (.transfer cause), w.inner)
  | (.ok (), w) =>
      match w.finish with
      | (.error cause, t) => (.error (.transfer cause), t)
      | (.ok (), t) => (.ok (), t)

/-- Write a file to a sink, the payload piece by piece. -/
def writeFile (S : Suite) (e : Encryptor) (sink : τ) (tape : Tape) (pieces : List Bytes) :
    Except Failure Unit × τ :=
  match e.start S sink tape with
  | .error (cause, t) => (.error (.start cause), t)
  | .ok w => writePayload w pieces

/-- Write a file in armor to a sink, the payload piece by piece. -/
def writeArmored (S : Suite) (e : Encryptor) (sink : τ) (tape : Tape) (pieces : List Bytes) :
    Except Failure Unit × τ :=
  match ArmorWriter.start sink with
  | .error (cause, t) => (.error (.transfer cause), t)
  | .ok armor =>
      match e.writeFile S armor tape pieces with
      | (.error cause, armor) => (.error cause, armor.inner)
      | (.ok (), armor) =>
          match armor.finish with
          | (.error cause, t) => (.error (.transfer cause), t)
          | (.ok (), t) => (.ok (), t)

end Encryptor

/-- The file that carries `plaintext` to the given recipients. -/
def encryptBytes (S : Suite) (recipients : List Recipient) (plaintext : Bytes) (tape : Tape) :
    Except EncryptError Bytes := do
  let e ← Encryptor.ofRecipients recipients
  match e.writeFile S ({} : ScriptedSink) tape [plaintext] with
  | (.ok (), t) => .ok t.contents.toList
  | (.error (.start cause), _) => .error cause
  | (.error (.transfer cause), _) => .error (.io cause)

end AgeCrypt
