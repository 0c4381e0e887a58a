import AgeCrypt.Cli.Host
import AgeCrypt.Config.Basic
import AgeCrypt.File.Opening

/-!
# The `decrypt` command

The header is read before identities are asked for, and the output is opened only when an identity
has opened the header, so a file that is not opened leaves the output as it was.
-/

namespace AgeCrypt
namespace Cli

open Crypto

variable [Base64]

def readIdentityFile (files : FileStore) (path : String) :
    Except IdentityFileError (List SecretKey) :=
  match files.openPlace path with
  | .error e => .error (.io (.system e))
  | .ok place =>
      IdentityFile.read
        { inner := sourceOf (files.readPlace place) : Buffered ScriptedSource }

def readIdentities (files : FileStore) : List String → Except Report (List SecretKey)
  | [] => .ok []
  | path :: paths =>
      match readIdentityFile files path with
      | .error e => .error (e.report.during ("reading identity file: " ++ path))
      | .ok keys => (readIdentities files paths).map (keys ++ ·)

/-- The secret keys in the given identity files; if there are none, in the configured one. -/
def loadIdentities (h : Host) (configured : Option String) (paths : List String) :
    Except Report (List SecretKey) :=
  match if paths = [] then configured.toList else paths with
  | [] =>
      .error
        ⟨"missing identities: pass -i IDENTITY_FILE or set [identity] file in the config", []⟩
  | paths => readIdentities h.files paths

def identitiesFor (S : Suite) (h : Host) (limits : ScryptLimits) (configured : Option String)
    (paths : List String) (passphrase : Bool) (fileIsPassphrase : Bool) :
    Except Report (List Identity) :=
  if fileIsPassphrase then
    if paths ≠ [] then
      .error ⟨"file is passphrase-encrypted; identity files cannot decrypt it", []⟩
    else
      match h.passphrase with
      | .error r => .error r
      | .ok answer =>
          match PassphraseIdentity.create answer limits with
          | .ok i => .ok [i.identity S]
          | .error e => .error e.report
  else if passphrase then
    .error ⟨"file is not passphrase-encrypted", []⟩
  else
    (loadIdentities h configured paths).map fun keys => keys.map (·.identity S)

/-- A source of plaintext when the file below it has been emptied: only what was read ahead is
left. -/
def afterEmptying {S : Suite} :
    PlaintextReader S ScriptedSource → PlaintextReader S ScriptedSource
  | .inl r => .inl { r with inner := { r.inner with inner := .ofBytes [] } }
  | .inr r =>
      let armor := r.inner.inner
      .inr { r with
        inner := { r.inner with
          inner := { armor with inner := { armor.inner with inner := .ofBytes [] } } } }

/-- Open the input with identities and write the plaintext to the output. -/
def decryptWith (S : Suite) (h : Host) (source : Endpoint) (file : OpenedFile ScriptedSource)
    (identities : List Identity) (output : Option String) : Outcome :=
  match file.decrypt S identities with
  | .error e => h.fail (e.report.during "decrypting header")
  | .ok reader =>
      match openOutput h.files output with
      | .error r => h.fail r
      | .ok (target, files) =>
          let emptied := source = target ∧ target ≠ .standard
          let reader := if emptied then afterEmptying reader else reader
          match ByteSink.copy reader ({} : OutputFile) with
          | (.error cause, _, f) =>
              deliver (.error (cause.report.during "decrypting payload")) files target
                f.written.toList
          | (.ok (), _, f) => deliver (.ok ()) files target f.written.toList

/-- Write the input to the output, decrypted. -/
def decrypt (S : Suite) (h : Host) (limits : ScryptLimits) (configured : Option String)
    (paths : List String) (passphrase : Bool) (input output : Option String) : Outcome :=
  match openInput h.files input with
  | .error r => h.fail r
  | .ok source =>
      let opened : Buffered ScriptedSource := { inner := sourceOf (readInput h h.files source) }
      match OpenedFile.start opened with
      | .error (.peek cause) => h.fail (cause.report.during "reading input")
      | .error (.header cause) => h.fail (cause.report.during "reading header")
      | .ok file =>
          match identitiesFor S h limits configured paths passphrase file.isPassphrase with
          | .error r => h.fail r
          | .ok identities => decryptWith S h source file identities output

end Cli
end AgeCrypt
