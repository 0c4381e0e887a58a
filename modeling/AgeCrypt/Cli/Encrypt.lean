import AgeCrypt.Cli.Host
import AgeCrypt.File.Encryptor

/-!
# The `encrypt` command

The recipients are settled before anything is opened, and the output is opened before the input is
read.
-/

namespace AgeCrypt
namespace Cli

open Crypto

variable [Base64]

def parseRecipients : List String → Except Report (List PublicKey)
  | [] => .ok []
  | text :: texts =>
      match PublicKey.parse text with
      | .error e => .error (e.report.during ("invalid recipient: " ++ text))
      | .ok key => (parseRecipients texts).map (key :: ·)

def encryptorForKeys (S : Suite) (texts : List String) : Except Report Encryptor :=
  if texts = [] then
    .error ⟨"missing recipients: pass -r RECIPIENT or -p", []⟩
  else
    match parseRecipients texts with
    | .error r => .error r
    | .ok keys =>
        match Encryptor.ofRecipients (keys.map (·.recipient S)) with
        | .ok e => .ok e
        | .error e => .error e.report

def encryptorForPassphrase (S : Suite) (h : Host) (limits : ScryptLimits) :
    Except Report Encryptor :=
  match h.newPassphrase with
  | .error r => .error r
  | .ok passphrase =>
      match Encryptor.ofPassphrase S passphrase limits with
      | .ok e => .ok e
      | .error e => .error e.report

variable {τ : Type} [ByteSink τ]

/-- Write a file to a sink.  The plaintext is read once header and nonce are written; what the sink
holds then may decide what is read. -/
def encryptTo (S : Suite) (e : Encryptor) (tape : Tape) (plaintext : τ → Except IoError Bytes)
    (sink : τ) : Except Report Unit × τ :=
  match e.start S sink tape with
  | .error (cause, t) => (.error cause.report, t)
  | .ok w =>
      match plaintext w.inner with
      | .error cause => (.error (cause.report.during "encrypting"), w.inner)
      | .ok b =>
          match ByteSink.copy (ScriptedSource.ofBytes b) w with
          | (.error cause, _, w) => (.error (cause.report.during "encrypting"), w.inner)
          | (.ok (), _, w) =>
              match w.finish with
              | (.error cause, t) => (.error cause.report, t)
              | (.ok (), t) => (.ok (), t)

def encryptArmoredTo (S : Suite) (e : Encryptor) (tape : Tape)
    (plaintext : τ → Except IoError Bytes) (sink : τ) : Except Report Unit × τ :=
  match ArmorWriter.start sink with
  | .error (cause, t) => (.error (cause.report.during "writing armor"), t)
  | .ok w =>
      match encryptTo S e tape (fun w : ArmorWriter τ => plaintext w.inner) w with
      | (.error r, w) => (.error r, w.inner)
      | (.ok (), w) =>
          match w.finish with
          | (.error cause, t) => (.error cause.report, t)
          | (.ok (), t) => (.ok (), t)

/-- Write the input to the output, encrypted. -/
def encrypt (S : Suite) (h : Host) (e : Encryptor) (armor : Bool) (input output : Option String) :
    Outcome :=
  if (filePath output).isNone ∧ h.toTerminal ∧ ¬ armor then
    h.fail ⟨"refusing to write binary output to a terminal; use -a or -o", []⟩
  else
    match openInput h.files input with
    | .error r => h.fail r
    | .ok source =>
        match openOutput h.files output with
        | .error r => h.fail r
        | .ok (target, files) =>
            let plaintext := fun f : OutputFile =>
              readInput h (storeOutput files f.contents target) source
            let (result, f) :=
              if armor then encryptArmoredTo S e h.tape plaintext {}
              else encryptTo S e h.tape plaintext {}
            deliver result files target f.written.toList

end Cli
end AgeCrypt
