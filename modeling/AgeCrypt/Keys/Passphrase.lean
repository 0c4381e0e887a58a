import AgeCrypt.Asking
import AgeCrypt.Keys.Party
import AgeCrypt.Keys.WorkFactor

/-!
# Passphrases

Files that are written to a passphrase, and opened by it.  The passphrase is stretched with a fresh
salt into the wrapping key; the stanza carries the salt and the work factor.  Such a stanza must be
the only one of its file.

Whoever opens a file bounds the work that it may ask for.  So wrapping and unwrapping are written as
computations that ask for what they need stretched, and a suite answers them.
-/

namespace AgeCrypt

open Crypto

variable [Base64]

def passphraseTag : String := "scrypt"

structure ScryptLimits where
  -- The work factor that files are written with.
  workFactor : Nat := 18
  -- The largest work factor of a file that is opened.
  maxWorkFactor : Nat := 22
deriving DecidableEq, Repr

/-- What is to be stretched: a passphrase with a salt, at cost `2 ^ logN`. -/
structure Derivation where
  passphrase : Bytes
  salt : Bytes
  logN : Nat
deriving DecidableEq, Repr

/-- A way to stretch passphrases, which may give up. -/
abbrev Stretching := Derivation → Option (Block 32)

/-- A computation that gets derived keys only by asking for them. -/
abbrev Stretches := Asking Derivation (Option (Block 32))

def Crypto.Suite.stretching (S : Suite) (q : Derivation) : Option (Block 32) :=
  S.stretch q.passphrase q.salt q.logN

/-- The derivation that leads from a passphrase to a wrapping key. -/
def passphraseDerivation (passphrase : String) (salt : Block 16) (logN : Nat) : Derivation where
  passphrase := Text.utf8 passphrase
  salt := Bytes.ascii "age-encryption.org/v1/scrypt" ++ salt.bytes
  logN := logN

/-- The wrapping key of a passphrase, or `none` where it cannot be stretched at this cost. -/
def passphraseWrapping (S : Suite) (passphrase : String) (salt : Block 16) (logN : Nat) :
    Option (Block 32) :=
  S.stretching (passphraseDerivation passphrase salt logN)

structure PassphraseRecipient where
  passphrase : String
  -- The work factor that is written.
  workFactor : Nat

namespace PassphraseRecipient

def withWorkFactor (r : PassphraseRecipient) (logN : Nat) :
    Except EncryptError PassphraseRecipient :=
  if WorkFactor.isWritten logN then
    .ok { r with workFactor := logN }
  else
    .error (.workFactorOutOfRange logN)

def create (passphrase : String) (limits : ScryptLimits := {}) :
    Except EncryptError PassphraseRecipient :=
  if passphrase = "" then
    .error .emptyPassphrase
  else
    withWorkFactor { passphrase, workFactor := 0 } limits.workFactor

def description (r : PassphraseRecipient) : String :=
  "ScryptRecipient \x7b work_factor: " ++ WorkFactor.text r.workFactor ++ ", .. \x7d"

/-- The stanza that carries a file key under a wrapping key that was stretched with a salt. -/
def stanzaFrom (S : Suite) (r : PassphraseRecipient) (fileKey : FileKey) (salt : Block 16)
    (wrapping : Block 32) : Stanza where
  tag := passphraseTag
  args := [Text.ofAscii (Base64.encode salt.bytes), WorkFactor.text r.workFactor]
  body := FileKey.wrap S wrapping fileKey

/-- Wrap a file key to a passphrase, by asking. -/
def asking (S : Suite) (r : PassphraseRecipient) (fileKey : FileKey) (tape : Tape) :
    Stretches (Except EncryptError (List Stanza × Tape)) :=
  let (salt, tape) := tape.draw 16
  .ask (passphraseDerivation r.passphrase salt r.workFactor) fun
    | none => .done (.error .derivation)
    | some wrapping => .done (.ok ([r.stanzaFrom S fileKey salt wrapping], tape))

def wrap (S : Suite) (r : PassphraseRecipient) (fileKey : FileKey) (tape : Tape) :
    Except EncryptError (List Stanza × Tape) :=
  (r.asking S fileKey tape).run S.stretching

def recipient (S : Suite) (r : PassphraseRecipient) : Recipient where
  wrap := r.wrap S
  exclusive := true

end PassphraseRecipient

structure PassphraseIdentity where
  passphrase : String
  -- The largest work factor that is followed.
  maxWorkFactor : Nat

namespace PassphraseIdentity

def create (passphrase : String) (limits : ScryptLimits := {}) :
    Except DecryptError PassphraseIdentity :=
  if passphrase = "" then
    .error .emptyPassphrase
  else
    .ok { passphrase, maxWorkFactor := limits.maxWorkFactor }

def withMaxWorkFactor (i : PassphraseIdentity) (max : Nat) : PassphraseIdentity :=
  { i with maxWorkFactor := max }

def description (i : PassphraseIdentity) : String :=
  "ScryptIdentity \x7b max_work_factor: " ++ WorkFactor.text i.maxWorkFactor ++ ", .. \x7d"

/-- The derivation that a stanza asks for.  A passphrase stanza that cannot be used is fatal, and
nothing is stretched for it. -/
def request (i : PassphraseIdentity) (s : Stanza) : Except Refusal Derivation :=
  if s.tag ≠ passphraseTag then
    .error .mismatch
  else
    match s.args with
    | [saltText, factorText] =>
        match (Base64.decode? (Text.utf8 saltText)).bind (Block.ofBytes? 16) with
        | none => .error (.fatal .invalidPassphraseStanza)
        | some salt =>
            match WorkFactor.parse factorText with
            | .error e => .error (.fatal e)
            | .ok logN =>
                if i.maxWorkFactor < logN then
                  .error (.fatal (.workFactorTooLarge logN i.maxWorkFactor))
                else if s.body.length ≠ fileKeySize + tagSize then
                  .error (.fatal .invalidPassphraseStanza)
                else
                  .ok (passphraseDerivation i.passphrase salt logN)
    | _ => .error (.fatal .invalidPassphraseStanza)

/-- What a derived key makes of a stanza.  One that does not open under it is a mismatch. -/
def settle (S : Suite) (s : Stanza) : Option (Block 32) → Except Refusal FileKey
  | none => .error (.fatal .invalidWorkFactor)
  | some wrapping =>
      match FileKey.unwrap S wrapping s.body with
      | .ok key => .ok key
      | .error _ => .error .mismatch

/-- The file key in a stanza, by asking. -/
def asking (S : Suite) (i : PassphraseIdentity) (s : Stanza) :
    Stretches (Except Refusal FileKey) :=
  match i.request s with
  | .error refusal => .done (.error refusal)
  | .ok q => .ask q fun answer => .done (settle S s answer)

def unwrapStanza (S : Suite) (i : PassphraseIdentity) (s : Stanza) : Except Refusal FileKey :=
  (i.asking S s).run S.stretching

def identity (S : Suite) (i : PassphraseIdentity) : Identity :=
  .byStanza (i.unwrapStanza S)

end PassphraseIdentity

end AgeCrypt
