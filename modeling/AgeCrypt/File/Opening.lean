import AgeCrypt.Armor.Reader
import AgeCrypt.File.Decryptor

/-!
# Opening files of either form

A file may come in armor or without.  Its first bytes tell which; from then on both forms are read
alike.
-/

namespace AgeCrypt

open Crypto

variable [Base64]

/-- A file of either form whose header has been read. -/
inductive OpenedFile (σ : Type) where
  | binary (d : Decryptor σ)
  | armored (d : Decryptor (ArmorReader σ))

abbrev PlaintextReader (S : Suite) (σ : Type) : Type :=
  PayloadReader S (Buffered σ) ⊕ PayloadReader S (Buffered (ArmorReader σ))

namespace OpenedFile

variable {σ : Type} [ByteSource σ]

inductive Failure where
  -- Its first bytes cannot be read.
  | peek (cause : IoError)
  -- Its header cannot be read.
  | header (cause : DecryptError)
deriving DecidableEq, Repr

def start (input : Buffered σ) : Except Failure (OpenedFile σ) :=
  match Armor.isArmored input with
  | (.error cause, _) => .error (.peek cause)
  | (.ok true, input) =>
      match Decryptor.start { inner := ({ inner := input } : ArmorReader σ) } with
      | .ok d => .ok (.armored d)
      | .error cause => .error (.header cause)
  | (.ok false, input) =>
      match Decryptor.start input with
      | .ok d => .ok (.binary d)
      | .error cause => .error (.header cause)

omit [ByteSource σ] in
def header : OpenedFile σ → Header
  | binary d => d.header
  | armored d => d.header

omit [ByteSource σ] in
def isPassphrase : OpenedFile σ → Bool
  | binary d => d.isPassphrase
  | armored d => d.isPassphrase

def decrypt (S : Suite) (identities : List Identity) :
    OpenedFile σ → Except DecryptError (PlaintextReader S σ)
  | binary d => (d.decrypt S identities).map .inl
  | armored d => (d.decrypt S identities).map .inr

end OpenedFile

end AgeCrypt
