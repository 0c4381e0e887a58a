import AgeCrypt.File.Error
import AgeCrypt.Keys.FileKey

/-!
# Recipients and identities

What the file format asks of a kind of key: a recipient wraps a file key into stanzas, and an
identity finds the file key in a stanza that is meant for it.
-/

namespace AgeCrypt

/-- Somebody a file can be written to. -/
structure Recipient where
  -- The stanzas that carry a file key to the recipient.
  wrap : FileKey → Tape → Except EncryptError (List Stanza × Tape)
  -- Whether a file may have no other recipient.
  exclusive : Bool := false

/-- Why an identity does not find a file key. -/
inductive Refusal where
  -- The stanza is meant for somebody else.
  | mismatch
  -- The stanza is meant for this identity but cannot be used.
  | fatal (cause : DecryptError)
deriving DecidableEq, Repr

/-- The first answer that is no mismatch when each stanza in turn is put to `ask`. -/
def firstAnswer {m : Type → Type} [Monad m] (ask : Stanza → m (Except Refusal FileKey)) :
    List Stanza → m (Except Refusal FileKey)
  | [] => pure (.error .mismatch)
  | s :: rest => do
      match ← ask s with
      | .error .mismatch => firstAnswer ask rest
      | answer => pure answer

/-- Somebody a file can be opened by. -/
structure Identity where
  -- The file key in one stanza.
  unwrapStanza : Stanza → Except Refusal FileKey
  -- The file key in the stanzas of a header.  Unless an identity has a way of its own, it takes
  -- them one by one.
  unwrap : List Stanza → Except Refusal FileKey := fun stanzas =>
    Id.run (firstAnswer unwrapStanza stanzas)

/-- The identity that takes the stanzas of a header one by one. -/
def Identity.byStanza (unwrapStanza : Stanza → Except Refusal FileKey) : Identity :=
  { unwrapStanza }

end AgeCrypt
