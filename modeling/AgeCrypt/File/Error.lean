import AgeCrypt.Header.Error

/-!
# File errors

Why a file is not written, and why it is not opened.
-/

namespace AgeCrypt

inductive EncryptError where
  | noRecipients
  -- A passphrase stands beside other recipients.
  | passphraseNotAlone
  | emptyPassphrase
  | workFactorOutOfRange (logN : Nat)
  -- Agreement with this public key has the same value for every secret.
  | lowOrderRecipient
  -- The passphrase cannot be stretched at this cost.
  | derivation
  | header (cause : HeaderError)
  | io (cause : IoError)
deriving DecidableEq, Repr

def EncryptError.message : EncryptError → String
  | noRecipients => "no recipients given"
  | passphraseNotAlone => "a passphrase recipient must be the only recipient of a file"
  | emptyPassphrase => "passphrase must not be empty"
  | workFactorOutOfRange logN => s!"scrypt work factor {logN} out of range"
  | lowOrderRecipient => "recipient public key is a low-order point"
  | derivation => "key derivation failed: invalid parameters"
  | header cause => cause.message
  | io cause => "I/O error: " ++ cause.message

inductive DecryptError where
  | noIdentities
  -- No identity fits any stanza.
  | noMatch
  | badMac
  -- A passphrase stanza has the wrong shape.
  | invalidPassphraseStanza
  -- A passphrase stanza has no proper work factor.
  | invalidWorkFactor
  -- A passphrase stanza asks for more work than is allowed.
  | workFactorTooLarge (found max : Nat)
  -- A passphrase stanza stands beside others.
  | passphraseNotAlone
  | emptyPassphrase
  | header (cause : HeaderError)
  | payload (cause : PayloadError)
  | io (cause : IoError)
deriving DecidableEq, Repr

def DecryptError.message : DecryptError → String
  | noIdentities => "no identities given"
  | noMatch => "no identity matched any of the recipients"
  | badMac => "header MAC mismatch"
  | invalidPassphraseStanza => "malformed scrypt stanza"
  | invalidWorkFactor => "invalid scrypt work factor"
  | workFactorTooLarge found max =>
      s!"scrypt work factor {found} exceeds the configured maximum {max}"
  | passphraseNotAlone => "an scrypt stanza must be the only stanza in the header"
  | emptyPassphrase => "passphrase must not be empty"
  | header cause => cause.message
  | payload cause => cause.message
  | io cause => "I/O error: " ++ cause.message

end AgeCrypt
