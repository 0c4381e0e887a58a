import AgeCrypt.Io.Buffered
import AgeCrypt.Keys.X25519
import AgeCrypt.Text.Blank

/-!
# Identity files

A text file with one secret key to a line.  White space around a line, empty lines, and lines that
begin with `#` mean nothing.
-/

namespace AgeCrypt

inductive IdentityFileError where
  -- A line is neither a key nor meaningless.  Lines are counted from 1.
  | malformedLine (line : Nat)
  | noKeys
  | io (cause : IoError)
deriving DecidableEq, Repr

def IdentityFileError.message : IdentityFileError → String
  | malformedLine line => s!"failed to parse secret key at line {line}"
  | noKeys => "no secret keys found"
  | io cause => "I/O error reading identities: " ++ cause.message

namespace IdentityFile

open Buffered

variable {σ : Type} [ByteSource σ]

/-- What a line holds: a key, nothing, or neither. -/
def parseLine (number : Nat) (line : Bytes) : Except IdentityFileError (List SecretKey) :=
  match Text.ofUtf8? line with
  | none => .error (.malformedLine number)
  | some text =>
      let text := Text.trim text
      if text = "" ∨ text.startsWith "#" then
        .ok []
      else
        match SecretKey.parse text with
        | .ok key => .ok [key]
        | .error _ => .error (.malformedLine number)

/-- The keys on the lines after the first `lines`. -/
def readFrom (input : Buffered σ) (lines : Nat) : Except IdentityFileError (List SecretKey) :=
  match _h : input.readLine with
  | (.error cause, _) =>
      .error (if cause.kind = .invalidData then .malformedLine (lines + 1) else .io cause)
  | (.ok [], _) => .ok []
  | (.ok (x :: tail), rest) =>
      match parseLine (lines + 1) (x :: tail) with
      | .error e => .error e
      | .ok keys =>
          match readFrom rest (lines + 1) with
          | .ok others => .ok (keys ++ others)
          | .error e => .error e
termination_by input.weight
decreasing_by
  have := weight_readLine_ok _h
  simp only [List.length_cons] at this
  omega

def read (input : Buffered σ) : Except IdentityFileError (List SecretKey) :=
  match readFrom input 0 with
  | .ok [] => .error .noKeys
  | answer => answer

end IdentityFile

end AgeCrypt
