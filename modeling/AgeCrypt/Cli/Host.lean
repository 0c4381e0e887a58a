import AgeCrypt.Cli.Report
import AgeCrypt.Files.Output
import AgeCrypt.Files.Store
import AgeCrypt.Io.Scripted

/-!
# The host of a command

What a command finds when it is run, and what it leaves behind.  Input comes from a file or from
standard input, output goes to a file or to standard output.

A file that is read is opened first and read later.  In between the same file may be opened for
output, which empties it; from then on it holds what has been stored of the output.
-/

namespace AgeCrypt
namespace Cli

/-- What a command finds. -/
structure Host where
  files : FileStore := {}
  stdin : Bytes := []
  -- The answers to requests for a passphrase.
  passphrases : List String := []
  tape : Tape
  -- Whether standard output is shown to somebody.
  toTerminal : Bool := false

/-- What a command leaves behind. -/
structure Outcome where
  result : Except Report Unit
  files : FileStore
  stdout : Bytes := []
  -- What was said besides.
  notes : String := ""

/-- A command that failed before it did anything. -/
def Host.fail (h : Host) (r : Report) : Outcome :=
  { result := .error r, files := h.files }

/-- Nobody answers a request for a passphrase. -/
def Host.noPassphrase : Report :=
  IoError.noTerminal.report.during "reading passphrase"

def Host.passphrase (h : Host) : Except Report String :=
  match h.passphrases with
  | answer :: _ => .ok answer
  | [] => .error noPassphrase

/-- The answer to two requests for the same passphrase. -/
def Host.newPassphrase (h : Host) : Except Report String :=
  match h.passphrases with
  | first :: second :: _ =>
      if first = second then .ok first else .error ⟨"passphrases didn't match", []⟩
  | _ => .error noPassphrase

inductive Endpoint where
  -- Standard input or standard output.
  | standard
  | file (place : Place)
deriving DecidableEq, Repr

/-- The path of the file that is meant, unless it is standard input or output. -/
def filePath (path : Option String) : Option String :=
  path.filter (!Path.isDash ·)

def openInput (files : FileStore) (path : Option String) : Except Report Endpoint :=
  match filePath path with
  | none => .ok .standard
  | some path =>
      match files.openPlace path with
      | .ok place => .ok (.file place)
      | .error e => .error (e.report.during ("opening input: " ++ path))

def readInput (h : Host) (files : FileStore) : Endpoint → Except IoError Bytes
  | .standard => .ok h.stdin
  | .file place => files.readPlace place

/-- What was read, as a source; what could not be read is a source that fails. -/
def sourceOf : Except IoError Bytes → ScriptedSource
  | .ok b => .ofBytes b
  | .error e => { data := [], faults := [(0, e)] }

/-- Open the output: make its file, or empty it. -/
def openOutput (files : FileStore) (path : Option String) :
    Except Report (Endpoint × FileStore) :=
  match filePath path with
  | none => .ok (.standard, files)
  | some path =>
      match files.create path with
      | .ok (place, files) => .ok (.file place, files)
      | .error e => .error (e.report.during ("creating output: " ++ path))

def storeOutput (files : FileStore) (b : Bytes) : Endpoint → FileStore
  | .standard => files
  | .file place => files.put place b

/-- What a command leaves behind that has written `b` to its output. -/
def deliver (result : Except Report Unit) (files : FileStore) (output : Endpoint) (b : Bytes) :
    Outcome :=
  { result
    files := storeOutput files b output
    stdout := match output with
      | .standard => b
      | .file _ => [] }

end Cli
end AgeCrypt
