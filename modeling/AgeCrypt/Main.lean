import AgeCrypt.Cli.Help
import AgeCrypt.Cli.Run

/-!
# The program

The outer layer: it finds out what is asked for, gathers the files that the command may touch, runs
the command on them, and puts back what the command has changed.  A passphrase is asked for when the
command turns out to need one; it is then run again from the start with the answer.
-/

namespace AgeCrypt
namespace Cli

open Crypto

/-- The place of a path that starts from another place, going by names alone. -/
def placeFrom (start : Place) (path : String) : Place :=
  let step := fun (p : Place) (part : String) =>
    if Path.isVoid part then p else if part = ".." then p.dropLast else p ++ [part]
  (Path.parts path).foldl step (if path.startsWith "/" then [] else start)

def pathOf (p : Place) : String :=
  "/" ++ String.intercalate "/" p

def Command.paths : Command → List String
  | .keygen output => output.toList
  | .encrypt _ _ _ output input => (filePath output).toList ++ (filePath input).toList
  | .decrypt identities _ output input =>
      identities ++ (filePath output).toList ++ (filePath input).toList
  | .showConfig => []

def Command.readsStdin : Command → Bool
  | .encrypt _ _ _ _ input => (filePath input).isNone
  | .decrypt _ _ _ input => (filePath input).isNone
  | _ => false

/-- How many random bytes a command draws at most. -/
def Command.draws : Command → Nat
  | .keygen _ => 32
  | .encrypt recipients _ _ _ _ => fileKeySize + 32 * (recipients.length + 1) + payloadNonceSize
  | _ => 0

def isRealDirectory (p : Place) : IO Bool := do
  try
    (← IO.FS.realPath (pathOf p)).isDir
  catch _ =>
    return false

/-- Take what is at a place into a file store, with the directories on the way. -/
def gather (s : FileStore) (path : String) : IO FileStore := do
  let target := placeFrom s.current path
  let mut s := s
  for n in [0:target.length + 1] do
    let p := target.take n
    if ← isRealDirectory p then
      s := { s with directories := p :: s.directories }
    else
      try
        let b ← IO.FS.readBinFile (pathOf p)
        s := s.put p b.data.toList
      catch _ =>
        break
  return s

/-- Put back the files that were changed.  A file made by `keygen` is for its owner only. -/
def putBack (before after : FileStore) (secret : Bool) : IO Unit := do
  for (p, b) in after.files do
    if before.contents? p ≠ some b then
      IO.FS.writeBinFile (pathOf p) ⟨b.toArray⟩
      if secret then
        IO.setAccessRights (pathOf p) { user := { read := true, write := true } }

def ask (prompt : String) : IO (Option String) := do
  try
    let terminal ← IO.FS.Handle.mk "/dev/tty" .readWrite
    terminal.putStr prompt
    terminal.flush
    let answer ← terminal.getLine
    return if answer.isEmpty then none else some (answer.dropEndWhile (· == '\n')).toString
  catch _ =>
    return none

/-- Run a command, asking for the passphrases in `prompts` while it needs more of them. -/
def runAsking (h : Host) (home : Option String) (i : Invocation) : List String → IO Outcome
  | [] => return run Suite.standard h home i
  | prompt :: prompts => do
      let outcome := run Suite.standard h home i
      match outcome.result with
      | .error r =>
          if r = Host.noPassphrase then
            match ← ask prompt with
            | some answer =>
                runAsking { h with passphrases := h.passphrases ++ [answer] } home i prompts
            | none => return outcome
          else
            return outcome
      | .ok () => return outcome

/-- Do what a command line asks for. -/
def perform (env : Environment) (i : Invocation) : IO UInt32 := do
  let current := placeFrom [] (← IO.currentDir).toString
  let config := Path.expandHome env.home i.config
  let mut files ← gather { current } config
  for path in i.command.paths do
    files ← gather files path
  if let .ok { identityFile := some path, .. } := loadConfig files config then
    files ← gather files (Path.expandHome env.home path)
  let stdin ← if i.command.readsStdin then (← IO.getStdin).readBinToEnd else pure ByteArray.empty
  let stdout ← IO.getStdout
  let seed ← IO.getRandomBytes i.command.draws.toUSize
  let host : Host :=
    { files
      stdin := stdin.data.toList
      tape := .cycle seed.data.toList
      toTerminal := ← stdout.isTty }
  let outcome ← runAsking host env.home i ["Enter passphrase: ", "Confirm passphrase: "]
  putBack files outcome.files (i.command matches .keygen _)
  stdout.write ⟨outcome.stdout.toArray⟩
  stdout.flush
  IO.eprint outcome.notes
  match outcome.result with
  | .ok () => return 0
  | .error r =>
      IO.eprint r.text
      return 1

end Cli
end AgeCrypt

open AgeCrypt Cli in
def main (args : List String) : IO UInt32 := do
  let env : Environment :=
    { home := ← IO.getEnv "HOME"
      config := ← IO.getEnv "AGEKIT_CONFIG"
      logLevel := ← IO.getEnv "AGEKIT_LOG_LEVEL" }
  match parseArguments env args with
  | .ok invocation => perform env invocation
  | .error .version =>
      IO.print versionText
      return 0
  | .error (.help topic brief) =>
      IO.print (helpText env brief topic)
      return 0
  | .error .usage =>
      IO.eprint (helpText env true .program)
      return 2
