import AgeCrypt.Cli.Options

/-!
# Command lines

The commands of the program and the arguments that each of them takes:

* `keygen [-o FILE]`
* `encrypt (-r RECIPIENT... | -p) [-a] [-o FILE] [FILE]`
* `decrypt (-i FILE... | -p) [-o FILE] [FILE]`
* `config show`

Before the command the configuration file and the log level may be set; variables of the environment
set them too.
-/

namespace AgeCrypt
namespace Cli

def programName : String := "agekit"

def programVersion : String := "0.5.0"

inductive Command where
  | keygen (output : Option String)
  -- Write a file to recipients or to a passphrase.
  | encrypt (recipients : List String) (passphrase armor : Bool) (output input : Option String)
  -- Open a file with identity files or a passphrase.
  | decrypt (identities : List String) (passphrase : Bool) (output input : Option String)
  | showConfig
deriving DecidableEq, Repr

structure Invocation where
  config : String
  logLevel : Option String
  command : Command
deriving DecidableEq, Repr

structure Environment where
  home : Option String := none
  config : Option String := none
  logLevel : Option String := none

/-! ## Options -/

/-- The request for help, which every part of a command line takes. -/
def helpOption : OptionSpec := { long := "help", short := some 'h' }

def outputOption : OptionSpec := { long := "output", short := some 'o', takesValue := true }

def passphraseOption : OptionSpec := { long := "passphrase", short := some 'p' }

/-- What stands before the command. -/
def mainGrammar : Grammar where
  topic := .program
  options := [
    { long := "config", short := some 'c', takesValue := true },
    { long := "log-level", takesValue := true, mayBeEmpty := true },
    { long := "version", short := some 'V' },
    helpOption]
  command := true

def keygenGrammar : Grammar where
  topic := .keygen
  options := [outputOption, helpOption]

def encryptGrammar : Grammar where
  topic := .encrypt
  options := [
    { long := "recipient", short := some 'r', takesValue := true, repeatable := true,
      mayBeEmpty := true },
    passphraseOption,
    { long := "armor", short := some 'a' },
    outputOption,
    helpOption]
  words := 1

def decryptGrammar : Grammar where
  topic := .decrypt
  options := [
    { long := "identity", short := some 'i', takesValue := true, repeatable := true },
    passphraseOption,
    outputOption,
    helpOption]
  words := 1

def configGrammar : Grammar where
  topic := .config
  options := [helpOption]
  command := true

def showGrammar : Grammar where
  topic := .showConfig
  options := [helpOption]

/-! ## Commands -/

/-- The command with a given name and arguments. -/
def parseCommand : List String → Except Stop Command
  | "keygen" :: args => do
      let (g, _) ← keygenGrammar.scan {} args
      return .keygen (g.value? "output")
  | "encrypt" :: args => do
      let (g, _) ← encryptGrammar.scan {} args
      if g.has "passphrase" ∧ g.has "recipient" then
        throw .usage
      return .encrypt (g.values "recipient") (g.has "passphrase") (g.has "armor")
        (g.value? "output") g.words.head?
  | "decrypt" :: args => do
      let (g, _) ← decryptGrammar.scan {} args
      if g.has "passphrase" ∧ g.has "identity" then
        throw .usage
      return .decrypt (g.values "identity") (g.has "passphrase") (g.value? "output") g.words.head?
  | "config" :: args => do
      let (_, left) ← configGrammar.scan {} args
      match left with
      | "show" :: args => do
          let _ ← showGrammar.scan {} args
          return .showConfig
      | ["help"] => throw (.help .config false)
      | ["help", "show"] => throw (.help .showConfig false)
      | _ => throw .usage
  | ["help"] => throw (.help .program false)
  | ["help", "keygen"] => throw (.help .keygen false)
  | ["help", "encrypt"] => throw (.help .encrypt false)
  | ["help", "decrypt"] => throw (.help .decrypt false)
  | ["help", "config"] => throw (.help .config false)
  | ["help", "config", "show"] => throw (.help .showConfig false)
  | _ => .error .usage

/-- The path of the configuration file if nobody sets it. -/
def defaultConfigPath : String := "~/.config/agekit/config.toml"

def parseArguments (env : Environment) (args : List String) : Except Stop Invocation := do
  let (g, left) ← mainGrammar.scan {} args
  let command ← parseCommand left
  let config := ((g.value? "config").orElse fun _ => env.config).getD defaultConfigPath
  if config = "" then
    throw .usage
  return { config, command, logLevel := (g.value? "log-level").orElse fun _ => env.logLevel }

end Cli
end AgeCrypt
