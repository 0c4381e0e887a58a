import AgeCrypt.Base64.Standard
import AgeCrypt.Cli.Arguments
import AgeCrypt.Cli.Decrypt
import AgeCrypt.Cli.Encrypt
import AgeCrypt.Config.Toml
import AgeCrypt.Toml.Standard

/-!
# Running commands

Every command reads the configuration first.
-/

namespace AgeCrypt
namespace Cli

open Crypto

variable [Base64] [Toml.Codec]

/-- Make a secret key and write it to standard output, or to a file that must not exist yet. -/
def keygen (S : Suite) (h : Host) (output : Option String) : Outcome :=
  let (key, _) := SecretKey.generate h.tape
  let shown := (key.publicKey S).text
  let contents := Text.utf8 ("# public key: " ++ shown ++ "\n" ++ key.text ++ "\n")
  match output with
  | none => { result := .ok (), files := h.files, stdout := contents }
  | some path =>
      match h.files.createNew path with
      | .error e => h.fail (e.report.during ("creating identity file: " ++ path))
      | .ok (place, files) =>
          { result := .ok ()
            files := files.put place contents
            notes := "Public key: " ++ shown ++ "\n" }

def showConfig (h : Host) (path : String) (config : Config) : Outcome :=
  let heading :=
    if h.files.exists? path then "# Configuration from: " ++ path ++ "\n\n"
    else "# Configuration: defaults (no file at " ++ path ++ ")\n\n"
  { result := .ok (), files := h.files, stdout := Text.utf8 (heading ++ config.render) }

/-- The configuration at a path; the default one if there is nothing. -/
def loadConfig (files : FileStore) (path : String) : Except ConfigError Config :=
  if files.exists? path then
    match files.read path with
    | .ok b => Config.parse path b
    | .error e => .error (.io e)
  else
    .ok {}

def runCommand (S : Suite) (h : Host) (home : Option String) (path : String) (config : Config) :
    Command → Outcome
  | .keygen output => keygen S h output
  | .encrypt recipients passphrase armor output input =>
      let encryptor :=
        if passphrase then encryptorForPassphrase S h config.scrypt
        else encryptorForKeys S recipients
      match encryptor with
      | .error r => h.fail r
      | .ok e => encrypt S h e (armor || config.armor) input output
  | .decrypt identities passphrase output input =>
      decrypt S h config.scrypt (config.identityFile.map (Path.expandHome home)) identities
        passphrase input output
  | .showConfig => showConfig h path config

def run (S : Suite) (h : Host) (home : Option String) (i : Invocation) : Outcome :=
  let path := Path.expandHome home i.config
  match loadConfig h.files path with
  | .error e => h.fail (e.report.during ("loading config: " ++ path))
  | .ok config => runCommand S h home path config i.command

end Cli
end AgeCrypt
