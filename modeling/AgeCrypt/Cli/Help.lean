import AgeCrypt.Cli.Arguments

/-!
# Help

The texts that the program shows when it is asked for help.
-/

namespace AgeCrypt
namespace Cli

def versionText : String :=
  programName ++ " " ++ programVersion ++ "\n"

def textOfLines (lines : List String) : String :=
  String.join (lines.map (· ++ "\n"))

def commandLines : List String :=
  ["Commands:",
    "  keygen   Generate a new X25519 identity",
    "  encrypt  Encrypt a file to one or more recipients, or to a passphrase",
    "  decrypt  Decrypt a file with identity files or a passphrase",
    "  config   Configuration management",
    "  help     Print this message or the help of the given subcommand(s)"]

def programHelp (env : Environment) (brief : Bool) : List String :=
  let configVariable := "[env: AGEKIT_CONFIG=" ++ env.config.getD "" ++ "]"
  let configDefault := "[default: " ++ defaultConfigPath ++ "]"
  let levelVariable := "[env: AGEKIT_LOG_LEVEL=" ++ env.logLevel.getD "" ++ "]"
  let usage := ["", "Usage: agekit [OPTIONS] <COMMAND>", ""] ++ commandLines ++ ["", "Options:"]
  if brief then
    ["Simple, modern file encryption"] ++ usage ++
      ["  -c, --config <CONFIG>        Path to agekit configuration file "
          ++ configVariable ++ " " ++ configDefault,
        "      --log-level <LOG_LEVEL>  Log level filter (overrides the config file) "
          ++ levelVariable,
        "  -h, --help                   Print help (see more with '--help')",
        "  -V, --version                Print version"]
  else
    ["agekit: encrypt files to X25519 public keys or a passphrase (age v1 format)"] ++ usage ++
      ["  -c, --config <CONFIG>",
        "          Path to agekit configuration file",
        "          ",
        "          " ++ configVariable,
        "          " ++ configDefault,
        "",
        "      --log-level <LOG_LEVEL>",
        "          Log level filter (overrides the config file)",
        "          ",
        "          " ++ levelVariable,
        "",
        "  -h, --help",
        "          Print help (see a summary with '-h')",
        "",
        "  -V, --version",
        "          Print version"]

def helpText (env : Environment) (brief : Bool) (topic : Topic) : String :=
  textOfLines <|
    match topic with
    | .program => programHelp env brief
    | .keygen =>
        ["Generate a new X25519 identity",
          "",
          "Usage: agekit keygen [OPTIONS]",
          "",
          "Options:",
          "  -o, --output <OUTPUT>  Write the identity to FILE instead of stdout",
          "  -h, --help             Print help"]
    | .encrypt =>
        ["Encrypt a file to one or more recipients, or to a passphrase",
          "",
          "Usage: agekit encrypt [OPTIONS] [INPUT]",
          "",
          "Arguments:",
          "  [INPUT]  Input file (default: stdin)",
          "",
          "Options:",
          "  -r, --recipient <RECIPIENT>  Recipient public key (age1...). May be repeated",
          "  -p, --passphrase             Encrypt to a passphrase read from the terminal",
          "  -a, --armor                  Write ASCII-armored output",
          "  -o, --output <OUTPUT>        Output file (default: stdout)",
          "  -h, --help                   Print help"]
    | .decrypt =>
        ["Decrypt a file with identity files or a passphrase",
          "",
          "Usage: agekit decrypt [OPTIONS] [INPUT]",
          "",
          "Arguments:",
          "  [INPUT]  Input file (default: stdin)",
          "",
          "Options:",
          "  -i, --identity <IDENTITY_FILE>  Identity file. May be repeated",
          "  -p, --passphrase                Decrypt with a passphrase read from the terminal",
          "  -o, --output <OUTPUT>           Output file (default: stdout)",
          "  -h, --help                      Print help"]
    | .config =>
        ["Configuration management",
          "",
          "Usage: agekit config <COMMAND>",
          "",
          "Commands:",
          "  show  Print the active configuration (merged defaults + config file)",
          "  help  Print this message or the help of the given subcommand(s)",
          "",
          "Options:",
          "  -h, --help  Print help"]
    | .showConfig =>
        ["Print the active configuration (merged defaults + config file)",
          "",
          "Usage: agekit config show",
          "",
          "Options:",
          "  -h, --help  Print help"]

end Cli
end AgeCrypt
