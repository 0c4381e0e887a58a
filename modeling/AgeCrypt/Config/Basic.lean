import AgeCrypt.Keys.Passphrase

/-!
# Configurations

The settings of the program that outlast one run, what they are when nobody has set them, and which
of them are refused.
-/

namespace AgeCrypt

inductive LogFormat where
  | text
  | json
deriving DecidableEq, Repr

structure Config where
  scrypt : ScryptLimits := {}
  -- Whether files are written in armor.
  armor : Bool := false
  identityFile : Option String := none
  -- The log messages that are written.
  logLevel : String := "warn"
  logFormat : LogFormat := .text
deriving DecidableEq, Repr

inductive ConfigError where
  -- The file at this path is not a configuration in TOML.
  | malformed (path : String)
  | outOfRange (setting : String) (value : Nat)
  | io (cause : IoError)
deriving DecidableEq, Repr

def ConfigError.message : ConfigError → String
  | malformed path => "config error: parsing " ++ path ++ ": not a configuration"
  | outOfRange setting value =>
      s!"config error: scrypt {setting} must be in {WorkFactor.least}..={WorkFactor.greatest}, "
        ++ s!"got {value}"
  | io cause => "I/O error: " ++ cause.message

/-- Check that both work factors are in the range that is written. -/
def ScryptLimits.validate (limits : ScryptLimits) : Except ConfigError Unit :=
  if ¬ WorkFactor.isWritten limits.workFactor then
    .error (.outOfRange "work_factor" limits.workFactor)
  else if ¬ WorkFactor.isWritten limits.maxWorkFactor then
    .error (.outOfRange "max_work_factor" limits.maxWorkFactor)
  else
    .ok ()

end AgeCrypt
