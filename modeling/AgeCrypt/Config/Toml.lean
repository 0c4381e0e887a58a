import AgeCrypt.Config.Basic
import AgeCrypt.Toml.Codec

/-!
# Configurations in TOML

A configuration is read from a document with the sections `scrypt`, `output`, `identity` and `log`.
What a document leaves out has its default, and what it says besides means nothing.  It is written
as a document with these sections, whatever the document is spelled like (`Toml.Codec`).

A section is a table.  An array may stand for it that gives the settings in order, and so may a
date, which gives none.
-/

namespace AgeCrypt

open Toml

namespace Toml.Value

/-- Whether a value can stand for a section. -/
def isSection : Value → Bool
  | .table .. | .tables _ | .array _ | .date => true
  | _ => false

/-- The setting with a given name and place in a section. -/
def setting? (name : String) (place : Nat) : Value → Option Value
  | .table _ entries => entries.lookup name
  | .array items => items[place]?
  | .tables elements => elements[place]?.map (.table .header)
  | _ => none

def isEmpty : Value → Bool
  | .array items => items.isEmpty
  | .table _ entries => entries.isEmpty
  | .tables elements => elements.isEmpty
  | _ => false

def text? : Value → Option String
  | .text s => some s
  | _ => none

def boolean? : Value → Option Bool
  | .boolean b => some b
  | _ => none

def byte? : Value → Option Nat
  | .integer n => if 0 ≤ n ∧ n < 256 then some n.toNat else none
  | _ => none

end Toml.Value

namespace LogFormat

def name : LogFormat → String
  | text => "text"
  | json => "json"

def ofName? (s : String) : Option LogFormat :=
  if s = "text" then some text else if s = "json" then some json else none

/-- The format that a value names: as a text, or as the only name in a table. -/
def ofValue? : Value → Option LogFormat
  | .text s => ofName? s
  | .table _ [(s, v)] => if v.isEmpty then ofName? s else none
  | _ => none

end LogFormat

namespace Config

variable [Codec]

/-! ## Reading -/

/-- A section of a document; one that is missing is empty. -/
def section? (root : Entries) (name : String) : Option Value :=
  match root.lookup name with
  | none => some (.table .header [])
  | some v => if v.isSection then some v else none

/-- A setting of a section, or its default. -/
def settingOr {α : Type} (default : α) (read : Value → Option α) (name : String) (place : Nat)
    (v : Value) : Option α :=
  match v.setting? name place with
  | none => some default
  | some v => read v

def ofToml (root : Entries) : Option Config := do
  let standard : Config := {}
  let scrypt ← section? root "scrypt"
  let output ← section? root "output"
  let identity ← section? root "identity"
  let log ← section? root "log"
  return {
    scrypt := {
      workFactor := ← settingOr standard.scrypt.workFactor Value.byte? "work_factor" 0 scrypt
      maxWorkFactor :=
        ← settingOr standard.scrypt.maxWorkFactor Value.byte? "max_work_factor" 1 scrypt }
    armor := ← settingOr standard.armor Value.boolean? "armor" 0 output
    identityFile :=
      ← settingOr standard.identityFile (fun v => v.text?.map some) "file" 0 identity
    logLevel := ← settingOr standard.logLevel Value.text? "level" 0 log
    logFormat := ← settingOr standard.logFormat LogFormat.ofValue? "format" 1 log }

def parse (path : String) (contents : Bytes) : Except ConfigError Config :=
  match Text.ofUtf8? contents with
  | none => .error (.io .invalidUtf8)
  | some text =>
      match (Codec.read text).bind ofToml with
      | none => .error (.malformed path)
      | some config =>
          match config.scrypt.validate with
          | .ok () => .ok config
          | .error e => .error e

/-! ## Writing -/

/-- The sections of a configuration.  An identity file that is not set is left out. -/
def toToml (c : Config) : Sections :=
  [("scrypt",
      [("work_factor", .number c.scrypt.workFactor),
       ("max_work_factor", .number c.scrypt.maxWorkFactor)]),
   ("output", [("armor", .boolean c.armor)]),
   ("identity", c.identityFile.toList.map fun file => ("file", .text file)),
   ("log", [("level", .text c.logLevel), ("format", .text c.logFormat.name)])]

def render (c : Config) : String :=
  Codec.write c.toToml

end Config

end AgeCrypt
