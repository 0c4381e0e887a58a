import AgeCrypt.Toml.Text
import AgeCrypt.Toml.Value

/-!
# Sections of settings

The documents that a program writes: settings in sections, each setting on a line of its own.  A
document is plain if it can be written so, with names that need no quotes and that are all
different, and with numbers that 64 bits hold.
-/

namespace AgeCrypt
namespace Toml

/-- A value that is written on one line. -/
inductive Scalar where
  | text (s : String)
  | number (n : Nat)
  | boolean (b : Bool)

abbrev Settings : Type := List (String × Scalar)

abbrev Sections : Type := List (String × Settings)

/-! ## What they say -/

def Scalar.value : Scalar → Value
  | text s => .text s
  | number n => .integer n
  | boolean b => .boolean b

def Settings.entries (settings : Settings) : Entries :=
  settings.map fun e => (e.1, e.2.value)

def Sections.entries (d : Sections) : Entries :=
  d.map fun e => (e.1, .table .header (Settings.entries e.2))

/-! ## How they are written -/

def Scalar.write : Scalar → String
  | text s => writeText s
  | number n => String.ofList (Nat.toDigits 10 n)
  | boolean b => if b then "true" else "false"

def Settings.write : Settings → String
  | [] => ""
  | (name, v) :: settings => name ++ " = " ++ v.write ++ "\n" ++ write settings

def writeSection (name : String) (settings : Settings) : String :=
  "[" ++ name ++ "]\n" ++ settings.write

/-- The sections that are not the first: each begins after an empty line. -/
def Sections.writeMore : Sections → String
  | [] => ""
  | (name, settings) :: d => "\n" ++ writeSection name settings ++ writeMore d

def Sections.write : Sections → String
  | [] => ""
  | (name, settings) :: d => writeSection name settings ++ writeMore d

/-! ## Plain documents -/

/-- Whether a name needs no quotes. -/
def Bare (name : String) : Prop :=
  name.toList ≠ [] ∧ name.toList.all isBare = true

instance (name : String) : Decidable (Bare name) :=
  inferInstanceAs (Decidable (_ ∧ _))

def Scalar.Fits : Scalar → Prop
  | number n => n < Nat.pow 2 63
  | text _ | boolean _ => True

structure Settings.Plain (settings : Settings) : Prop where
  bare : ∀ e ∈ settings, Bare e.1
  fits : ∀ e ∈ settings, e.2.Fits
  distinct : (settings.map (·.1)).Nodup

structure Sections.Plain (d : Sections) : Prop where
  bare : ∀ e ∈ d, Bare e.1
  settings : ∀ e ∈ d, Settings.Plain e.2
  distinct : (d.map (·.1)).Nodup

end Toml
end AgeCrypt
