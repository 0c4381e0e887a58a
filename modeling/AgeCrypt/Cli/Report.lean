import AgeCrypt.Config.Basic
import AgeCrypt.Keys.IdentityFile

/-!
# Reports

How a failure is told: what was being done, and the causes below it, the nearest first.
-/

namespace AgeCrypt

/-- A failure as it is told. -/
structure Report where
  message : String
  -- Why, the nearest cause first.
  causes : List String := []
deriving DecidableEq, Repr

namespace Report

def during (r : Report) (message : String) : Report :=
  ⟨message, r.message :: r.causes⟩

def numbered (n : Nat) : List String → String
  | [] => ""
  | cause :: causes => s!"    {n}: {cause}\n" ++ numbered (n + 1) causes

def text (r : Report) : String :=
  "Error: " ++ r.message ++ "\n" ++
    match r.causes with
    | [] => ""
    | [cause] => "\nCaused by:\n    " ++ cause ++ "\n"
    | causes => "\nCaused by:\n" ++ numbered 0 causes

end Report

def SystemError.report (e : SystemError) : Report :=
  ⟨e.message, []⟩

def IoError.report (e : IoError) : Report :=
  ⟨e.message, []⟩

def HeaderError.report (e : HeaderError) : Report :=
  match e with
  | .io cause => cause.report.during e.message
  | _ => ⟨e.message, []⟩

def EncryptError.report (e : EncryptError) : Report :=
  match e with
  | .header cause => cause.report
  | .io cause => cause.report.during e.message
  | _ => ⟨e.message, []⟩

def DecryptError.report (e : DecryptError) : Report :=
  match e with
  | .header cause => cause.report
  | .io cause => cause.report.during e.message
  | _ => ⟨e.message, []⟩

def KeyError.report (e : KeyError) : Report :=
  match e with
  | .encoding cause => ⟨e.message, [cause.message]⟩
  | _ => ⟨e.message, []⟩

def IdentityFileError.report (e : IdentityFileError) : Report :=
  match e with
  | .io cause => cause.report.during e.message
  | _ => ⟨e.message, []⟩

def ConfigError.report (e : ConfigError) : Report :=
  match e with
  | .io cause => cause.report.during e.message
  | _ => ⟨e.message, []⟩

end AgeCrypt
