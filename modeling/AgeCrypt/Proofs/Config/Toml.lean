import AgeCrypt.Config.Toml
import AgeCrypt.Proofs.File.Limits
import AgeCrypt.Proofs.Text.Utf8

/-!
# Configurations are read back as they are rendered

A configuration is written as four sections, an identity file that is not set being left out; and
every setting is found there again or has its default (`Config.ofToml_toToml`).  So what is written
is read as the same configuration, as soon as the document is read as what was written, which is
what `Toml.Codec` asks for.

A configuration is refused for its work factors only, so those that are read are exactly those with
valid ones, whatever their texts are (`Config.parse_render`).
-/

namespace AgeCrypt

open Toml

theorem LogFormat.ofName?_name (f : LogFormat) : ofName? f.name = some f := by
  cases f <;> decide

namespace Config

/-! ## Sections -/

/-- A configuration is a plain document: its names are fixed, and its work factors are small. -/
theorem plain_toToml {c : Config} (hwork : c.scrypt.workFactor < 256)
    (hmax : c.scrypt.maxWorkFactor < 256) : c.toToml.Plain := by
  have hfits : ∀ {n : Nat}, n < 256 → Scalar.Fits (.number n) := by
    intro n hn
    exact Nat.lt_trans hn (by decide)
  have hscrypt : Settings.Plain [("work_factor", .number c.scrypt.workFactor),
      ("max_work_factor", .number c.scrypt.maxWorkFactor)] :=
    ⟨by simp; decide, by simp [hfits hwork, hfits hmax], by simp⟩
  have houtput : Settings.Plain [("armor", .boolean c.armor)] :=
    ⟨by simp; decide, by simp [Scalar.Fits], by simp⟩
  have hidentity : Settings.Plain
      (c.identityFile.toList.map fun file => ("file", Scalar.text file)) := by
    cases c.identityFile with
    | none => exact ⟨by simp, by simp, by simp⟩
    | some file => exact ⟨by simp; decide, by simp [Scalar.Fits], by simp⟩
  have hlog : Settings.Plain [("level", .text c.logLevel), ("format", .text c.logFormat.name)] :=
    ⟨by simp; decide, by simp [Scalar.Fits], by simp⟩
  refine ⟨?_, ?_, ?_⟩
  · simp only [toToml, List.forall_mem_cons]
    decide
  · simp only [toToml, List.forall_mem_cons]
    exact ⟨hscrypt, houtput, hidentity, hlog, by simp⟩
  · simp [toToml]

/-- A setting that is there is not replaced by its default. -/
theorem settingOr_of_some {α : Type} {default : α} {read : Value → Option α} {name : String}
    {place : Nat} {v w : Value} (h : v.setting? name place = some w) :
    settingOr default read name place v = read w := by
  rw [settingOr, h]

/-- Work factors that fit into a byte are all that is asked of a configuration here. -/
theorem ofToml_toToml {c : Config} (hwork : c.scrypt.workFactor < 256)
    (hmax : c.scrypt.maxWorkFactor < 256) : ofToml c.toToml.entries = some c := by
  have hbyte : ∀ {n : Nat}, n < 256 → Value.byte? (.integer n) = some n := by
    intro n hn
    rw [Value.byte?, if_pos ⟨Int.natCast_nonneg n, by omega⟩, Int.toNat_natCast]
  have hscrypt : section? c.toToml.entries "scrypt" = some (.table .header
      [("work_factor", .integer c.scrypt.workFactor),
       ("max_work_factor", .integer c.scrypt.maxWorkFactor)]) := rfl
  have houtput : section? c.toToml.entries "output" =
      some (.table .header [("armor", .boolean c.armor)]) := rfl
  have hidentity : section? c.toToml.entries "identity" =
      some (.table .header (c.identityFile.toList.map fun file => ("file", .text file))) := by
    cases hfile : c.identityFile <;> simp [section?, toToml, hfile] <;> rfl
  have hlog : section? c.toToml.entries "log" = some (.table .header
      [("level", .text c.logLevel), ("format", .text c.logFormat.name)]) := rfl
  -- the only setting that may be left out, and whose default is that it is left out
  have hfile : settingOr (none : Option String) (fun v => v.text?.map some) "file" 0
      (.table .header (c.identityFile.toList.map fun file => ("file", .text file))) =
        some c.identityFile := by
    cases c.identityFile <;> rfl
  simp only [ofToml, hscrypt, houtput, hidentity, hlog, hfile, bind, Option.bind_some]
  rw [settingOr_of_some (w := .integer c.scrypt.workFactor) rfl, hbyte hwork,
    settingOr_of_some (w := .integer c.scrypt.maxWorkFactor) rfl, hbyte hmax,
    settingOr_of_some (w := .boolean c.armor) rfl, settingOr_of_some (w := .text c.logLevel) rfl,
    settingOr_of_some (w := .text c.logFormat.name) rfl, LogFormat.ofValue?,
    LogFormat.ofName?_name]
  rfl

/-! ## Reading what is rendered -/

section

variable [Codec]

/-- A text with valid work factors is read as what it says. -/
theorem parse_utf8 {text : String} {c : Config} (hread : (Codec.read text).bind ofToml = some c)
    (h : c.scrypt.validate = .ok ()) (path : String) : parse path (Text.utf8 text) = .ok c := by
  simp only [parse, Text.ofUtf8?_utf8, hread, h]

/-- A configuration that passes the check is read as it was shown, under any path. -/
theorem parse_render {c : Config} (h : c.scrypt.validate = .ok ()) (path : String) :
    parse path (Text.utf8 c.render) = .ok c := by
  rcases ScryptLimits.validate_eq_ok_iff.1 h with ⟨hwork, hmax⟩
  have hbyte : ∀ {n : Nat}, WorkFactor.isWritten n = true → n < 256 :=
    fun hn => Nat.lt_of_le_of_lt (WorkFactor.isWritten_iff.1 hn).2 (by decide)
  have hread : (Codec.read c.render).bind ofToml = some c := by
    rw [render, Codec.read_write (plain_toToml (hbyte hwork) (hbyte hmax)), Option.bind_some,
      ofToml_toToml (hbyte hwork) (hbyte hmax)]
  exact parse_utf8 hread h path

/-- Only valid configurations are read. -/
theorem validate_of_parse {c : Config} {path : String} {b : Bytes} (h : parse path b = .ok c) :
    c.scrypt.validate = .ok () := by
  unfold parse at h
  split at h
  · cases h
  · split at h
    · cases h
    · split at h
      · rename_i hvalid
        cases h
        exact hvalid
      · cases h

end

end Config

end AgeCrypt
