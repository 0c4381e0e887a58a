import AgeCrypt.Proofs.Cli.RoundTrip
import AgeCrypt.Proofs.Config.Toml

/-!
# Configurations are loaded again as they are rendered

A configuration that was loaded, from a file or because there was none, has valid work factors; and
every configuration that has them is loaded from the file it is rendered to.  So rendering and
loading are inverse to each other on exactly the configurations that can be loaded
(`loadConfig_render`), with any reader and writer of TOML that undo each other.
-/

namespace AgeCrypt
namespace Cli

section

variable [Toml.Codec] {files : FileStore} {path : String} {c : Config}

/-- Whatever is loaded has been checked. -/
theorem validate_of_loadConfig (h : loadConfig files path = .ok c) :
    c.scrypt.validate = .ok () := by
  unfold loadConfig at h
  split at h
  · split at h
    · exact Config.validate_of_parse h
    · cases h
  · cases h
    decide

/-- A configuration that passes the check is loaded from what it is shown as. -/
theorem loadConfig_of_render (h : c.scrypt.validate = .ok ())
    (hread : files.read path = .ok (Text.utf8 c.render)) : loadConfig files path = .ok c := by
  rw [loadConfig_of_read hread, Config.parse_render h]

end

def configStore (contents : String) : FileStore :=
  ({} : FileStore).put ["config"] (Text.utf8 contents)

theorem read_configStore (contents : String) :
    (configStore contents).read "config" = .ok (Text.utf8 contents) := by
  have hpath : ({} : FileStore).locate "config" = .ok ["config"] := by
    decide +kernel
  have hfile : ({} : FileStore).isDirectory ["config"] = false := by
    decide
  exact FileStore.read_of_contents (FileStore.locate_put hfile _ hpath)
    (FileStore.contents?_put_self _ _ _)

/-- What can be loaded are the configurations with valid work factors, and each of them is loaded
from any file that holds what it is rendered as. -/
theorem loadConfig_render [Toml.Codec] (c : Config) :
    ((∃ files path, loadConfig files path = .ok c) ↔ c.scrypt.validate = .ok ()) ∧
      ((∃ files path, loadConfig files path = .ok c) → ∀ files path,
        files.read path = .ok (Text.utf8 c.render) →
          ∃ again, loadConfig files path = .ok again ∧ again = c ∧ again.render = c.render) := by
  refine ⟨⟨?_, fun h => ?_⟩, ?_⟩
  · rintro ⟨files, path, h⟩
    exact validate_of_loadConfig h
  · exact ⟨configStore c.render, "config", loadConfig_of_render h (read_configStore _)⟩
  · rintro ⟨files, path, h⟩ files' path' hread
    exact ⟨c, loadConfig_of_render (validate_of_loadConfig h) hread, rfl, rfl⟩

/-- A configuration as a user may write it, with texts that need escapes. -/
def sampleConfigText : String :=
  "log.level = \"it's\\n\"\n[scrypt]\nwork_factor = 0x2\n[identity]\nfile = 'C:\\\"'\n"

def sampleConfig : Config :=
  { scrypt := { workFactor := 2 }
    identityFile := some "C:\\\""
    logLevel := "it's\n" }

theorem loadConfig_sampleConfigText :
    loadConfig (configStore sampleConfigText) "config" = .ok sampleConfig := by
  have hread : (Toml.Codec.read sampleConfigText).bind Config.ofToml = some sampleConfig := by
    decide +kernel
  rw [loadConfig_of_read (read_configStore sampleConfigText)]
  exact Config.parse_utf8 hread (by decide) _

/-- It is loaded again from what it is rendered as. -/
theorem loadConfig_render_escapes :
    ∃ again, loadConfig (configStore sampleConfig.render) "config" = .ok again ∧
      again = sampleConfig ∧ again.render = sampleConfig.render :=
  (loadConfig_render sampleConfig).2 ⟨_, _, loadConfig_sampleConfigText⟩ _ _
    (read_configStore sampleConfig.render)

end Cli
end AgeCrypt
