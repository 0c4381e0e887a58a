import AgeCrypt.Cli.Host
import AgeCrypt.Proofs.Files.Store

/-!
# Input and output of a command

A path that is not a single dash means a file.  The input is what the path leads to; the output is
made there, or emptied.
-/

namespace AgeCrypt
namespace Cli

variable {files files' : FileStore} {path : String} {place : Place} {endpoint : Endpoint}

theorem filePath_of_file (h : Path.isDash path = false) : filePath (some path) = some path := by
  simp only [filePath, Option.filter_some, h, Bool.not_false, if_true]

theorem openInput_of_openPlace (hfile : Path.isDash path = false)
    (h : files.openPlace path = .ok place) : openInput files (some path) = .ok (.file place) := by
  simp only [openInput, filePath_of_file hfile, h]

/-- An input with a name is the file that the name leads to. -/
theorem of_openInput_ok (hfile : Path.isDash path = false)
    (h : openInput files (some path) = .ok endpoint) :
    ∃ place, endpoint = .file place ∧ files.openPlace path = .ok place := by
  simp only [openInput, filePath_of_file hfile] at h
  split at h
  · rename_i place hopened
    cases h
    exact ⟨place, rfl, hopened⟩
  · cases h

theorem openOutput_of_create (hfile : Path.isDash path = false)
    (h : files.create path = .ok (place, files')) :
    openOutput files (some path) = .ok (.file place, files') := by
  simp only [openOutput, filePath_of_file hfile, h]

/-- An output with a name is a file that has been made or emptied. -/
theorem of_openOutput_ok (hfile : Path.isDash path = false)
    (h : openOutput files (some path) = .ok (endpoint, files')) :
    ∃ place, endpoint = .file place ∧ files.create path = .ok (place, files') := by
  simp only [openOutput, filePath_of_file hfile] at h
  split at h
  · rename_i place made hcreated
    cases h
    exact ⟨place, rfl, hcreated⟩
  · cases h

end Cli
end AgeCrypt
