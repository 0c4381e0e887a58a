import AgeCrypt.Toml.Sections

/-!
# Reading and writing TOML

Nothing in the program depends on how a document is spelled.  It depends on a reader, on a writer of
plain documents, and on this: what the writer wrote, the reader reads as what was written.
-/

namespace AgeCrypt
namespace Toml

class Codec where
  -- What a document says, if it is one.
  read : String → Option Entries
  write : Sections → String
  read_write : ∀ {d : Sections}, d.Plain → read (write d) = some d.entries

end Toml
end AgeCrypt
