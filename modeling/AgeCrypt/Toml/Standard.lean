import AgeCrypt.Proofs.Toml.Document
import AgeCrypt.Toml.Codec

/-!
# The reader and the writer of the program

The reader takes every document that TOML allows; the writer writes plain ones, each text in the
plainest quotes that hold it.
-/

namespace AgeCrypt
namespace Toml

instance standard : Codec where
  read := parse
  write := Sections.write
  read_write := parse_write

end Toml
end AgeCrypt
