import AgeCrypt.Armor.Error
import AgeCrypt.Armor.Reader
import AgeCrypt.Armor.Text
import AgeCrypt.Armor.Writer
import AgeCrypt.Asking
import AgeCrypt.Base64
import AgeCrypt.Base64.Standard
import AgeCrypt.Base64.Strict
import AgeCrypt.Bech32.Checksum
import AgeCrypt.Bech32.Codec
import AgeCrypt.Bech32.Regroup
import AgeCrypt.Bytes
import AgeCrypt.Cli.Arguments
import AgeCrypt.Cli.Decrypt
import AgeCrypt.Cli.Encrypt
import AgeCrypt.Cli.Help
import AgeCrypt.Cli.Host
import AgeCrypt.Cli.Options
import AgeCrypt.Cli.Report
import AgeCrypt.Cli.Run
import AgeCrypt.Config.Basic
import AgeCrypt.Config.Toml
import AgeCrypt.Crypto.Aead
import AgeCrypt.Crypto.Scrypt
import AgeCrypt.Crypto.Sha256
import AgeCrypt.Crypto.Suite
import AgeCrypt.Crypto.Words
import AgeCrypt.Crypto.X25519
import AgeCrypt.File.Decryptor
import AgeCrypt.File.Encryptor
import AgeCrypt.File.Error
import AgeCrypt.File.Opening
import AgeCrypt.Files.Output
import AgeCrypt.Files.Path
import AgeCrypt.Files.Store
import AgeCrypt.Header.Basic
import AgeCrypt.Header.Error
import AgeCrypt.Header.Reader
import AgeCrypt.Header.Stanza
import AgeCrypt.Io.Buffered
import AgeCrypt.Io.Error
import AgeCrypt.Io.Gathering
import AgeCrypt.Io.Scripted
import AgeCrypt.Io.Sink
import AgeCrypt.Io.Source
import AgeCrypt.Io.Window
import AgeCrypt.Keys.FileKey
import AgeCrypt.Keys.IdentityFile
import AgeCrypt.Keys.Party
import AgeCrypt.Keys.Passphrase
import AgeCrypt.Keys.WorkFactor
import AgeCrypt.Keys.X25519
import AgeCrypt.Main
import AgeCrypt.Payload.Chunk
import AgeCrypt.Payload.Draft
import AgeCrypt.Payload.Error
import AgeCrypt.Payload.Reader
import AgeCrypt.Payload.Writer
import AgeCrypt.Tape
import AgeCrypt.Text.Ascii
import AgeCrypt.Text.Blank
import AgeCrypt.Text.Combining
import AgeCrypt.Text.Quoted
import AgeCrypt.Text.Unprintable
import AgeCrypt.Text.Utf8
import AgeCrypt.Toml.Codec
import AgeCrypt.Toml.Document
import AgeCrypt.Toml.Number
import AgeCrypt.Toml.Scan
import AgeCrypt.Toml.Sections
import AgeCrypt.Toml.Standard
import AgeCrypt.Toml.Text
import AgeCrypt.Toml.Value
import AgeCrypt.Proofs.Armor.Acceptance
import AgeCrypt.Proofs.Armor.Arrival
import AgeCrypt.Proofs.Armor.Calls
import AgeCrypt.Proofs.Armor.Losing
import AgeCrypt.Proofs.Armor.Reading
import AgeCrypt.Proofs.Armor.Spelling
import AgeCrypt.Proofs.Armor.Stripping
import AgeCrypt.Proofs.Armor.Writing
import AgeCrypt.Proofs.Asking
import AgeCrypt.Proofs.Base64
import AgeCrypt.Proofs.Bech32.Case
import AgeCrypt.Proofs.Bech32.Checksum
import AgeCrypt.Proofs.Bech32.Codec
import AgeCrypt.Proofs.Bech32.Detection
import AgeCrypt.Proofs.Bech32.Padding
import AgeCrypt.Proofs.Bech32.Regroup
import AgeCrypt.Proofs.Bounds.Guarded
import AgeCrypt.Proofs.Bounds.KeyStrings
import AgeCrypt.Proofs.Bounds.Streams
import AgeCrypt.Proofs.Cli.Config
import AgeCrypt.Proofs.Cli.Decrypt
import AgeCrypt.Proofs.Cli.Encrypt
import AgeCrypt.Proofs.Cli.Host
import AgeCrypt.Proofs.Cli.Keygen
import AgeCrypt.Proofs.Cli.Releasing
import AgeCrypt.Proofs.Cli.RoundTrip
import AgeCrypt.Proofs.Config.Toml
import AgeCrypt.Proofs.Crypto.Laws
import AgeCrypt.Proofs.Crypto.Sha256
import AgeCrypt.Proofs.Crypto.Transparent
import AgeCrypt.Proofs.Crypto.X25519
import AgeCrypt.Proofs.File.Agreement
import AgeCrypt.Proofs.File.Arrival
import AgeCrypt.Proofs.File.Completeness
import AgeCrypt.Proofs.File.Decryption
import AgeCrypt.Proofs.File.Encryption
import AgeCrypt.Proofs.File.Identities
import AgeCrypt.Proofs.File.Limits
import AgeCrypt.Proofs.File.Opening
import AgeCrypt.Proofs.File.RoundTrip
import AgeCrypt.Proofs.File.Structure
import AgeCrypt.Proofs.File.Transparency
import AgeCrypt.Proofs.File.Watching
import AgeCrypt.Proofs.File.Work
import AgeCrypt.Proofs.Files.Output
import AgeCrypt.Proofs.Files.Store
import AgeCrypt.Proofs.Header.Completion
import AgeCrypt.Proofs.Header.Exactness
import AgeCrypt.Proofs.Header.Faults
import AgeCrypt.Proofs.Header.Grammar
import AgeCrypt.Proofs.Header.Reading
import AgeCrypt.Proofs.Header.Signing
import AgeCrypt.Proofs.Io.Calls
import AgeCrypt.Proofs.Io.Collection
import AgeCrypt.Proofs.Io.Copying
import AgeCrypt.Proofs.Io.Delivery
import AgeCrypt.Proofs.Io.Intake
import AgeCrypt.Proofs.Io.Lines
import AgeCrypt.Proofs.Io.Logging
import AgeCrypt.Proofs.Io.Mirroring
import AgeCrypt.Proofs.Io.Watching
import AgeCrypt.Proofs.Keys.Asking
import AgeCrypt.Proofs.Keys.Ceilings
import AgeCrypt.Proofs.Keys.Decimals
import AgeCrypt.Proofs.Keys.Encodings
import AgeCrypt.Proofs.Keys.IdentityFile
import AgeCrypt.Proofs.Keys.IdentityLines
import AgeCrypt.Proofs.Keys.Spelling
import AgeCrypt.Proofs.Keys.WorkFactor
import AgeCrypt.Proofs.Keys.Wrapping
import AgeCrypt.Proofs.Payload.Accounting
import AgeCrypt.Proofs.Payload.Authenticity
import AgeCrypt.Proofs.Payload.Calls
import AgeCrypt.Proofs.Payload.Canonical
import AgeCrypt.Proofs.Payload.Decoding
import AgeCrypt.Proofs.Payload.Drafting
import AgeCrypt.Proofs.Payload.Faults
import AgeCrypt.Proofs.Payload.Losing
import AgeCrypt.Proofs.Payload.Numbering
import AgeCrypt.Proofs.Payload.Opening
import AgeCrypt.Proofs.Payload.Reading
import AgeCrypt.Proofs.Payload.Releasing
import AgeCrypt.Proofs.Payload.Replies
import AgeCrypt.Proofs.Payload.Sealing
import AgeCrypt.Proofs.Payload.Writing
import AgeCrypt.Proofs.Text.Ascii
import AgeCrypt.Proofs.Text.Utf8
import AgeCrypt.Proofs.Toml.Document
import AgeCrypt.Proofs.Toml.Number
import AgeCrypt.Proofs.Toml.Scan
import AgeCrypt.Proofs.Toml.Text
