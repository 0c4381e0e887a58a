/-!
# Payload errors

Why the chunked payload of a file is refused, or why its writer gives up.
-/

namespace AgeCrypt

inductive PayloadError where
  -- The input ended before a chunk marked as last.
  | truncated
  -- The last chunk is empty although others came before it.
  | lastChunkEmpty
  | trailingData
  | unauthentic
  -- The writer's sink failed earlier.
  | writerFailed
deriving DecidableEq, Repr

def PayloadError.message : PayloadError → String
  | truncated => "stream truncated: missing final chunk"
  | lastChunkEmpty => "final chunk is empty"
  | trailingData => "trailing data after the final chunk"
  | unauthentic => "chunk failed authentication"
  | writerFailed => "payload writer failed on an earlier write"

end AgeCrypt
