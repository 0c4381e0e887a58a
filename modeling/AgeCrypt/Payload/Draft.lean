import AgeCrypt.Asking
import AgeCrypt.Io.Sink
import AgeCrypt.Payload.Chunk

/-!
# Drafts of payloads

A draft is a payload in the making: the bytes held back, the number of the next chunk, and the sink
that sealed chunks go to.  It knows neither a key nor how a chunk is sealed.  What is done with it
is a computation that asks for each chunk to be sealed, under the nonce that goes with it.

A full chunk is held back until more data comes, since only then is it known not to be the last.  A
draft whose sink has failed once stays failed: the chunk that was lost cannot be made good.
-/

namespace AgeCrypt

open Payload

/-- A chunk that is to be sealed, and the nonce it is to be sealed under. -/
structure Seal where
  nonce : Block 12
  chunk : Bytes
deriving DecidableEq

/-- A computation that gets sealed chunks only by asking for them. -/
abbrev Seals := Asking Seal Bytes

/-- A payload in the making. -/
structure Draft (τ : Type) where
  -- Where the sealed chunks go.
  inner : τ
  -- The number of the next chunk.
  counter : Nat := 0
  -- The bytes of the next chunk so far.
  chunk : Array UInt8 := #[]
  -- Whether a sealed chunk could not be written.
  failed : Bool := false

namespace Draft

variable {τ : Type} [ByteSink τ]

omit [ByteSink τ] in
/-- What is left of a draft once the chunk held back has been written; the number moves on. -/
def after (d : Draft τ) (t : τ) : Draft τ :=
  { d with inner := t, counter := d.counter + 1, chunk := #[] }

/-- Have the bytes held back sealed as one chunk and write it, then go on with the sink; or go on
with what stopped it. -/
def sealThen {α : Type} (d : Draft τ) (last : Bool) (written : τ → Seals α)
    (stopped : IoError → Draft τ → Seals α) : Seals α :=
  if d.failed then
    stopped (.payload .writerFailed) d
  else
    .ask ⟨nonce d.counter last, d.chunk.toList⟩ fun piece =>
      match ByteSink.writeAll d.inner piece with
      | (.ok (), t) => written t
      | (.error e, t) => stopped e { d with inner := t, failed := true }

/-- Seal the bytes held back as one chunk and write it.  The number moves on only when all of the
chunk has been written. -/
def flushChunk (d : Draft τ) (last : Bool) : Seals (Except IoError Unit × Draft τ) :=
  d.sealThen last (fun t => .done (.ok (), d.after t)) fun e v => .done (.error e, v)

/-- Take the bytes `b` after `taken` others, sealing the chunk held back whenever it is full and
more bytes follow.  A failure after some bytes were taken is reported by the next call. -/
def writeFrom (d : Draft τ) (b : Bytes) (taken : Nat) : Seals (Except IoError Nat × Draft τ) :=
  if b = [] then
    .done (.ok taken, d)
  else if chunkSize ≤ d.chunk.size then
    d.sealThen false (fun t => writeFrom (d.after t) b taken) fun e v =>
      .done (if 0 < taken then .ok taken else .error e, v)
  else
    let room := chunkSize - d.chunk.size
    let piece := b.take room
    writeFrom { d with chunk := d.chunk ++ piece } (b.drop room) (taken + piece.length)
termination_by (b.length, d.chunk.size)
decreasing_by
  · rename_i hfull
    apply Prod.Lex.right
    simp only [chunkSize] at hfull
    simp only [after, Array.size_empty]
    omega
  · rename_i hb hc
    have : b.length ≠ 0 := fun hl => hb (List.length_eq_zero_iff.1 hl)
    apply Prod.Lex.left
    simp only [List.length_drop]
    omega

def write (d : Draft τ) (b : Bytes) : Seals (Except IoError Nat × Draft τ) :=
  if d.failed then
    .done (.error (.payload .writerFailed), d)
  else
    d.writeFrom b 0

/-- Flush the sink below; the chunk held back stays. -/
def flush (d : Draft τ) : Except IoError Unit × Draft τ :=
  let (r, t) := ByteSink.flush d.inner
  (r, { d with inner := t })

/-- Seal the last chunk, which may be empty, and give the sink back. -/
def finish (d : Draft τ) : Seals (Except IoError Unit × τ) :=
  d.sealThen true (fun t => .done (ByteSink.flush t)) fun e v => .done (.error e, v.inner)

end Draft
end AgeCrypt
