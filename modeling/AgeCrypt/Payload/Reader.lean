import AgeCrypt.Io.Source
import AgeCrypt.Io.Window
import AgeCrypt.Payload.Chunk

/-!
# Payload input

A source over a source that opens the chunks it reads.  No byte of a chunk is given out before the
whole chunk has authenticated, and the end of input is reported only when a chunk marked as last has
authenticated and nothing follows it.  A fault of the payload is final: every later read reports it
again.
-/

namespace AgeCrypt

open Crypto Payload

/-- A source that opens the chunks it reads. -/
structure PayloadReader (S : Suite) (σ : Type) where
  -- Where the sealed chunks come from.
  inner : σ
  key : Block 32
  -- The number of the next chunk.
  counter : Nat := 0
  -- The plaintext of the latest chunk.
  window : Window := {}
  -- Whether the last chunk has been opened.
  done : Bool := false
  -- The fault that ended the reading.
  failed : Option PayloadError := none

namespace PayloadReader

open ByteSource

variable {S : Suite} {σ : Type} [ByteSource σ]

def start (S : Suite) (key : Block 32) (source : σ) : PayloadReader S σ :=
  { inner := source, key }

def weight (r : PayloadReader S σ) : Nat :=
  r.window.remaining + ByteSource.weight r.inner

def fail (r : PayloadReader S σ) (e : PayloadError) : Except IoError Unit × PayloadReader S σ :=
  (.error (.payload e), { r with failed := some e, window := {} })

/-- The plaintext of a sealed chunk, and whether it is the last.  Only a short chunk is known to be
the last; a full one is first tried as one that others follow. -/
def openChunk (S : Suite) (key : Block 32) (counter : Nat) (chunk : Bytes) :
    Option (Bytes × Bool) :=
  let asLast := (S.decrypt? key (nonce counter true) chunk).map fun p => (p, true)
  if chunk.length < sealedSize then
    asLast
  else
    match S.decrypt? key (nonce counter false) chunk with
    | some p => some (p, false)
    | none => asLast

def nextChunk (r : PayloadReader S σ) : Except IoError Unit × PayloadReader S σ :=
  match readFull r.inner sealedSize with
  | (.error e, s) => (.error e, { r with inner := s })
  | (.ok chunk, s) =>
      let r := { r with inner := s }
      if chunk.size = 0 then
        r.fail .truncated
      else if chunk.size = tagSize ∧ r.counter ≠ 0 then
        r.fail .lastChunkEmpty
      else
        match openChunk S r.key r.counter chunk.toList with
        | none => r.fail .unauthentic
        | some (plaintext, false) =>
            (.ok (), { r with counter := r.counter + 1, window := .ofBytes plaintext })
        | some (plaintext, true) =>
            match readFull r.inner 1 with
            | (.error e, s) => (.error e, { r with inner := s })
            | (.ok extra, s) =>
                if extra.size ≠ 0 then
                  { r with inner := s }.fail .trailingData
                else
                  (.ok (), { r with inner := s, done := true, window := .ofBytes plaintext })

def read (r : PayloadReader S σ) (n : Nat) : Except IoError Bytes × PayloadReader S σ :=
  match r.failed with
  | some e => (.error (.payload e), r)
  | none =>
      if n = 0 then
        (.ok [], r)
      else
        match (if r.window.isSpent ∧ ¬ r.done then r.nextChunk else (.ok (), r)) with
        | (.error e, r) => (.error e, r)
        | (.ok (), r) =>
            let piece := r.window.take n
            (.ok piece.1, { r with window := piece.2 })

/-! ## Weight -/

/-- A fault of the payload does not invite another try. -/
theorem not_interrupted_of_payload (e : PayloadError) :
    (IoError.payload e).isInterrupted = false := by
  cases e <;> rfl

/-- A chunk opens to no more bytes than it has. -/
theorem length_of_openChunk {key : Block 32} {counter : Nat} {chunk p : Bytes} {last : Bool}
    (h : openChunk S key counter chunk = some (p, last)) : p.length ≤ chunk.length := by
  have hle : ∀ {flag : Bool} {q : Bytes}, S.decrypt? key (nonce counter flag) chunk = some q →
      q.length ≤ chunk.length := by
    intro flag q hq
    have := S.length_of_decrypt hq
    omega
  have hlast : (S.decrypt? key (nonce counter true) chunk).map (fun p => (p, true))
      = some (p, last) → p.length ≤ chunk.length := by
    intro hmap
    obtain ⟨q, hq, heq⟩ := Option.map_eq_some_iff.1 hmap
    have : q = p := congrArg Prod.fst heq
    exact this ▸ hle hq
  simp only [openChunk] at h
  split at h
  · exact hlast h
  · split at h
    · rename_i q hq
      cases h
      exact hle hq
    · exact hlast h

/-- A chunk that opens has been taken out of the source. -/
theorem nextChunk_ok {r s : PayloadReader S σ} (h : r.nextChunk = (.ok (), s)) :
    s.weight ≤ ByteSource.weight r.inner := by
  unfold nextChunk at h
  split at h
  · cases h
  · rename_i chunk t hr
    have h1 := weight_readFullFrom_ok hr
    simp only [Array.size_empty] at h1
    dsimp only at h
    split at h
    · cases h
    · split at h
      · cases h
      · split at h
        · cases h
        · rename_i p ho
          cases h
          have h2 := length_of_openChunk ho
          simp only [weight, Window.remaining_ofBytes, Array.length_toList] at h2 ⊢
          omega
        · rename_i p ho
          have h2 := length_of_openChunk ho
          split at h
          · cases h
          · rename_i extra u hx
            have h3 := weight_readFullFrom_ok hx
            simp only [Array.size_empty] at h3
            split at h
            · cases h
            · cases h
              simp only [weight, Window.remaining_ofBytes, Array.length_toList] at h2 ⊢
              omega

/-- A failure to read a chunk is final: it is no interruption. -/
theorem nextChunk_error {r s : PayloadReader S σ} {e : IoError}
    (h : r.nextChunk = (.error e, s)) : s.weight ≤ r.weight ∧ e.isInterrupted = false := by
  have hnil : ({} : Window).remaining = 0 := rfl
  unfold nextChunk at h
  split at h
  · rename_i hr
    cases h
    have h1 := weight_readFullFrom_error hr
    exact ⟨by simp only [weight]; omega, h1.2⟩
  · rename_i chunk t hr
    have h1 := weight_readFullFrom_ok hr
    simp only [Array.size_empty] at h1
    dsimp only at h
    split at h
    · cases h
      exact ⟨by simp only [weight, hnil]; omega, not_interrupted_of_payload _⟩
    · split at h
      · cases h
        exact ⟨by simp only [weight, hnil]; omega, not_interrupted_of_payload _⟩
      · split at h
        · cases h
          exact ⟨by simp only [weight, hnil]; omega, not_interrupted_of_payload _⟩
        · cases h
        · split at h
          · rename_i hx
            cases h
            have h3 := weight_readFullFrom_error hx
            exact ⟨by simp only [weight]; omega, h3.2⟩
          · rename_i extra u hx
            have h3 := weight_readFullFrom_ok hx
            simp only [Array.size_empty] at h3
            split at h
            · cases h
              exact ⟨by simp only [weight, hnil]; omega, not_interrupted_of_payload _⟩
            · cases h

instance : ByteSource (PayloadReader S σ) where
  read := read
  weight := weight
  length_le := by
    intro r n b s h
    unfold read at h
    split at h
    · cases h
    · split at h
      · cases h
        simp
      · split at h
        · cases h
        · cases h
          rw [Window.length_take_fst]
          omega
  weight_of_ok := by
    intro r n b s h
    unfold read at h
    split at h
    · cases h
    · split at h
      · cases h
        simp
      · split at h
        · cases h
        · rename_i r' hf
          cases h
          have hle : r'.weight ≤ r.weight := by
            split at hf
            · have := nextChunk_ok hf
              simp only [weight] at this ⊢
              omega
            · cases hf
              exact Nat.le_refl _
          have h1 := Window.length_take_fst r'.window n
          have h2 := Window.remaining_take_snd r'.window n
          simp only [weight] at hle h1 h2 ⊢
          omega
  weight_of_error := by
    intro r n e s h
    unfold read at h
    split at h
    · cases h
      simp [not_interrupted_of_payload]
    · split at h
      · cases h
      · split at h
        · rename_i hf
          cases h
          split at hf
          · obtain ⟨h1, h2⟩ := nextChunk_error hf
            simp only [h2, Bool.false_eq_true, if_false]
            omega
          · cases hf
        · cases h

end PayloadReader

end AgeCrypt
