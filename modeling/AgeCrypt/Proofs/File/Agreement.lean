import AgeCrypt.Proofs.File.Decryption
import AgeCrypt.Proofs.Io.Mirroring

/-!
# Sources that are opened alike

What a file is opened to depends on the bytes its source holds, and on nothing else about the
source: not on the room in its buffer, on the sizes in which it gives the bytes, or on its
interruptions.  Two runs over sources that are abreast go the same way, line by line through the
header (`Header.read_alike`) and chunk by chunk through the payload (`PayloadReader.Twin.readEach`),
errors included.  So they are opened alike (`Decryptor.answers_eq_of_abreast`), and sources that
hold the same are abreast (`Decryptor.answers_eq`).

Delivery alone does not say so much: it fixes the bytes of a plaintext, while here each read answers
with the same piece of it.
-/

namespace AgeCrypt

open ByteSource Buffered Crypto Payload

variable {σ τ : Type} [ByteSource σ] [ByteSource τ] {a : Buffered σ} {b : Buffered τ} {data : Bytes}

/-! ## Headers -/

namespace Header

/-- Buffered sources that stand abreast have the same next line, and stand abreast behind it. -/
theorem nextLine_alike (h : Abreast a b) (lines : Nat) :
    Paired Abreast (nextLine a lines) (nextLine b lines) := by
  have hline := h.readLine (some (maxLineLength + 1))
  unfold nextLine
  generalize a.readLine (some (maxLineLength + 1)) = answered at hline ⊢
  generalize b.readLine (some (maxLineLength + 1)) = answered' at hline ⊢
  cases hline with
  | @intro answer a b h =>
      match answer with
      | .error e => exact .intro h
      | .ok [] => exact .intro h
      | .ok (x :: tail) =>
          dsimp only
          split
          · exact .intro h
          · split <;> exact .intro h

variable [Base64]

theorem readBody_alike {a : Buffered σ} {b : Buffered τ} (h : Abreast a b) (lines : Nat) :
    Paired Abreast (readBody a lines) (readBody b lines) := by
  have halike := nextLine_alike h lines
  rw [readBody_eq a, readBody_eq b]
  cases hline : nextLine a lines with
  | mk answer t =>
      rw [hline] at halike
      generalize nextLine b lines = answered at halike ⊢
      cases halike with
      | @intro _ _ u h =>
          match answer with
          | .error e => exact .intro h
          | .ok none => exact .intro h
          | .ok (some line) =>
              dsimp only
              cases parseBodyLine (lines + 1) line with
              | error e => exact .intro h
              | ok piece =>
                  dsimp only
                  split
                  · exact .intro h
                  · have hrest := readBody_alike h (lines + 1)
                    generalize readBody t (lines + 1) = body at hrest ⊢
                    generalize readBody u (lines + 1) = body' at hrest ⊢
                    cases hrest with
                    | @intro answer _ _ h => cases answer <;> exact .intro h
termination_by a.weight
decreasing_by exact weight_nextLine hline

/-- So the same stanzas are read from both. -/
theorem readStanzas_alike {a : Buffered σ} {b : Buffered τ} (h : Abreast a b) (lines : Nat) :
    Paired Abreast (readStanzas a lines) (readStanzas b lines) := by
  have halike := nextLine_alike h lines
  rw [readStanzas_eq a, readStanzas_eq b]
  cases hline : nextLine a lines with
  | mk answer t =>
      rw [hline] at halike
      generalize nextLine b lines = answered at halike ⊢
      cases halike with
      | @intro _ _ u h =>
          match answer with
          | .error e => exact .intro h
          | .ok none => exact .intro h
          | .ok (some line) =>
              dsimp only
              split
              · cases parseClosing (lines + 1) line <;> exact .intro h
              · cases parseOpening (lines + 1) line with
                | error e => exact .intro h
                | ok names =>
                    have hbody_alike := readBody_alike h (lines + 1)
                    dsimp only
                    cases hbody : readBody t (lines + 1) with
                    | mk answer t' =>
                        rw [hbody] at hbody_alike
                        generalize readBody u (lines + 1) = answered at hbody_alike ⊢
                        cases hbody_alike with
                        | @intro _ _ u' h =>
                            cases answer with
                            | error e => exact .intro h
                            | ok body =>
                                have hrest := readStanzas_alike h body.2
                                dsimp only
                                generalize readStanzas t' body.2 = stanzas at hrest ⊢
                                generalize readStanzas u' body.2 = stanzas' at hrest ⊢
                                cases hrest with
                                | @intro answer _ _ h => cases answer <;> exact .intro h
termination_by a.weight
decreasing_by exact Nat.lt_trans (weight_readBody hbody) (weight_nextLine hline)

/-- So the same header is read from both. -/
theorem read_alike (h : Abreast a b) : Paired Abreast (read a) (read b) := by
  have halike := nextLine_alike h 0
  rw [read, read]
  generalize nextLine a 0 = answered at halike ⊢
  generalize nextLine b 0 = answered' at halike ⊢
  cases halike with
  | @intro answer t u h =>
      rcases answer with e | (_ | line)
      · exact .intro h
      · exact .intro h
      · dsimp only
        split
        · have hrest := readStanzas_alike h 1
          generalize readStanzas t 1 = stanzas at hrest ⊢
          generalize readStanzas u 1 = stanzas' at hrest ⊢
          cases hrest with
          | @intro answer _ _ h => cases answer <;> exact .intro h
        · exact .intro h

end Header

/-! ## Payloads -/

namespace PayloadReader

variable {S : Suite}

/-- Payload readers in the same state, over sources that full reads cannot tell apart. -/
inductive Twin : PayloadReader S σ → PayloadReader S τ → Prop where
  | intro {s : σ} {t : τ} {key : Block 32} {counter : Nat} {window : Window} {done : Bool}
      {failed : Option PayloadError} (h : Level s t) :
      Twin { inner := s, key, counter, window, done, failed }
        { inner := t, key, counter, window, done, failed }

namespace Twin

variable {r : PayloadReader S σ} {q : PayloadReader S τ}

/-- A chunk is a full read, which cannot tell the sources apart. -/
theorem nextChunk (h : Twin r q) : Paired Twin r.nextChunk q.nextChunk := by
  cases h with
  | @intro s t key counter window done failed h =>
      have hchunk := h.readFull sealedSize
      unfold PayloadReader.nextChunk
      dsimp only
      generalize readFull s sealedSize = answered at hchunk ⊢
      generalize readFull t sealedSize = answered' at hchunk ⊢
      cases hchunk with
      | @intro answer s t h =>
          cases answer with
          | error e => exact .intro (.intro h)
          | ok chunk =>
              dsimp only
              split
              · exact .intro (.intro h)
              split
              · exact .intro (.intro h)
              match openChunk S key counter chunk.toList with
              | none => exact .intro (.intro h)
              | some (plaintext, false) => exact .intro (.intro h)
              | some (plaintext, true) =>
                  -- the probe for bytes behind the last chunk
                  have hprobe := h.readFull 1
                  dsimp only
                  generalize readFull s 1 = answered at hprobe ⊢
                  generalize readFull t 1 = answered' at hprobe ⊢
                  cases hprobe with
                  | @intro answer s t h =>
                      cases answer with
                      | error e => exact .intro (.intro h)
                      | ok extra =>
                          dsimp only
                          split <;> exact .intro (.intro h)

/-- Handing out of the window keeps readers together. -/
theorem handOut (h : Twin r q) (n : Nat) : Paired Twin (r.handOut n) (q.handOut n) := by
  cases h with
  | intro h => exact .intro (.intro h)

/-- So every read answers alike, and leaves twins. -/
theorem read (h : Twin r q) (n : Nat) : Paired Twin (r.read n) (q.read n) := by
  have hstored := h
  cases h with
  | @intro s t key counter window done failed h =>
      cases failed with
      | some e =>
          rw [read_of_failed rfl, read_of_failed rfl]
          exact .intro hstored
      | none =>
          by_cases hn : n = 0
          · subst hn
            rw [read_zero rfl, read_zero rfl]
            exact .intro hstored
          by_cases hheld : window.isSpent = false ∨ done = true
          · rw [read_of_held rfl hn hheld, read_of_held rfl hn hheld]
            exact hstored.handOut n
          · rw [not_or, Bool.not_eq_false, Bool.not_eq_true] at hheld
            rw [read_of_spent rfl hn hheld.1 hheld.2, read_of_spent rfl hn hheld.1 hheld.2]
            have hchunk := hstored.nextChunk
            generalize PayloadReader.nextChunk (S := S) { inner := s, key, counter, window, done } =
              answered at hchunk ⊢
            generalize PayloadReader.nextChunk (S := S) { inner := t, key, counter, window, done } =
              answered' at hchunk ⊢
            cases hchunk with
            | @intro answer r q h =>
                cases answer with
                | error e => exact .intro h
                | ok => exact h.handOut n

/-- Readers in the same state answer one read after another alike, whatever their sizes. -/
theorem readEach {r : PayloadReader S σ} {q : PayloadReader S τ} (h : Twin r q)
    (sizes : List Nat) : (ByteSource.readEach r sizes).1 = (ByteSource.readEach q sizes).1 := by
  induction sizes generalizing r q with
  | nil => rfl
  | cons n sizes ih =>
      have hread := h.read n
      change (r.read n).1 :: (ByteSource.readEach (r.read n).2 sizes).1 =
        (q.read n).1 :: (ByteSource.readEach (q.read n).2 sizes).1
      generalize r.read n = answered at hread ⊢
      generalize q.read n = answered' at hread ⊢
      cases hread with
      | intro h => rw [ih h]

end Twin
end PayloadReader

/-! ## Files -/

namespace Decryptor

variable {S : Suite}

variable [Base64]

/-- Headers are read alike, and leave inputs that are abreast. -/
theorem start_alike (h : Abreast a b) :
    (∃ cause, start a = .error cause ∧ start b = .error cause) ∨
      ∃ header s t, start a = .ok ⟨s, header⟩ ∧ start b = .ok ⟨t, header⟩ ∧ Abreast s t := by
  have halike := Header.read_alike h
  unfold start
  generalize Header.read a = answered at halike ⊢
  generalize Header.read b = answered' at halike ⊢
  cases halike with
  | @intro answer s t h =>
      cases answer with
      | error e => exact .inl ⟨_, rfl, rfl⟩
      | ok header => exact .inr ⟨header, s, t, rfl, rfl, h⟩

/-- The identities and the nonce decide alike whether the payload is read. -/
theorem decrypt_alike (h : Abreast a b) (header : Header) (identities : List Identity) :
    (∃ cause, decrypt S ⟨a, header⟩ identities = .error cause ∧
        decrypt S ⟨b, header⟩ identities = .error cause) ∨
      ∃ r q, decrypt S ⟨a, header⟩ identities = .ok r ∧
        decrypt S ⟨b, header⟩ identities = .ok q ∧ PayloadReader.Twin r q := by
  have hnonce := h.level.readExact payloadNonceSize
  by_cases halone : Alone header.stanzas
  case neg =>
    exact .inl ⟨_, decrypt_of_not_alone (d := ⟨a, header⟩) halone identities,
      decrypt_of_not_alone (d := ⟨b, header⟩) halone identities⟩
  case pos =>
    rw [decrypt_of_alone (d := ⟨a, header⟩) halone, decrypt_of_alone (d := ⟨b, header⟩) halone]
    dsimp only
    cases findFileKey identities header.stanzas with
    | error cause => exact .inl ⟨_, rfl, rfl⟩
    | ok key =>
        dsimp only [proceed]
        split
        · exact .inl ⟨_, rfl, rfl⟩
        · generalize readExact a payloadNonceSize = answered at hnonce ⊢
          generalize readExact b payloadNonceSize = answered' at hnonce ⊢
          cases hnonce with
          | @intro answer s t h =>
              cases answer with
              | error cause => exact .inl ⟨_, rfl, rfl⟩
              | ok nonce => exact .inr ⟨_, _, rfl, rfl, .intro h⟩

/-- What a file comes to for whoever opens it: its header, whether it was written to a passphrase,
and what reads of these sizes answer, if the identities fit. -/
def answers (S : Suite) (identities : List Identity) (sizes : List Nat) (d : Decryptor σ) :
    Header × Bool × Except DecryptError (List (Except IoError Bytes)) :=
  (d.header, d.isPassphrase,
    (d.decrypt S identities).map fun r => (ByteSource.readEach r sizes).1)

/-- What a file comes to is the same over sources that stand abreast. -/
theorem answers_eq_of_abreast (h : Abreast a b) (identities : List Identity) (sizes : List Nat) :
    (start a).map (answers S identities sizes) = (start b).map (answers S identities sizes) := by
  rcases start_alike h with ⟨cause, hs, ht⟩ | ⟨header, s, t, hs, ht, hst⟩
  · rw [hs, ht]
    rfl
  · rw [hs, ht]
    simp only [Except.map, answers, isPassphrase]
    rcases decrypt_alike (S := S) hst header identities with
      ⟨cause, hr, hq⟩ | ⟨r, q, hr, hq, htwin⟩
    · rw [hr, hq]
    · rw [hr, hq]
      simp only [htwin.readEach sizes]

/-- Sources that hold the same are opened alike. -/
theorem answers_eq (ha : a.Holds data) (hb : b.Holds data) (identities : List Identity)
    (sizes : List Nat) :
    (start a).map (answers S identities sizes) = (start b).map (answers S identities sizes) :=
  answers_eq_of_abreast (.holding ha hb) identities sizes

end Decryptor

end AgeCrypt
