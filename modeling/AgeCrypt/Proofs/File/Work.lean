import AgeCrypt.Base64.Standard
import AgeCrypt.Proofs.Crypto.Transparent
import AgeCrypt.Proofs.File.Decryption
import AgeCrypt.Proofs.Keys.Asking

/-!
# The work that a file may ask for

Whoever opens a file sets a ceiling to each passphrase, and no file gets more work out of it
(`Decryptor.decrypt_asks`).  Two rules carry this.  A stanza asks for a derivation only after all
else about it has been checked, the ceiling included (`PassphraseIdentity.request_eq_ok_iff`).  And
a passphrase stanza that has company is refused before any identity is asked, so a header cannot ask
twice (`PassphraseIdentity.asked_askingAny`).
-/

namespace AgeCrypt

open Crypto

/-- A search comes to what the answers of the parties come to. -/
theorem run_searchFileKey {ι : Type} (f : Stretching)
    (unwrap : ι → Stretches (Except Refusal FileKey)) (absent : DecryptError) (parties : List ι) :
    (searchFileKey unwrap absent parties).run f =
      Id.run (searchFileKey (fun i => (unwrap i).run f) absent parties) := by
  induction parties generalizing absent with
  | nil => rfl
  | cons i parties ih =>
      rw [searchFileKey_cons, searchFileKey, Asking.run_bind]
      rcases (unwrap i).run f with (_ | cause) | found
      · exact ih _
      · rfl
      · rfl

section

variable [Base64]

/-- The derivation is one that the stanzas may ask of the passphrase: they are a single stanza, well
formed in all its parts, and its work factor is within the ceiling. -/
def Derivation.IsDue (q : Derivation) (i : PassphraseIdentity) (stanzas : List Stanza) : Prop :=
  ∃ (s : Stanza) (salt : Block 16), stanzas = [s] ∧ s.tag = "scrypt" ∧
    s.args = [Text.ofAscii (Base64.encode salt.bytes), WorkFactor.text q.logN] ∧
    s.body.length = 32 ∧ 1 ≤ q.logN ∧ q.logN ≤ i.maxWorkFactor ∧
    q.passphrase = Text.utf8 i.passphrase ∧
    q.salt = Bytes.ascii "age-encryption.org/v1/scrypt" ++ salt.bytes

/-- What is requested is due, if the ceiling is below what large numbers are read as. -/
theorem PassphraseIdentity.isDue_of_request {i : PassphraseIdentity} {s : Stanza} {q : Derivation}
    (h : i.request s = .ok q) (hceiling : i.maxWorkFactor < WorkFactor.saturation) :
    q.IsDue i [s] := by
  rcases request_eq_ok_iff.1 h with ⟨htag, hbody, salt, n, hpos, hargs, hmax, rfl⟩
  have hn : min n WorkFactor.saturation = n := by
    omega
  rw [hn] at hmax ⊢
  exact ⟨s, salt, rfl, htag, hargs, hbody, hpos, hmax, rfl, rfl⟩

/-! ## The search for the file key -/

section

variable {S : Suite} {stanzas : List Stanza} {identities : List PassphraseIdentity}

def searching (S : Suite) (stanzas : List Stanza) (absent : DecryptError)
    (identities : List PassphraseIdentity) : Stretches (Except DecryptError FileKey) :=
  searchFileKey (fun i : PassphraseIdentity => i.askingAny S stanzas) absent identities

/-- With answers from `f` the search finds what identities find that stretch by `f`. -/
theorem run_searching (f : Stretching) :
    (searching S stanzas .noIdentities identities).run f =
      findFileKey (identities.map (·.identity (S.stretchingBy f))) stanzas := by
  have hanswers : (fun i : PassphraseIdentity => (i.askingAny S stanzas).run f) =
      fun i => (i.identity (S.stretchingBy f)).unwrap stanzas :=
    funext fun i => PassphraseIdentity.run_askingAny f stanzas
  rw [searching, run_searchFileKey, hanswers, findFileKey, searchFileKey_map]

/-- The search asks for the first passphrase, and for others only if that did not fit. -/
theorem asked_searching_cons (f : Stretching) (absent : DecryptError) (i : PassphraseIdentity)
    (rest : List PassphraseIdentity) :
    (searching S stanzas absent (i :: rest)).asked f = (i.askingAny S stanzas).asked f ∨
      (searching S stanzas absent (i :: rest)).asked f =
        (i.askingAny S stanzas).asked f ++ (searching S stanzas .noMatch rest).asked f := by
  rw [searching, searchFileKey, Asking.asked_bind]
  split
  · exact .inl (List.append_nil _)
  · exact .inl (List.append_nil _)
  · exact .inr rfl

/-- Questions, each with the passphrase that is asked.  They go through a list of passphrases in
order, and each of them is requested by the only stanza. -/
structure Interview (stanzas : List Stanza) (identities : List PassphraseIdentity)
    (questions : List (PassphraseIdentity × Derivation)) : Prop where
  inOrder : (questions.map Prod.fst).Sublist identities
  requested : ∀ iq ∈ questions, ∃ s, stanzas = [s] ∧ iq.1.request s = .ok iq.2

theorem Interview.nil : Interview stanzas identities [] where
  inOrder := List.nil_sublist _
  requested _ hiq := absurd hiq List.not_mem_nil

/-- A passphrase may be left out of the questions. -/
theorem Interview.skip {questions : List (PassphraseIdentity × Derivation)}
    (h : Interview stanzas identities questions) (i : PassphraseIdentity) :
    Interview stanzas (i :: identities) questions where
  inOrder := h.inOrder.cons i
  requested := h.requested

/-- A passphrase is asked at most once, before all that come after it. -/
theorem Interview.cons {questions : List (PassphraseIdentity × Derivation)} {s : Stanza}
    {i : PassphraseIdentity} {q : Derivation} (h : Interview stanzas identities questions)
    (hstanzas : stanzas = [s]) (hq : i.request s = .ok q) :
    Interview stanzas (i :: identities) ((i, q) :: questions) where
  inOrder := h.inOrder.cons_cons i
  requested := List.forall_mem_cons.2 ⟨⟨s, hstanzas, hq⟩, h.requested⟩

/-- The search asks each passphrase once, if at all, and only for what is requested. -/
theorem asked_searching (f : Stretching) (halone : Decryptor.Alone stanzas)
    (absent : DecryptError) :
    ∃ questions, Interview stanzas identities questions ∧
      questions.map Prod.snd = (searching S stanzas absent identities).asked f := by
  induction identities generalizing absent with
  | nil => exact ⟨[], .nil, rfl⟩
  | cons i rest ih =>
      -- the questions put to the others, if the search goes on
      have hothers : ∃ questions, Interview stanzas rest questions ∧
          (searching S stanzas absent (i :: rest)).asked f =
            (i.askingAny S stanzas).asked f ++ questions.map Prod.snd := by
        rcases asked_searching_cons f absent i rest with h | h
        · exact ⟨[], .nil, by simpa using h⟩
        · rcases ih .noMatch with ⟨questions, hinterview, hasked⟩
          exact ⟨questions, hinterview, by rw [h, hasked]⟩
      rcases hothers with ⟨questions, hinterview, hasked⟩
      rw [hasked]
      rcases PassphraseIdentity.asked_askingAny f halone with
        hnone | ⟨s, q, hstanzas, hq, hone⟩
      · exact ⟨questions, hinterview.skip i, by rw [hnone, List.nil_append]⟩
      · exact ⟨(i, q) :: questions, hinterview.cons hstanzas hq, by rw [hone]; rfl⟩

end

/-! ## Decryption -/

/-- A reader of payloads, by the suite as it was. -/
def PayloadReader.unstretched {S : Suite} {f : Stretching} {σ : Type}
    (r : PayloadReader (S.stretchingBy f) σ) : PayloadReader S σ :=
  { inner := r.inner, key := r.key, counter := r.counter, window := r.window, done := r.done,
    failed := r.failed }

end

namespace Decryptor

section

variable [Base64] {S : Suite} {σ : Type} [ByteSource σ]

/-- After the search no passphrase is stretched. -/
theorem proceed_unstretched (f : Stretching) (d : Decryptor σ)
    (found : Except DecryptError FileKey) :
    (d.proceed (S.stretchingBy f) found).map (·.unstretched) = d.proceed S found := by
  cases found with
  | error cause => rfl
  | ok key =>
      have hverifies : FileKey.verifies (S.stretchingBy f) key d.header =
          FileKey.verifies S key d.header := rfl
      simp only [proceed, hverifies]
      by_cases hmac : FileKey.verifies S key d.header
      · simp only [hmac, not_true_eq_false, if_false]
        rcases ByteSource.readExact d.input payloadNonceSize with ⟨cause | nonce, rest⟩
        · rfl
        · rfl
      · simp only [if_pos hmac]
        rfl

def decrypting (S : Suite) (d : Decryptor σ) (identities : List PassphraseIdentity) :
    Stretches (Except DecryptError (PayloadReader S (Buffered σ))) :=
  d.decryptBy S fun stanzas => searching S stanzas .noIdentities identities

/-- With answers from `f` decryption comes to what it comes to if passphrases are stretched by `f`.
-/
theorem run_decrypting (f : Stretching) (d : Decryptor σ) (identities : List PassphraseIdentity) :
    (d.decrypt (S.stretchingBy f) (identities.map (·.identity (S.stretchingBy f)))).map
        (·.unstretched) =
      (d.decrypting S identities).run f := by
  rw [decrypting, decryptBy]
  split
  · rename_i hcompany
    rw [decrypt_of_not_alone fun halone => alone_iff.1 halone hcompany]
    rfl
  · rename_i hcompany
    rw [decrypt_of_alone (alone_iff.2 hcompany), proceed_unstretched, Asking.run_bind,
      run_searching]
    rfl

/-- Answered by the suite itself, the questions lead to what decryption is. -/
theorem run_decrypting_self (d : Decryptor σ) (identities : List PassphraseIdentity) :
    (d.decrypting S identities).run S.stretching = d.decrypt S (identities.map (·.identity S)) := by
  refine (run_decrypting S.stretching d identities).symm.trans ?_
  change (d.decrypt S (identities.map (·.identity S))).map _ = _
  cases d.decrypt S (identities.map (·.identity S)) <;> rfl

/-- Whatever the answers are, the questions go through the passphrases in order. -/
theorem asked_decrypting (f : Stretching) (d : Decryptor σ)
    (identities : List PassphraseIdentity) :
    ∃ questions, Interview d.header.stanzas identities questions ∧
      questions.map Prod.snd = (d.decrypting S identities).asked f := by
  rw [decrypting, decryptBy]
  split
  · exact ⟨[], .nil, rfl⟩
  · rename_i hcompany
    rw [Asking.asked_bind, Asking.asked_pure, List.append_nil]
    exact asked_searching f (alone_iff.2 hcompany) _

/-- However a header came about, decryption makes at most one derivation for each passphrase, and
only one that is due: the header is a single passphrase stanza, well formed in all its parts, and
its work factor is within the ceiling of that passphrase.

So decryption is a computation that learns derived keys only by asking, the same whatever the way to
stretch passphrases, and it asks no more than that.  Another way to
stretch them changes nothing if it agrees on work factors within the ceilings. -/
theorem decrypt_asks (d : Decryptor σ) {identities : List PassphraseIdentity}
    (hceiling : ∀ i ∈ identities, i.maxWorkFactor < WorkFactor.saturation) :
    (∃ program : Stretches (Except DecryptError (PayloadReader S (Buffered σ))), ∀ f : Stretching,
      (d.decrypt (S.stretchingBy f) (identities.map (·.identity (S.stretchingBy f)))).map
          (·.unstretched) = program.run f ∧
        ∃ questions : List (PassphraseIdentity × Derivation),
          (questions.map Prod.fst).Sublist identities ∧
            questions.map Prod.snd = program.asked f ∧
            ∀ iq ∈ questions, iq.2.IsDue iq.1 d.header.stanzas) ∧
      ∀ f : Stretching,
        (∀ i ∈ identities, ∀ salt logN, 1 ≤ logN → logN ≤ i.maxWorkFactor →
          f ⟨Text.utf8 i.passphrase, salt, logN⟩ = S.stretch (Text.utf8 i.passphrase) salt logN) →
        (d.decrypt (S.stretchingBy f) (identities.map (·.identity (S.stretchingBy f)))).map
            (·.unstretched) = d.decrypt S (identities.map (·.identity S)) := by
  have hdue : ∀ f : Stretching, ∃ questions : List (PassphraseIdentity × Derivation),
      (questions.map Prod.fst).Sublist identities ∧
        questions.map Prod.snd = (d.decrypting S identities).asked f ∧
        ∀ iq ∈ questions, iq.2.IsDue iq.1 d.header.stanzas := by
    intro f
    rcases asked_decrypting (S := S) f d identities with ⟨questions, hinterview, hasked⟩
    refine ⟨questions, hinterview.inOrder, hasked, fun iq hiq => ?_⟩
    rcases hinterview.requested iq hiq with ⟨s, hstanzas, hrequest⟩
    have hmem : iq.1 ∈ identities :=
      hinterview.inOrder.subset (List.mem_map_of_mem hiq)
    rw [hstanzas]
    exact PassphraseIdentity.isDue_of_request hrequest (hceiling _ hmem)
  refine ⟨⟨d.decrypting S identities, fun f => ⟨run_decrypting f d identities, hdue f⟩⟩, ?_⟩
  intro f hagree
  have hsame : (d.decrypting S identities).run f = (d.decrypting S identities).run S.stretching := by
    apply Asking.run_congr
    intro q hq
    rcases hdue f with ⟨questions, hinOrder, hasked, hquestions⟩
    rw [← hasked] at hq
    rcases List.mem_map.1 hq with ⟨iq, hiq, rfl⟩
    rcases hquestions iq hiq with ⟨s, salt, -, -, -, -, hpos, hmax, hpassphrase, -⟩
    have hsame := hagree _ (hinOrder.subset (List.mem_map_of_mem hiq)) iq.2.salt _ hpos hmax
    rw [← hpassphrase] at hsame
    exact hsame
  rw [run_decrypting, hsame, run_decrypting_self]

end

/-- A file with nothing but a passphrase stanza of work factor 3. -/
def sampleDecryptor : Decryptor ScriptedSource where
  input := { inner := ScriptedSource.ofBytes [] }
  header :=
    { stanzas :=
        [{ tag := "scrypt"
           args := [Text.ofAscii (Base64.encode (Block.zeros 16).bytes), "3"]
           body := List.replicate 32 1 }]
      mac := Block.zeros 32 }

/-- Two passphrases, with ceilings of 3 and 4. -/
def samplePassphrases : List PassphraseIdentity :=
  [⟨"p", 3⟩, ⟨"q", 4⟩]

/-- The way of the transparent suite, which gives up above a limit. -/
def stretchingUpTo (limit : Nat) : Stretching := fun q =>
  if q.logN ≤ limit then Suite.transparent.stretching q else none

/-- It does not matter what becomes of work factors above both ceilings. -/
theorem decrypt_asks_two_passphrases :
    (sampleDecryptor.decrypt (Suite.transparent.stretchingBy (stretchingUpTo 4))
        (samplePassphrases.map
          (·.identity (Suite.transparent.stretchingBy (stretchingUpTo 4))))).map (·.unstretched) =
      sampleDecryptor.decrypt .transparent (samplePassphrases.map (·.identity .transparent)) := by
  have hceiling : ∀ i ∈ samplePassphrases, i.maxWorkFactor ≤ 4 := by
    decide
  have hbelow : ∀ i ∈ samplePassphrases, i.maxWorkFactor < WorkFactor.saturation :=
    fun i hi => Nat.lt_of_le_of_lt (hceiling i hi) (by decide)
  refine (decrypt_asks sampleDecryptor hbelow).2 (stretchingUpTo 4) ?_
  intro i hi salt logN _ hmax
  exact if_pos (Nat.le_trans hmax (hceiling i hi))

/-- Both passphrases are asked, for what the stanza says. -/
example :
    ((sampleDecryptor.decrypting .transparent samplePassphrases).asked
      fun _ => some (Block.zeros 32)).map (fun q => (q.passphrase, q.logN)) =
        [([112], 3), ([113], 3)] := by
  decide +kernel

end Decryptor
end AgeCrypt
