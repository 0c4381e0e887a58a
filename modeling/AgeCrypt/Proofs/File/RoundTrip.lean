import AgeCrypt.Base64.Standard
import AgeCrypt.Proofs.File.Decryption
import AgeCrypt.Proofs.File.Encryption

/-!
# Decryption undoes encryption

Whoever a file was written to reads back what was written (`decryptBytes_writeFile`).  The parts of
the argument are elsewhere: what a run leaves (`of_writeFile_ok`), what an identity finds in the
stanzas (`Proofs.Keys.Wrapping`), and what a file must be made of (`decryptBytes_eq_ok_iff`).  Here
they meet.
-/

namespace AgeCrypt

open Crypto Payload Encryptor

variable {S : Suite} {e : Encryptor} {key : FileKey} {tape tape' : Tape}

section

variable [Base64]

/-- The file of a header has its parts. -/
theorem parts_of_header {header : Header} (hheader : e.header S key tape = .ok (header, tape'))
    (hlen : ∀ s ∈ header.stanzas, s.openingLine.length ≤ maxLineLength)
    (halone : Decryptor.Alone header.stanzas) (plaintext : Bytes) :
    Parts S (header.encode ++ (tape'.draw payloadNonceSize).1.bytes ++
        sealAll S (payloadKeyAt S key tape') plaintext)
      header.stanzas key (tape'.draw payloadNonceSize).1
      (sealAll S (payloadKeyAt S key tape') plaintext) := by
  rcases header_eq_ok_iff.1 hheader with ⟨-, hnamed, hmac⟩
  refine ⟨?_, fun s hs => ⟨hnamed s hs, hlen s hs⟩, halone⟩
  rw [← hmac]

/-- The file of a header decrypts for identities that find the file key in it. -/
theorem decryptBytes_of_found (hopen : S.OpensSealed) {header : Header} {plaintext : Bytes}
    {identities : List Identity} (hheader : e.header S key tape = .ok (header, tape'))
    (hlen : ∀ s ∈ header.stanzas, s.openingLine.length ≤ maxLineLength)
    (halone : Decryptor.Alone header.stanzas)
    (hkey : findFileKey identities header.stanzas = .ok key)
    (hlast : LastChunkApart S (payloadKeyAt S key tape') 0 plaintext) :
    decryptBytes S identities (header.encode ++ (tape'.draw payloadNonceSize).1.bytes ++
      sealAll S (payloadKeyAt S key tape') plaintext) = .ok plaintext :=
  decryptBytes_eq_ok_iff.2 ⟨_, _, _, _, parts_of_header hheader hlen halone plaintext, hkey,
    openAll_sealAll hopen hlast⟩

/-- The file of a header decrypts for an identity that finds the file key in it. -/
theorem decryptBytes_of_header (hopen : S.OpensSealed) {header : Header} {plaintext : Bytes}
    {i : Identity} (hheader : e.header S key tape = .ok (header, tape'))
    (hlen : ∀ s ∈ header.stanzas, s.openingLine.length ≤ maxLineLength)
    (halone : Decryptor.Alone header.stanzas) (hkey : i.unwrap header.stanzas = .ok key)
    (hlast : LastChunkApart S (payloadKeyAt S key tape') 0 plaintext) :
    decryptBytes S [i] (header.encode ++ (tape'.draw payloadNonceSize).1.bytes ++
      sealAll S (payloadKeyAt S key tape') plaintext) = .ok plaintext := by
  refine decryptBytes_of_found hopen hheader hlen halone ?_ hlast
  exact findFileKey_of_ok hkey []

/-! ## Key pairs -/

section KeyPairs

variable {ks : List PublicKey} {stanzas : List Stanza}

/-- Stanzas for public keys are no passphrase stanzas, and their lines are short. -/
theorem alone_of_keyPairs (h : wrapAll (ks.map (·.recipient S)) key tape = .ok (stanzas, tape')) :
    Decryptor.Alone stanzas ∧ ∀ s ∈ stanzas, s.openingLine.length ≤ maxLineLength := by
  rcases of_wrapAll_keyPairs h with ⟨rfl, -⟩
  refine ⟨?_, ?_⟩
  · intro s hs htag
    rcases List.mem_mapIdx.1 hs with ⟨i, hi, rfl⟩
    have htags : keyPairTag ≠ passphraseTag := by
      decide
    exact absurd htag htags
  · intro s hs
    rcases List.mem_mapIdx.1 hs with ⟨i, hi, rfl⟩
    exact PublicKey.length_openingLine_stanzaFrom_le _ _ _

section

variable {k : SecretKey} {keys : List PublicKey} (hopen : S.OpensSealed)
  (hagree : S.AgreementCommutes)
  (h : wrapAll (ks.map (·.recipient S)) key tape = .ok (stanzas, tape')) (hks : ks ⊆ keys)
  (hapart : ∀ i < ks.length,
    S.KeepsApart (keys.map (·.wrappingFrom S (freshSecret tape i))) key.bytes)
include hopen hagree h hks hapart

/-- Whoever it was made for, no stanza of a run holds another file key than the one of the run. -/
theorem unwrapStanza_of_keyPairs (hk : k.publicKey S ∈ keys) :
    ∀ s ∈ stanzas, k.unwrapStanza S s = .error .mismatch ∨ k.unwrapStanza S s = .ok key := by
  rcases of_wrapAll_keyPairs h with ⟨rfl, -⟩
  intro s hs
  rcases List.mem_mapIdx.1 hs with ⟨i, hi, rfl⟩
  refine SecretKey.unwrapStanza_other (hagree _ _) hopen fun hne => ?_
  exact hapart i hi _ (List.mem_map_of_mem (hks (List.getElem_mem hi))) _
    (List.mem_map_of_mem hk) hne

/-- The secret key of a recipient finds the file key or a mismatch. -/
theorem unwrap_of_keyPairs_mismatch_or_ok (hk : k.publicKey S ∈ keys) :
    (k.identity S).unwrap stanzas = .error .mismatch ∨ (k.identity S).unwrap stanzas = .ok key :=
  Identity.unwrap_mismatch_or_ok (unwrapStanza_of_keyPairs hopen hagree h hks hapart hk)

/-- A key pair finds the file key among the stanzas of a run that wrote to its public key, whatever
stands before its own stanza. -/
theorem unwrap_of_keyPairs (hk : k.publicKey S ∈ ks) :
    (k.identity S).unwrap stanzas = .ok key := by
  have hall := unwrapStanza_of_keyPairs hopen hagree h hks hapart (hks hk)
  rcases of_wrapAll_keyPairs h with ⟨rfl, hshared⟩
  refine Identity.unwrap_of_answers hall ?_
  rcases List.getElem_of_mem hk with ⟨i, hi, hki⟩
  refine ⟨_, List.mem_mapIdx.2 ⟨i, hi, rfl⟩, ?_⟩
  rw [hki]
  refine SecretKey.unwrapStanza_own (hagree _ _) hopen ?_
  exact hshared i _ (List.getElem?_eq_some_iff.2 ⟨hi, hki⟩)

end

/-- The file of one public key has its parts, and its secret key finds the file key. -/
theorem exists_parts_of_recipient (hopen : S.OpensSealed) (hagree : S.AgreementCommutes)
    {k : SecretKey} (hrecipients : e.recipients = [k.publicKey S].map (·.recipient S))
    {plaintext file : Bytes} (hfile : e.file S tape plaintext = .ok file)
    (hlast : ∀ w, e.start S ({} : ScriptedSink) tape = .ok w → LastChunkApart S w.key 0 plaintext) :
    ∃ stanzas key nonce payload, Parts S file stanzas key nonce payload ∧
      openAll S (FileKey.payloadKey S key nonce.bytes) payload = (plaintext, none) ∧
      (∀ s ∈ stanzas, s.tag ≠ passphraseTag) ∧
      findFileKey [k.identity S] stanzas = .ok key := by
  rcases file_eq_ok_iff.1 hfile with ⟨header, tape', hheader, rfl⟩
  rcases start_of_header ScriptedSink.unfailing_empty hheader with ⟨u, hstart, -, -⟩
  have hwrapped := (header_eq_ok_iff.1 hheader).1
  rw [hrecipients] at hwrapped
  rcases alone_of_keyPairs hwrapped with ⟨halone, hlen⟩
  have hfound : (k.identity S).unwrap header.stanzas = .ok (FileKey.generate tape).1 := by
    refine unwrap_of_keyPairs hopen hagree hwrapped (List.Subset.refl _) ?_
      (List.mem_singleton_self _)
    -- there is nobody else from whom its key would have to be told
    intro i hi a ha b hb hne
    rw [List.map_singleton, List.mem_singleton] at ha hb
    exact absurd (ha.trans hb.symm) hne
  refine ⟨_, _, _, _, parts_of_header hheader hlen halone plaintext,
    openAll_sealAll hopen (hlast _ hstart), ?_, ?_⟩
  · intro s hs
    rw [(of_wrapAll_keyPairs hwrapped).1] at hs
    rcases List.mem_mapIdx.1 hs with ⟨i, hi, rfl⟩
    have htags : keyPairTag ≠ passphraseTag := by
      decide
    exact htags
  · exact findFileKey_of_ok hfound []

end KeyPairs

/-! ## Passphrases -/

/-- A passphrase leaves one stanza, with the salt that was drawn. -/
theorem of_wrapAll_passphrase {r : PassphraseRecipient} {stanzas : List Stanza}
    (h : wrapAll [r.recipient S] key tape = .ok (stanzas, tape')) :
    ∃ salt wrapping, passphraseWrapping S r.passphrase salt r.workFactor = some wrapping ∧
      stanzas = [r.stanzaFrom S key salt wrapping] := by
  simp only [wrapAll, PassphraseRecipient.recipient, bind, Except.bind] at h
  split at h
  · cases h
  · rename_i first hfirst
    cases h
    rcases PassphraseRecipient.of_wrap_ok hfirst with ⟨salt, wrapping, hwrapping, hstanza⟩
    exact ⟨salt, wrapping, hwrapping, by rw [hstanza, List.append_nil]⟩

/-! ## A whole run -/

/-- Whoever a file was written to reads back what was written, however the plaintext was cut into
writes and whatever the tape held.

* For key pairs, any list of public keys and any secret key of one of them.  The stanzas tried
  before the right one must not open: nothing wrapped in the run opens under the key that another
  of the recipients would have got in its place.
* For a passphrase, any work factor that is written and any identity that follows it.

Beside that, a full last chunk must not pass for one that others follow. -/
theorem decryptBytes_writeFile (hopen : S.OpensSealed) (hagree : S.AgreementCommutes)
    {pieces : List Bytes} {t : ScriptedSink}
    (hwritten : e.writeFile S ({} : ScriptedSink) tape pieces = (.ok (), t))
    (hlast : ∀ w, e.start S ({} : ScriptedSink) tape = .ok w →
      LastChunkApart S w.key 0 pieces.flatten) :
    (∀ ks : List PublicKey, Encryptor.ofRecipients (ks.map (·.recipient S)) = .ok e →
      (∀ i < ks.length,
        S.KeepsApart (ks.map (·.wrappingFrom S (freshSecret (FileKey.generate tape).2 i)))
          (FileKey.generate tape).1.bytes) →
      ∀ k : SecretKey, k.publicKey S ∈ ks →
        decryptBytes S [k.identity S] t.contents.toList = .ok pieces.flatten) ∧
    (∀ r : PassphraseRecipient, Encryptor.ofRecipients [r.recipient S] = .ok e →
      WorkFactor.isWritten r.workFactor = true →
      ∀ i : PassphraseIdentity, i.passphrase = r.passphrase → r.workFactor ≤ i.maxWorkFactor →
        decryptBytes S [i.identity S] t.contents.toList = .ok pieces.flatten) := by
  -- the run left the file of a header; whoever finds the file key in that header can read it
  rcases of_writeFile_ok hwritten with ⟨header, tape', hheader, hcontents⟩
  rcases start_of_header ScriptedSink.unfailing_empty hheader with ⟨u, hstart, -, -⟩
  have hapart := hlast _ hstart
  have hwrapped := (header_eq_ok_iff.1 hheader).1
  rw [hcontents]
  refine ⟨?_, ?_⟩
  · intro ks hks hkeys k hk
    rw [of_ofRecipients_ok hks] at hwrapped
    rcases alone_of_keyPairs hwrapped with ⟨halone, hlen⟩
    exact decryptBytes_of_header hopen hheader hlen halone
      (unwrap_of_keyPairs hopen hagree hwrapped (List.Subset.refl _) hkeys hk) hapart
  · intro r hr hfactor i hpassphrase hmax
    rw [of_ofRecipients_ok hr] at hwrapped
    rcases of_wrapAll_passphrase hwrapped with ⟨salt, wrapping, hwrapping, hstanzas⟩
    refine decryptBytes_of_header hopen hheader ?_ ?_ ?_ hapart
    · intro s hs
      rw [hstanzas] at hs
      rw [List.mem_singleton.1 hs]
      exact PassphraseRecipient.length_openingLine_stanzaFrom_le hfactor _ _ _
    · rw [hstanzas]
      intro s hs _
      rw [List.mem_singleton.1 hs]
    · rw [hstanzas]
      exact (Identity.byStanza_unwrap_singleton _).trans
        (PassphraseIdentity.unwrapStanza_own hopen hfactor hpassphrase hmax hwrapping)

end

/-- Two public keys of the transparent suite: zero, and one that begins otherwise. -/
def samplePublicKeys : List PublicKey :=
  [⟨Block.zeros 32⟩, ⟨Block.pad 32 [2]⟩]

def sampleTape : Tape :=
  Tape.cycle [1]

/-- A run that writes to these public keys goes through. -/
theorem exists_writeFile_samplePublicKeys (pieces : List Bytes) :
    ∃ t, Encryptor.writeFile .transparent ⟨samplePublicKeys.map (·.recipient .transparent)⟩
      ({} : ScriptedSink) sampleTape pieces = (.ok (), t) := by
  have hshared : ∀ i k, samplePublicKeys[i]? = some k →
      Suite.transparent.agree (freshSecret (FileKey.generate sampleTape).2 i) k.point ≠
        Block.zeros 32 := by
    intro i k hk
    match i with
    | 0 =>
        cases hk
        decide
    | 1 =>
        cases hk
        decide
    | i + 2 => cases hk
  rcases exists_header_keyPairs (FileKey.generate sampleTape).1 hshared with
    ⟨header, tape', hheader⟩
  rcases writeFile_of_header (S := .transparent) ScriptedSink.unfailing_empty hheader pieces with
    ⟨t, ht, -⟩
  exact ⟨t, ht⟩

/-- A run that writes to two public keys and is read by the second, past a stanza for the first, and
a run that writes to a passphrase. -/
theorem decryptBytes_writeFile_two_runs :
    (∃ t, Encryptor.writeFile .transparent ⟨samplePublicKeys.map (·.recipient .transparent)⟩
        ({} : ScriptedSink) sampleTape [[1], [2, 3]] = (.ok (), t) ∧
      decryptBytes .transparent [(⟨Block.pad 32 [2]⟩ : SecretKey).identity .transparent]
        t.contents.toList = .ok [1, 2, 3]) ∧
    (∃ t, Encryptor.writeFile .transparent
        ⟨[(⟨"p", 2⟩ : PassphraseRecipient).recipient .transparent]⟩
        ({} : ScriptedSink) sampleTape [[1], [2, 3]] = (.ok (), t) ∧
      decryptBytes .transparent [(⟨"p", 22⟩ : PassphraseIdentity).identity .transparent]
        t.contents.toList = .ok [1, 2, 3]) := by
  refine ⟨?_, ?_⟩
  · rcases exists_writeFile_samplePublicKeys [[1], [2, 3]] with ⟨t, ht⟩
    have hruns := decryptBytes_writeFile Suite.transparent_opensSealed
      Suite.transparent_agreementCommutes ht fun w _ => transparent_lastChunkApart _ _ _
    refine ⟨t, ht, hruns.1 samplePublicKeys rfl ?_ ⟨Block.pad 32 [2]⟩ (by decide)⟩
    intro i hi
    apply Suite.transparent_keepsApart
    match i, hi with
    | 0, _ => decide
    | 1, _ => decide
  · rcases exists_header_passphrase (S := .transparent) (r := ⟨"p", 2⟩)
      (FileKey.generate sampleTape).1 rfl with ⟨header, tape', hheader⟩
    rcases writeFile_of_header (S := .transparent) ScriptedSink.unfailing_empty hheader
      [[1], [2, 3]] with ⟨t, ht, -⟩
    have hruns := decryptBytes_writeFile Suite.transparent_opensSealed
      Suite.transparent_agreementCommutes ht fun w _ => transparent_lastChunkApart _ _ _
    exact ⟨t, ht, hruns.2 ⟨"p", 2⟩ rfl (by decide) ⟨"p", 22⟩ rfl (by decide)⟩

end AgeCrypt
