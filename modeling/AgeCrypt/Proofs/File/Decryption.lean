import AgeCrypt.Base64.Standard
import AgeCrypt.File.Decryptor
import AgeCrypt.Proofs.Header.Reading
import AgeCrypt.Proofs.Payload.Reading
import AgeCrypt.Proofs.Payload.Writing

/-!
# What decryption accepts

A file is decrypted just if it is a header that can be written, a nonce, and a payload that opens
under the key that the identities find (`decryptBytes_eq_ok_iff`).  Since each of these parts has
only one form, so does the file: decryption accepts nothing but what encryption writes
(`decryptBytes_canonical`).
-/

namespace AgeCrypt

open Crypto Payload PayloadReader PayloadWriter ByteSource Buffered

/-! ## The file key -/

section

variable {ι : Type} {unwrap : ι → Except Refusal FileKey} {parties : List ι}

/-- Only a mismatch leads on to the next party. -/
theorem searchFileKey_cons (absent : DecryptError) (i : ι) (rest : List ι) :
    Id.run (searchFileKey unwrap absent (i :: rest)) =
      match unwrap i with
      | .ok found => .ok found
      | .error (.fatal cause) => .error cause
      | .error .mismatch => Id.run (searchFileKey unwrap .noMatch rest) := by
  have hanswer : Id.run (unwrap i) = unwrap i := rfl
  rw [searchFileKey, Id.run_bind, hanswer]
  rcases unwrap i with (_ | cause) | found <;> rfl

/-- What is asked of the parties is asked of their images. -/
theorem searchFileKey_map {κ : Type} (f : κ → ι) (absent : DecryptError) (others : List κ) :
    Id.run (searchFileKey unwrap absent (others.map f)) =
      Id.run (searchFileKey (fun i => unwrap (f i)) absent others) := by
  induction others generalizing absent with
  | nil => rfl
  | cons i others ih => rw [List.map_cons, searchFileKey_cons, searchFileKey_cons, ih]

/-- The search goes on past mismatches only. -/
theorem of_searchFileKey_ok {absent : DecryptError} {key : FileKey}
    (h : Id.run (searchFileKey unwrap absent parties) = .ok key) :
    ∃ before i after, parties = before ++ i :: after ∧
      (∀ j ∈ before, unwrap j = .error .mismatch) ∧ unwrap i = .ok key := by
  induction parties generalizing absent with
  | nil => cases h
  | cons j parties ih =>
      rw [searchFileKey_cons] at h
      split at h
      · rename_i found hj
        cases h
        exact ⟨[], j, parties, rfl, fun k hk => (by cases hk), hj⟩
      · cases h
      · rename_i hj
        rcases ih h with ⟨before, i, after, rfl, hbefore, hi⟩
        exact ⟨j :: before, i, after, rfl, List.forall_mem_cons.2 ⟨hj, hbefore⟩, hi⟩

/-- Parties that find nothing may stand before the one that finds the key, and any behind it. -/
theorem searchFileKey_of_split {before after : List ι} {i : ι} {key : FileKey}
    (hbefore : ∀ j ∈ before, unwrap j = .error .mismatch) (hi : unwrap i = .ok key)
    (absent : DecryptError) :
    Id.run (searchFileKey unwrap absent (before ++ i :: after)) = .ok key := by
  induction before generalizing absent with
  | nil => rw [List.nil_append, searchFileKey_cons, hi]
  | cons j before ih =>
      rw [List.cons_append, searchFileKey_cons, hbefore j (List.mem_cons_self ..)]
      exact ih (fun k hk => hbefore k (List.mem_cons_of_mem _ hk)) _

/-- Where all answer mismatches, nothing is found. -/
theorem searchFileKey_of_mismatch (h : ∀ i ∈ parties, unwrap i = .error .mismatch)
    (absent : DecryptError) :
    Id.run (searchFileKey unwrap absent parties) =
      .error (if parties = [] then absent else .noMatch) := by
  induction parties generalizing absent with
  | nil => rfl
  | cons i parties ih =>
      rw [searchFileKey_cons, h i (List.mem_cons_self ..)]
      dsimp only
      rw [ih fun j hj => h j (List.mem_cons_of_mem _ hj)]
      split <;> rfl

end

/-- The first identity that answers anything but a mismatch decides. -/
theorem findFileKey_eq_ok_iff {identities : List Identity} {stanzas : List Stanza} {key : FileKey} :
    findFileKey identities stanzas = .ok key ↔
      ∃ before i after, identities = before ++ i :: after ∧
        (∀ j ∈ before, j.unwrap stanzas = .error .mismatch) ∧ i.unwrap stanzas = .ok key := by
  constructor
  · exact of_searchFileKey_ok
  · rintro ⟨before, i, after, rfl, hbefore, hi⟩
    exact searchFileKey_of_split hbefore hi _

/-- The first identity that fits decides; others are not asked. -/
theorem findFileKey_of_ok {i : Identity} {stanzas : List Stanza} {key : FileKey}
    (h : i.unwrap stanzas = .ok key) (others : List Identity) :
    findFileKey (i :: others) stanzas = .ok key := by
  rw [findFileKey, searchFileKey_cons, h]

/-- A fatal answer ends the search. -/
theorem findFileKey_of_fatal {i : Identity} {stanzas : List Stanza} {cause : DecryptError}
    (h : i.unwrap stanzas = .error (.fatal cause)) (others : List Identity) :
    findFileKey (i :: others) stanzas = .error cause := by
  rw [findFileKey, searchFileKey_cons, h]

/-- Identities of which each answers a mismatch or one and the same file key find that key, in
whatever order they stand, if one of them answers it. -/
theorem findFileKey_of_answers {identities : List Identity} {stanzas : List Stanza} {key : FileKey}
    (hall : ∀ i ∈ identities, i.unwrap stanzas = .error .mismatch ∨ i.unwrap stanzas = .ok key)
    (hown : ∃ i ∈ identities, i.unwrap stanzas = .ok key) :
    findFileKey identities stanzas = .ok key := by
  -- the first that answers the key has only mismatches before it
  rw [findFileKey_eq_ok_iff]
  induction identities with
  | nil =>
      rcases hown with ⟨i, hi, -⟩
      cases hi
  | cons i identities ih =>
      rcases hall i (List.mem_cons_self ..) with hi | hi
      · have hlater : ∃ j ∈ identities, j.unwrap stanzas = .ok key := by
          rcases hown with ⟨j, hj, hkey⟩
          rcases List.mem_cons.1 hj with rfl | hj
          · cases hi.symm.trans hkey
          · exact ⟨j, hj, hkey⟩
        rcases ih (fun j hj => hall j (List.mem_cons_of_mem _ hj)) hlater with
          ⟨before, j, after, rfl, hbefore, hj⟩
        exact ⟨i :: before, j, after, rfl, List.forall_mem_cons.2 ⟨hi, hbefore⟩, hj⟩
      · exact ⟨[], i, identities, rfl, by simp, hi⟩

/-! ## The header -/

namespace Decryptor

/-- A passphrase stanza stands alone, if there is one. -/
def Alone (stanzas : List Stanza) : Prop :=
  ∀ s ∈ stanzas, s.tag = passphraseTag → stanzas = [s]

/-- Decryption goes on just if a passphrase stanza has no company. -/
theorem alone_iff {σ : Type} {d : Decryptor σ} :
    Alone d.header.stanzas ↔ ¬ (d.isPassphrase = true ∧ d.header.stanzas.length ≠ 1) := by
  have hpassphrase : d.isPassphrase = true ↔ ∃ s ∈ d.header.stanzas, s.tag = passphraseTag := by
    simp [isPassphrase]
  rw [hpassphrase]
  constructor
  · rintro h ⟨⟨s, hs, htag⟩, hlen⟩
    rw [h s hs htag] at hlen
    exact hlen rfl
  · intro h s hs htag
    have hlen : d.header.stanzas.length = 1 := by
      by_cases hlen : d.header.stanzas.length = 1
      · exact hlen
      · exact absurd ⟨⟨s, hs, htag⟩, hlen⟩ h
    rcases List.length_eq_one_iff.1 hlen with ⟨t, ht⟩
    rw [ht] at hs ⊢
    rw [List.mem_singleton.1 hs]

variable {S : Suite} {σ : Type} [ByteSource σ]

variable [Base64]

/-- The code is right if it is the one that the file key gives. -/
theorem verifies_iff {key : FileKey} {header : Header} :
    FileKey.verifies S key header = true ↔ header.mac = FileKey.mac S key header.stanzas := by
  rw [FileKey.verifies, beq_iff_eq, eq_comm]

section

variable {gives : σ → Bytes → Prop} {broken : σ → Prop} {ending : Option IoError}

/-- A header that can be read back is read, and what is behind it is left. -/
theorem start_of_over (G : Giving gives broken ending) {input : Buffered σ} {header : Header}
    {more : Bytes} (hreadable : ∀ s ∈ header.stanzas, s.Readable)
    (h : input.Over gives (header.encode ++ more)) :
    ∃ d, start input = .ok d ∧ d.header = header ∧ d.input.Over gives more := by
  rcases Header.read_of_over G hreadable h with ⟨t, ht, hmore⟩
  exact ⟨{ input := t, header }, by simp only [start, ht], rfl, hmore⟩

/-- Whatever header is read stood in front, and could be read back. -/
theorem of_start_over (G : Giving gives broken ending) {input : Buffered σ} {data : Bytes}
    {d : Decryptor σ} (h : input.Over gives data) (hd : start input = .ok d) :
    (∀ s ∈ d.header.stanzas, s.Readable) ∧
      ∃ more, data = d.header.encode ++ more ∧ d.input.Over gives more := by
  unfold start at hd
  split at hd
  · rename_i header t hread
    cases hd
    exact Header.of_read_over G h hread
  · cases hd

/-- A passphrase stanza that has company is refused before any identity is asked. -/
theorem decrypt_of_not_alone {d : Decryptor σ} (h : ¬ Alone d.header.stanzas)
    (identities : List Identity) : d.decrypt S identities = .error .passphraseNotAlone := by
  rw [decrypt_eq, if_pos (Decidable.not_not.1 fun hnot => h (alone_iff.2 hnot))]

theorem decrypt_of_alone {d : Decryptor σ} (h : Alone d.header.stanzas)
    (identities : List Identity) :
    d.decrypt S identities = d.proceed S (findFileKey identities d.header.stanzas) := by
  rw [decrypt_eq, if_neg (alone_iff.1 h)]

/-- With the right key, code and nonce the payload is at hand. -/
theorem decrypt_of_over (G : Giving gives broken ending) {d : Decryptor σ}
    {identities : List Identity} {key : FileKey} {nonce : Block payloadNonceSize} {payload : Bytes}
    (halone : Alone d.header.stanzas) (hkey : findFileKey identities d.header.stanzas = .ok key)
    (hmac : d.header.mac = FileKey.mac S key d.header.stanzas)
    (h : d.input.Over gives (nonce.bytes ++ payload)) :
    ∃ source : Buffered σ, d.decrypt S identities =
        .ok (.start S (FileKey.payloadKey S key nonce.bytes) source) ∧
      source.Over gives payload := by
  rcases (giving_over G).readExact h with ⟨source, hread, hpayload⟩
  refine ⟨source, ?_, hpayload⟩
  have hverifies : FileKey.verifies S key d.header = true := verifies_iff.2 hmac
  rw [decrypt_of_alone halone, hkey]
  simp only [proceed, hverifies, hread, not_true_eq_false, if_false]

/-- A file key that leads to a plaintext has made the code of the header. -/
theorem of_proceed_over (G : Giving gives broken ending) {d : Decryptor σ} {key : FileKey}
    {more : Bytes} {r : PayloadReader S (Buffered σ)} (h : d.input.Over gives more)
    (hr : d.proceed S (.ok key) = .ok r) :
    ∃ (nonce : Block payloadNonceSize) (payload : Bytes) (source : Buffered σ),
      d.header.mac = FileKey.mac S key d.header.stanzas ∧ more = nonce.bytes ++ payload ∧
        r = .start S (FileKey.payloadKey S key nonce.bytes) source ∧ source.Over gives payload := by
  unfold proceed at hr
  dsimp only at hr
  split at hr
  · cases hr
  · rename_i hverifies
    split at hr
    · cases hr
    · rename_i nonce source hread
      cases hr
      rcases (giving_over G).of_readExact_ok h hread with ⟨payload, hsplit, hpayload⟩
      exact ⟨nonce, payload, source, verifies_iff.1 (Decidable.not_not.1 hverifies), hsplit, rfl,
        hpayload⟩

/-- Whoever gets to the payload has found a key whose code is that of the header. -/
theorem of_decrypt_over (G : Giving gives broken ending) {d : Decryptor σ}
    {identities : List Identity} {more : Bytes} {r : PayloadReader S (Buffered σ)}
    (h : d.input.Over gives more) (hr : d.decrypt S identities = .ok r) :
    ∃ (key : FileKey) (nonce : Block payloadNonceSize) (payload : Bytes) (source : Buffered σ),
      Alone d.header.stanzas ∧ findFileKey identities d.header.stanzas = .ok key ∧
        d.header.mac = FileKey.mac S key d.header.stanzas ∧ more = nonce.bytes ++ payload ∧
        r = .start S (FileKey.payloadKey S key nonce.bytes) source ∧ source.Over gives payload := by
  have halone : Alone d.header.stanzas := by
    by_cases halone : Alone d.header.stanzas
    · exact halone
    · cases (decrypt_of_not_alone halone identities).symm.trans hr
  rw [decrypt_of_alone halone] at hr
  cases hkey : findFileKey identities d.header.stanzas with
  | error cause =>
      rw [hkey] at hr
      cases hr
  | ok key =>
      rw [hkey] at hr
      rcases of_proceed_over G h hr with ⟨nonce, payload, source, hrest⟩
      exact ⟨key, nonce, payload, source, halone, rfl, hrest⟩

end

theorem start_of_holds {input : Buffered σ} {header : Header} {more : Bytes}
    (hreadable : ∀ s ∈ header.stanzas, s.Readable) (h : input.Holds (header.encode ++ more)) :
    ∃ d, start input = .ok d ∧ d.header = header ∧ d.input.Holds more :=
  start_of_over (Delivers.giving none) hreadable h.toOver

end Decryptor

/-! ## The file -/

theorem holds_file (file : Bytes) :
    ({ inner := ScriptedSource.ofBytes file } : Buffered ScriptedSource).Holds file :=
  .of_delivers (ScriptedSource.delivers_ofBytes file)

/-- A file and the parts it is made of: a header, a nonce, and a sealed payload. -/
structure Parts [Base64] (S : Suite) (file : Bytes) (stanzas : List Stanza) (key : FileKey)
    (nonce : Block payloadNonceSize) (payload : Bytes) : Prop where
  -- The parts stand one after another, and the code of the header is right.
  file_eq : file = Header.encode ⟨stanzas, FileKey.mac S key stanzas⟩ ++ nonce.bytes ++ payload
  -- The stanzas can be written and read back.
  readable : ∀ s ∈ stanzas, s.Readable
  alone : Decryptor.Alone stanzas

section

variable [Base64] {S : Suite} {identities : List Identity} {file plaintext : Bytes}

/-- What was opened with identities is made of its parts: they find the file key, and what was given
behind the nonce is the payload. -/
theorem Decryptor.parts_of_decrypt {σ : Type} [ByteSource σ] {gives : σ → Bytes → Prop}
    {broken : σ → Prop} {ending : Option IoError} (G : Giving gives broken ending)
    {input : Buffered σ} (h : input.Over gives file) {d : Decryptor σ} (hd : start input = .ok d)
    {r : PayloadReader S (Buffered σ)} (hr : d.decrypt S identities = .ok r) :
    ∃ key nonce payload source, Parts S file d.header.stanzas key nonce payload ∧
      findFileKey identities d.header.stanzas = .ok key ∧
      r = .start S (FileKey.payloadKey S key nonce.bytes) source ∧ source.Over gives payload := by
  rcases of_start_over G h hd with ⟨hreadable, more, hmore, hrest⟩
  rcases of_decrypt_over G hrest hr with
    ⟨key, nonce, payload, source, halone, hkey, hmac, rfl, hstart, hpayload⟩
  refine ⟨key, nonce, payload, source, ⟨?_, hreadable, halone⟩, hkey, hstart, hpayload⟩
  rw [hmore, ← hmac, List.append_assoc]

/-- A file that opens has all its parts, and an identity finds its key. -/
theorem of_decryptBytes_ok (h : decryptBytes S identities file = .ok plaintext) :
    ∃ stanzas key nonce payload, Parts S file stanzas key nonce payload ∧
      findFileKey identities stanzas = .ok key ∧
      openAll S (FileKey.payloadKey S key nonce.bytes) payload = (plaintext, none) := by
  unfold decryptBytes at h
  cases hd : Decryptor.start ({ inner := ScriptedSource.ofBytes file } : Buffered _) with
  | error e =>
      rw [hd] at h
      cases h
  | ok d =>
      rw [hd] at h
      cases hr : d.decrypt S identities with
      | error e =>
          simp only [bind, Except.bind, hr] at h
          cases h
      | ok r =>
          simp only [bind, Except.bind, hr] at h
          rcases Decryptor.parts_of_decrypt (Delivers.giving none) (holds_file file).toOver hd hr with
            ⟨key, nonce, payload, source, hparts, hkey, rfl, hpayload⟩
          have hdelivers : Delivers source payload := Holds.delivers hpayload
          refine ⟨d.header.stanzas, key, nonce, payload, hparts, hkey, ?_⟩
          refine (readToEnd_start_iff hdelivers).1 ?_
          split at h
          · rename_i plaintext' r' hread
            cases h
            exact ⟨r', hread⟩
          · cases h
          · cases h

/-- A source that gives a file is opened: its header is read, and identities that find the file key
get a reader of the payload. -/
theorem Decryptor.starts_of_parts {σ : Type} [ByteSource σ] {gives : σ → Bytes → Prop}
    {broken : σ → Prop} {ending : Option IoError} (G : Giving gives broken ending)
    {input : Buffered σ} {stanzas : List Stanza} {key : FileKey} {nonce : Block payloadNonceSize}
    {payload : Bytes} (hparts : Parts S file stanzas key nonce payload) (h : input.Over gives file) :
    ∃ d, start input = .ok d ∧ d.header.stanzas = stanzas ∧
      ∀ identities, findFileKey identities stanzas = .ok key →
        ∃ source, d.decrypt S identities =
            .ok (.start S (FileKey.payloadKey S key nonce.bytes) source) ∧
          source.Over gives payload := by
  rw [hparts.file_eq, List.append_assoc] at h
  -- each stage takes its part off the front and leaves the next one in front
  rcases start_of_over G hparts.readable h with ⟨d, hd, hheader, hmore⟩
  have hstanzas : d.header.stanzas = stanzas := congrArg Header.stanzas hheader
  have hmac : d.header.mac = FileKey.mac S key d.header.stanzas := by
    rw [hheader]
  refine ⟨d, hd, hstanzas, ?_⟩
  intro identities hkey
  exact decrypt_of_over G (hstanzas ▸ hparts.alone) (hstanzas ▸ hkey) hmac hmore

/-- If it delivers the file and the payload opens, they get a source of the plaintext. -/
theorem Decryptor.opens_of_parts {σ : Type} [ByteSource σ] {input : Buffered σ}
    {stanzas : List Stanza} {key : FileKey} {nonce : Block payloadNonceSize} {payload : Bytes}
    (hparts : Parts S file stanzas key nonce payload)
    (hopen : openAll S (FileKey.payloadKey S key nonce.bytes) payload = (plaintext, none))
    (h : input.Holds file) :
    ∃ d, start input = .ok d ∧ d.header.stanzas = stanzas ∧
      ∀ identities, findFileKey identities stanzas = .ok key →
        ∃ r, d.decrypt S identities = .ok r ∧ Delivers r plaintext := by
  rcases starts_of_parts (Delivers.giving none) hparts h.toOver with ⟨d, hd, hstanzas, hdecrypts⟩
  refine ⟨d, hd, hstanzas, ?_⟩
  intro identities hkey
  rcases hdecrypts identities hkey with ⟨source, hr, hpayload⟩
  have hplaintext := PayloadReader.delivers_start (S := S) (Holds.delivers hpayload)
    (FileKey.payloadKey S key nonce.bytes)
  rw [hopen] at hplaintext
  exact ⟨_, hr, hplaintext⟩

/-- A file with all its parts opens, if an identity finds its key and the payload opens under it. -/
theorem decryptBytes_of_parts {stanzas : List Stanza} {key : FileKey}
    {nonce : Block payloadNonceSize} {payload : Bytes}
    (hparts : Parts S file stanzas key nonce payload)
    (hkey : findFileKey identities stanzas = .ok key)
    (hopen : openAll S (FileKey.payloadKey S key nonce.bytes) payload = (plaintext, none)) :
    decryptBytes S identities file = .ok plaintext := by
  rcases Decryptor.opens_of_parts hparts hopen (holds_file file) with ⟨d, hd, -, hdecrypts⟩
  rcases hdecrypts identities hkey with ⟨r, hr, hplaintext⟩
  rcases readToEnd_of_delivers hplaintext with ⟨t, hread⟩
  simp only [decryptBytes, hd, hr, bind, Except.bind, hread, gathered]

/-- Where the identities find no file key in a header that can be read, their answer is that of the
whole file. -/
theorem decryptBytes_of_findFileKey_error {header : Header} {more : Bytes} {cause : DecryptError}
    (hreadable : ∀ s ∈ header.stanzas, s.Readable) (halone : Decryptor.Alone header.stanzas)
    (hsearch : findFileKey identities header.stanzas = .error cause) :
    decryptBytes S identities (header.encode ++ more) = .error cause := by
  rcases Decryptor.start_of_holds hreadable (holds_file (header.encode ++ more)) with
    ⟨d, hd, hheader, -⟩
  have hrefused : d.decrypt S identities = .error cause := by
    rw [← hheader] at halone hsearch
    rw [Decryptor.decrypt_of_alone halone, hsearch]
    rfl
  simp only [decryptBytes, hd, hrefused, bind, Except.bind]

/-- A file decrypts just if it is made of its parts and the payload opens under the key that the
identities find. -/
theorem decryptBytes_eq_ok_iff :
    decryptBytes S identities file = .ok plaintext ↔
      ∃ stanzas key nonce payload, Parts S file stanzas key nonce payload ∧
        findFileKey identities stanzas = .ok key ∧
        openAll S (FileKey.payloadKey S key nonce.bytes) payload = (plaintext, none) := by
  constructor
  · exact of_decryptBytes_ok
  · rintro ⟨stanzas, key, nonce, payload, hparts, hkey, hopen⟩
    exact decryptBytes_of_parts hparts hkey hopen

end

/-- Decryption accepts only what encryption writes.  If a file decrypts to `plaintext`, it is a
header whose stanzas can be written and whose code is right, a nonce, and what a payload writer
leaves for the plaintext; and the file key is that of the first identity that did not answer a
mismatch. -/
theorem decryptBytes_canonical [Base64] {S : Suite} (hseal : S.SealsOpened)
    {identities : List Identity} {file plaintext : Bytes} (h : decryptBytes S identities file = .ok plaintext) :
    ∃ (stanzas : List Stanza) (key : FileKey) (nonce : Block payloadNonceSize) (payload : Bytes),
      file = Header.encode ⟨stanzas, FileKey.mac S key stanzas⟩ ++ nonce.bytes ++ payload ∧
        (∀ pieces, pieces.flatten = plaintext →
          Leaves S (FileKey.payloadKey S key nonce.bytes) pieces payload) ∧
        (∀ s ∈ stanzas, s.validate = .ok ()) ∧
        (∀ s ∈ stanzas, s.tag = passphraseTag → stanzas = [s]) ∧
        ∃ before i after, identities = before ++ i :: after ∧
          (∀ j ∈ before, j.unwrap stanzas = .error .mismatch) ∧ i.unwrap stanzas = .ok key := by
  rcases decryptBytes_eq_ok_iff.1 h with ⟨stanzas, key, nonce, payload, hparts, hkey, hopen⟩
  refine ⟨stanzas, key, nonce, payload, hparts.file_eq, ?_, ?_, hparts.alone,
    findFileKey_eq_ok_iff.1 hkey⟩
  · intro pieces hpieces
    rcases sealFrom_of_openFrom (hseal _) hopen with ⟨hsealed, -, -⟩
    rw [leaves_iff, hpieces]
    exact hsealed.symm
  · intro s hs
    exact Stanza.validate_eq_ok_iff.2 (hparts.readable s hs).named

/-- One stanza whose body fills its line. -/
def sampleStanzas : List Stanza :=
  [{ tag := "sample", args := ["a"], body := List.replicate 48 5 }]

def samplePayloadKey : Block 32 :=
  FileKey.payloadKey .standard (Block.zeros 16) (Block.zeros payloadNonceSize).bytes

/-- A file of one stanza and three bytes, under a key of zeros. -/
def sampleFile : Bytes :=
  Header.encode ⟨sampleStanzas, FileKey.mac .standard (Block.zeros 16) sampleStanzas⟩
    ++ (Block.zeros payloadNonceSize).bytes ++ sealAll .standard samplePayloadKey [1, 2, 3]

/-- Two identities, the first of which is not meant. -/
theorem decryptBytes_canonical_two_identities :
    ∃ (stanzas : List Stanza) (key : FileKey) (nonce : Block payloadNonceSize) (payload : Bytes),
      sampleFile = Header.encode ⟨stanzas, FileKey.mac .standard key stanzas⟩ ++ nonce.bytes
        ++ payload ∧
      Leaves .standard (FileKey.payloadKey .standard key nonce.bytes) [[1], [2, 3]] payload := by
  have hparts : Parts .standard sampleFile sampleStanzas (Block.zeros 16) (Block.zeros _)
      (sealAll .standard samplePayloadKey [1, 2, 3]) := by
    refine ⟨rfl, ?_, ?_⟩
    · intro s hs
      cases List.mem_singleton.1 hs
      exact ⟨by decide, by decide⟩
    · intro s hs _
      rw [List.mem_singleton.1 hs]
      rfl
  have hopen : openAll .standard samplePayloadKey
      (sealAll .standard samplePayloadKey [1, 2, 3]) = ([1, 2, 3], none) := by
    refine openAll_sealAll Suite.standard_opensSealed ?_
    intro n hn
    simp only [List.length_cons, List.length_nil, chunkSize] at hn
    omega
  have hdecrypts : decryptBytes .standard
      [.byStanza fun _ => .error .mismatch, .byStanza fun _ => .ok (Block.zeros 16)] sampleFile =
        .ok [1, 2, 3] :=
    decryptBytes_eq_ok_iff.2 ⟨_, _, _, _, hparts, rfl, hopen⟩
  rcases decryptBytes_canonical Suite.standard_sealsOpened hdecrypts with
    ⟨stanzas, key, nonce, payload, hfile, hleaves, -⟩
  exact ⟨stanzas, key, nonce, payload, hfile, hleaves _ rfl⟩

end AgeCrypt
