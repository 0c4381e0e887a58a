import AgeCrypt.Proofs.File.RoundTrip

/-!
# Which identities decrypt

A file that was written to public keys is tried by a list of key pairs, one after another, each on
one stanza after another.  Both searches stop at the first answer that is no mismatch, so in general
the order matters.  For key pairs it does not: none of them answers anything fatal
(`SecretKey.unwrapStanza_mismatch_or_ok`), each finds the file key of the run or a mismatch
(`unwrap_of_keyPairs_mismatch_or_ok`), and one that was written to finds the file key.  What comes
of a list is decided by who is in it (`decryptBytes_of_keyPairs`).

That a key pair finds nothing where it was not written to is another matter: it would find the file
key if its wrapping key were that of somebody who was.  Wrapping keys are derived from different
inputs, and the derivation has to keep those apart.
-/

namespace AgeCrypt

open Crypto Payload Encryptor

variable {S : Suite} {e : Encryptor} {key : FileKey} {tape tape' : Tape}

section

variable [Base64] {ks keys : List PublicKey} {stanzas : List Stanza} {is : List SecretKey}

/-- Key pairs of which one was written to find the file key. -/
theorem findFileKey_of_keyPairs (hopen : S.OpensSealed) (hagree : S.AgreementCommutes)
    (h : wrapAll (ks.map (·.recipient S)) key tape = .ok (stanzas, tape')) (hks : ks ⊆ keys)
    (hapart : ∀ i < ks.length,
      S.KeepsApart (keys.map (·.wrappingFrom S (freshSecret tape i))) key.bytes)
    (his : ∀ k ∈ is, k.publicKey S ∈ keys) (hmatch : ∃ k ∈ is, k.publicKey S ∈ ks) :
    findFileKey (is.map (·.identity S)) stanzas = .ok key := by
  rcases hmatch with ⟨k, hk, hin⟩
  refine findFileKey_of_answers ?_ ⟨_, List.mem_map_of_mem hk,
    unwrap_of_keyPairs hopen hagree h hks hapart hin⟩
  intro i hi
  rcases List.mem_map.1 hi with ⟨l, hl, rfl⟩
  exact unwrap_of_keyPairs_mismatch_or_ok hopen hagree h hks hapart (his l hl)

/-- A key pair that was not written to finds a mismatch, if the wrapping keys of those that were are
kept apart from its own. -/
theorem unwrap_of_keyPairs_apart (hagree : S.AgreementCommutes)
    (h : wrapAll (ks.map (·.recipient S)) key tape = .ok (stanzas, tape')) (hks : ks ⊆ keys)
    (hapart : ∀ i < ks.length, PublicKey.KeptApart S keys (freshSecret tape i) key.bytes)
    {k : SecretKey} (hknown : k.publicKey S ∈ keys) (hk : k.publicKey S ∉ ks) :
    (k.identity S).unwrap stanzas = .error .mismatch := by
  rcases of_wrapAll_keyPairs h with ⟨rfl, -⟩
  apply Identity.unwrap_of_mismatch
  intro s hs
  rcases List.mem_mapIdx.1 hs with ⟨i, hi, rfl⟩
  have hmem : ks[i] ∈ ks := List.getElem_mem hi
  refine SecretKey.unwrapStanza_apart (hagree _ _) ?_
  refine (hapart i hi).decrypt?_eq_none (hks hmem) hknown ?_
  rintro hsame
  exact hk (hsame ▸ hmem)

/-- Key pairs of which none was written to find nothing. -/
theorem findFileKey_of_keyPairs_apart (hagree : S.AgreementCommutes)
    (h : wrapAll (ks.map (·.recipient S)) key tape = .ok (stanzas, tape')) (hks : ks ⊆ keys)
    (hapart : ∀ i < ks.length, PublicKey.KeptApart S keys (freshSecret tape i) key.bytes)
    (his : ∀ k ∈ is, k.publicKey S ∈ keys) (hnonempty : is ≠ [])
    (hmatch : ¬ ∃ k ∈ is, k.publicKey S ∈ ks) :
    findFileKey (is.map (·.identity S)) stanzas = .error .noMatch := by
  have hnone : ∀ i ∈ is.map (·.identity S), i.unwrap stanzas = .error .mismatch := by
    intro i hi
    rcases List.mem_map.1 hi with ⟨k, hk, rfl⟩
    exact unwrap_of_keyPairs_apart hagree h hks hapart (his k hk) fun hin => hmatch ⟨k, hk, hin⟩
  rw [findFileKey, searchFileKey_of_mismatch hnone, if_neg (by simp [hnonempty])]

end

/-- Under the transparent suite the value agreed on tells the public keys apart. -/
theorem transparent_derivesApart (keys : List PublicKey) (secret : Block 32) :
    Suite.transparent.DerivesApart (keys.map (·.wrappingInput .transparent secret)) := by
  intro a ha b hb hsame
  rcases List.mem_map.1 ha with ⟨k, -, rfl⟩
  rcases List.mem_map.1 hb with ⟨l, -, rfl⟩
  have hagreed : ∀ p : Block 32, (Suite.transparent.agree secret p).bytes =
      List.zipWith (· ^^^ ·) p.bytes secret.bytes := by
    intro p
    have hlen : (List.zipWith (· ^^^ ·) secret.bytes p.bytes).length = 32 := by
      simp [secret.length_eq, p.length_eq]
    change ((List.zipWith (· ^^^ ·) secret.bytes p.bytes) ++ List.replicate 32 0).take 32 = _
    rw [List.take_left' hlen, List.zipWith_comm_of_comm UInt8.xor_comm]
  have hderived : Block.pad 32 (Suite.transparent.agree secret k.point).bytes =
      Block.pad 32 (Suite.transparent.agree secret l.point).bytes := hsame
  have hpad : ∀ p : Block 32, Block.pad 32 p.bytes = p := by
    intro p
    exact Block.ext (List.take_left' p.length_eq)
  rw [hpad, hpad] at hderived
  have hle : ∀ p : Block 32, p.bytes.length ≤ secret.bytes.length := by
    intro p
    exact Nat.le_of_eq (p.length_eq.trans secret.length_eq.symm)
  have hpoint : k.point.bytes = l.point.bytes := by
    rw [← ChaCha20.zipWith_xor_cancel k.point.bytes secret.bytes (hle _), ← hagreed, hderived,
      hagreed, ChaCha20.zipWith_xor_cancel l.point.bytes secret.bytes (hle _)]
  have hkeys : k = l := by
    cases k
    cases l
    cases Block.ext hpoint
    rfl
  rw [hkeys]

/-- What comes of decrypting a file that was written to public keys is decided by which identities
are tried, and by nothing else about the list of them.  If one of them was written to, it is the
plaintext: a list that contains a match gives the same as any longer list, in whatever order, with
whatever repetitions and whatever other key pairs in it.  If there are none, or none that was
written to, it is the error that says so.  No key pair answers anything fatal to any stanza.

`known` are the key pairs that lists are made of.  What is wrapped in the run for one of the public
keys must open under no other of their wrapping keys; beside that, a full last chunk must not pass
for one that others follow.  Only the answer to those who were not written to rests on HKDF: that
`S.derive` gives different wrapping keys for the different public keys (`DerivesApart`).  Two that
came out equal would open the same stanza. -/
theorem decryptBytes_of_keyPairs [Base64] (hopen : S.OpensSealed)
    (hagree : S.AgreementCommutes)
    {ks : List PublicKey} {pieces : List Bytes} {t : ScriptedSink}
    (hcreated : Encryptor.ofRecipients (ks.map (·.recipient S)) = .ok e)
    (hwritten : e.writeFile S ({} : ScriptedSink) tape pieces = (.ok (), t))
    (hlast : ∀ w, e.start S ({} : ScriptedSink) tape = .ok w →
      LastChunkApart S w.key 0 pieces.flatten)
    {known : List SecretKey}
    (hapart : ∀ i < ks.length, S.KeepsApart
      ((ks ++ known.map (·.publicKey S)).map
        (·.wrappingFrom S (freshSecret (FileKey.generate tape).2 i)))
      (FileKey.generate tape).1.bytes) :
    (∀ is ⊆ known, (∃ k ∈ is, k.publicKey S ∈ ks) →
      decryptBytes S (is.map (·.identity S)) t.contents.toList = .ok pieces.flatten) ∧
    decryptBytes S [] t.contents.toList = .error .noIdentities ∧
    ((∀ i < ks.length, S.DerivesApart
        ((ks ++ known.map (·.publicKey S)).map
          (·.wrappingInput S (freshSecret (FileKey.generate tape).2 i)))) →
      ∀ is ⊆ known, is ≠ [] → (¬ ∃ k ∈ is, k.publicKey S ∈ ks) →
        decryptBytes S (is.map (·.identity S)) t.contents.toList = .error .noMatch) ∧
    (∀ is js : List SecretKey, is ⊆ js → js ⊆ known → (∃ k ∈ is, k.publicKey S ∈ ks) →
      decryptBytes S (js.map (·.identity S)) t.contents.toList =
        decryptBytes S (is.map (·.identity S)) t.contents.toList) ∧
    ∀ (k : SecretKey) (s : Stanza) (cause : DecryptError),
      k.unwrapStanza S s ≠ .error (.fatal cause) := by
  rcases of_writeFile_ok hwritten with ⟨header, tape', hheader, hcontents⟩
  rcases start_of_header ScriptedSink.unfailing_empty hheader with ⟨u, hstart, -, -⟩
  rcases header_eq_ok_iff.1 hheader with ⟨hwrapped, hnamed, -⟩
  rw [of_ofRecipients_ok hcreated] at hwrapped
  rcases alone_of_keyPairs hwrapped with ⟨halone, hlen⟩
  have hks : ks ⊆ ks ++ known.map (·.publicKey S) := List.subset_append_left _ _
  have hknown : ∀ is ⊆ known, ∀ k ∈ is, k.publicKey S ∈ ks ++ known.map (·.publicKey S) := by
    intro is his k hk
    exact List.mem_append_right _ (List.mem_map_of_mem (his hk))
  have hfound : ∀ is ⊆ known, (∃ k ∈ is, k.publicKey S ∈ ks) →
      decryptBytes S (is.map (·.identity S)) t.contents.toList = .ok pieces.flatten := by
    intro is his hmatch
    rw [hcontents]
    exact decryptBytes_of_found hopen hheader hlen halone
      (findFileKey_of_keyPairs hopen hagree hwrapped hks hapart (hknown is his) hmatch)
      (hlast _ hstart)
  -- without a file key the payload is not looked at
  have hnone : ∀ (identities : List Identity) (cause : DecryptError),
      findFileKey identities header.stanzas = .error cause →
        decryptBytes S identities t.contents.toList = .error cause := by
    intro identities cause hcause
    rw [hcontents, List.append_assoc]
    exact decryptBytes_of_findFileKey_error (fun s hs => ⟨hnamed s hs, hlen s hs⟩) halone hcause
  refine ⟨hfound, hnone [] _ rfl, ?_, ?_, ?_⟩
  · intro hderived is his hnonempty hmatch
    exact hnone _ _ (findFileKey_of_keyPairs_apart hagree hwrapped hks
      (fun i hi => ⟨hderived i hi, hapart i hi⟩) (hknown is his) hnonempty hmatch)
  · rintro is js hsub hjs ⟨k, hk, hin⟩
    calc
      decryptBytes S (js.map (·.identity S)) t.contents.toList
          = .ok pieces.flatten := hfound js hjs ⟨k, hsub hk, hin⟩
      _ = decryptBytes S (is.map (·.identity S)) t.contents.toList :=
          (hfound is (List.Subset.trans hsub hjs) ⟨k, hk, hin⟩).symm
  · intro k s cause hfatal
    rcases SecretKey.unwrapStanza_mismatch_or_ok S k s with hs | ⟨found, hs⟩
    · cases hs.symm.trans hfatal
    · cases hs.symm.trans hfatal

def sampleStranger : SecretKey :=
  ⟨Block.pad 32 [3]⟩

/-- A file for two public keys is tried by nobody, by a stranger, and by the second key pair twice
behind a stranger. -/
theorem decryptBytes_of_keyPairs_three_lists :
    ∃ t, Encryptor.writeFile .transparent ⟨samplePublicKeys.map (·.recipient .transparent)⟩
        ({} : ScriptedSink) sampleTape [[1], [2, 3]] = (.ok (), t) ∧
      decryptBytes .transparent [] t.contents.toList = .error .noIdentities ∧
      decryptBytes .transparent [sampleStranger.identity .transparent] t.contents.toList =
        .error .noMatch ∧
      decryptBytes .transparent [sampleStranger.identity .transparent,
        (⟨Block.pad 32 [2]⟩ : SecretKey).identity .transparent,
        (⟨Block.pad 32 [2]⟩ : SecretKey).identity .transparent] t.contents.toList =
          .ok [1, 2, 3] := by
  rcases exists_writeFile_samplePublicKeys [[1], [2, 3]] with ⟨t, ht⟩
  have hapart : ∀ i < samplePublicKeys.length, Suite.transparent.KeepsApart
      ((samplePublicKeys ++ [sampleStranger, ⟨Block.pad 32 [2]⟩].map (·.publicKey .transparent)).map
        (·.wrappingFrom .transparent (freshSecret (FileKey.generate sampleTape).2 i)))
      (FileKey.generate sampleTape).1.bytes := by
    intro i hi
    refine Suite.transparent_keepsApart _ ?_
    match i, hi with
    | 0, _ => decide
    | 1, _ => decide
  rcases decryptBytes_of_keyPairs Suite.transparent_opensSealed
    Suite.transparent_agreementCommutes rfl ht (fun w _ => transparent_lastChunkApart _ _ _)
    hapart with ⟨hfound, hnobody, hstranger, -, -⟩
  refine ⟨t, ht, hnobody, ?_, ?_⟩
  · exact hstranger (fun i _ => transparent_derivesApart _ _) [sampleStranger] (by simp)
      (List.cons_ne_nil _ _) (by decide)
  · exact hfound [sampleStranger, ⟨Block.pad 32 [2]⟩, ⟨Block.pad 32 [2]⟩] (by simp) (by decide)

end AgeCrypt
