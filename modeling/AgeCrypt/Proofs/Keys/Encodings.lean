import AgeCrypt.Base64.Standard
import AgeCrypt.Proofs.Crypto.Sha256
import AgeCrypt.Proofs.Crypto.X25519
import AgeCrypt.Proofs.Keys.Wrapping

/-!
# Public keys in other encodings

A public key is any 32 bytes, and a file key is wrapped to it whatever encoding of a point they are.
Both sides agree on the same value then.  But the wrapping key is derived from the public keys as
they are written, and an identity knows its own in the canonical encoding.  So it finds the file key
in what was wrapped to that encoding, and a mismatch in what was wrapped to another one
(`SecretKey.unwrap_wrap_encoding`).
-/

namespace AgeCrypt

open Crypto

variable {S : Suite}

/-- Two public keys are kept apart if neither wrapped key opens under the other. -/
theorem PublicKey.keptApart_pair {k l : PublicKey} {secret : Block 32} {message : Bytes}
    (hkeys : k.wrappingFrom S secret ≠ l.wrappingFrom S secret)
    (hk : S.decrypt? (l.wrappingFrom S secret) (Block.zeros 12)
      (S.encrypt (k.wrappingFrom S secret) (Block.zeros 12) message) = none)
    (hl : S.decrypt? (k.wrappingFrom S secret) (Block.zeros 12)
      (S.encrypt (l.wrappingFrom S secret) (Block.zeros 12) message) = none) :
    KeptApart S [k, l] secret message where
  derived := by
    intro a ha b hb hsame
    simp only [List.map_cons, List.map_nil, List.mem_cons, List.not_mem_nil, or_false] at ha hb
    rcases ha with rfl | rfl <;> rcases hb with rfl | rfl
    · rfl
    · exact absurd hsame hkeys
    · exact absurd hsame.symm hkeys
    · rfl
  wrapped := by
    intro a ha b hb hne
    simp only [List.map_cons, List.map_nil, List.mem_cons, List.not_mem_nil, or_false] at ha hb
    rcases ha with rfl | rfl <;> rcases hb with rfl | rfl
    · exact absurd rfl hne
    · exact hk
    · exact hl
    · exact absurd rfl hne

namespace SecretKey

section

variable [Base64] {k : SecretKey} {p : PublicKey} {fileKey : FileKey} {secret : Block 32}
  (hcommutes : S.agree k.secret (S.publicKey secret) = S.agree secret (S.publicKey k.secret))
include hcommutes

/-- The owner of a public key finds the file key in its stanza. -/
theorem unwrap_own (hopen : S.OpensSealed)
    (hshared : S.agree secret (k.publicKey S).point ≠ Block.zeros 32) :
    (k.identity S).unwrap [(k.publicKey S).stanzaFrom S fileKey secret] = .ok fileKey :=
  (Identity.byStanza_unwrap_singleton _).trans (unwrapStanza_own hcommutes hopen hshared)

/-- A stanza for another encoding is a mismatch. -/
theorem unwrap_apart (hapart : PublicKey.KeptApart S [p, k.publicKey S] secret fileKey.bytes)
    (hne : p ≠ k.publicKey S) :
    (k.identity S).unwrap [p.stanzaFrom S fileKey secret] = .error .mismatch := by
  refine (Identity.byStanza_unwrap_singleton _).trans ?_
  exact unwrapStanza_apart hcommutes (hapart.decrypt?_eq_none (List.mem_cons_self ..)
    (List.mem_cons_of_mem _ (List.mem_cons_self ..)) hne)

end

/-- Public keys that are made from secret keys are in canonical form. -/
theorem isCanonical_publicKey (hpublic : S.publicKey = X25519.publicKey) (k : SecretKey) :
    X25519.IsCanonical (k.publicKey S).point := by
  rw [publicKey, hpublic]
  exact X25519.isCanonical_agree _ _

/-- Of all encodings of the point of a key pair, the public key of the pair is the canonical one. -/
theorem isCanonical_iff_eq (hpublic : S.publicKey = X25519.publicKey) {k : SecretKey}
    {p : PublicKey} (hsame : X25519.coordinate p.point = X25519.coordinate (k.publicKey S).point) :
    X25519.IsCanonical p.point ↔ p = k.publicKey S := by
  constructor
  · intro hp
    have hpoint := X25519.eq_of_coordinate hp (k.isCanonical_publicKey hpublic) hsame
    cases p
    exact congrArg PublicKey.mk hpoint
  · rintro rfl
    exact k.isCanonical_publicKey hpublic

/-! ## A point with the highest bit set -/

def samplePair : SecretKey :=
  ⟨⟨List.replicate 32 1, List.length_replicate⟩⟩

def sampleCanonical : PublicKey :=
  ⟨.ofNatBE 32 0xa4e09292b651c278b9772c569f5fa9bb13d906b46ab68c9df9dc2b4409f8a209⟩

/-- The same point with the bit set that agreement drops. -/
def sampleMarked : PublicKey :=
  ⟨.ofNatBE 32 0xa4e09292b651c278b9772c569f5fa9bb13d906b46ab68c9df9dc2b4409f8a289⟩

def sampleFresh : Tape :=
  .cycle [2]

def sampleEphemeral : Block 32 :=
  .ofNatBE 32 0xce8d3ad1ccb633ec7b70c17814a5c76ecd029685050d344745ba05870e587d59

def sampleShared : Block 32 :=
  .ofNatBE 32 0x2ed76ab549b1e73c031eb49c9448f0798aea81b698279a0c3dc3e49fbfc4b953

/-- The public keys of both sides, and what each side agrees on. -/
theorem agreement_samples :
    samplePair.publicKey .standard = sampleCanonical ∧
      X25519.publicKey (sampleFresh.draw 32).1 = sampleEphemeral ∧
      X25519.agree samplePair.secret sampleEphemeral = sampleShared ∧
      X25519.agree (sampleFresh.draw 32).1 sampleCanonical.point = sampleShared := by
  decide +kernel

theorem publicKey_samplePair : samplePair.publicKey .standard = sampleCanonical :=
  agreement_samples.1

theorem coordinate_sampleMarked :
    X25519.coordinate sampleMarked.point = X25519.coordinate sampleCanonical.point := by
  decide

/-- What is agreed on for either encoding. -/
theorem agree_sampleFresh {p : PublicKey}
    (h : X25519.coordinate p.point = X25519.coordinate sampleCanonical.point) :
    X25519.agree (sampleFresh.draw 32).1 p.point = sampleShared :=
  (X25519.agree_congr (sampleFresh.draw 32).1 h).trans agreement_samples.2.2.2

theorem sampleShared_ne_zeros : sampleShared ≠ Block.zeros 32 := by
  decide

/-- The keys that are derived for the two encodings. -/
theorem wrappingFrom_samples :
    sampleCanonical.wrappingFrom .standard (sampleFresh.draw 32).1 =
        .ofNatBE 32 0xfe0575a833e14f528229eeb0d1cb06d63956b8248fd92926e7d533b78f0c229d ∧
      sampleMarked.wrappingFrom .standard (sampleFresh.draw 32).1 =
        .ofNatBE 32 0xa07cd8028a3ea5321f2937fee5347eb451b26f80356ed6b26733cb51a3d2cc66 := by
  have hderive : ∀ p : PublicKey,
      X25519.coordinate p.point = X25519.coordinate sampleCanonical.point → p.wrappingFrom .standard
        (sampleFresh.draw 32).1 = hkdf (sampleEphemeral.bytes ++ p.point.bytes) sampleShared.bytes
          (Bytes.ascii "age-encryption.org/v1/X25519") := by
    intro p hp
    rw [← agreement_samples.2.1, ← agree_sampleFresh hp]
    rfl
  rw [hderive _ rfl, hderive _ coordinate_sampleMarked]
  simp only [hkdf, hmac, Sha256.hash, Sha256.compress_eq_slide]
  decide +kernel

def sampleFileKey : FileKey :=
  (FileKey.generate (.cycle [7])).1

/-- What is wrapped for one of them does not open under the other. -/
theorem keptApart_samples :
    PublicKey.KeptApart .standard [sampleMarked, sampleCanonical] (sampleFresh.draw 32).1
      sampleFileKey.bytes := by
  rcases wrappingFrom_samples with ⟨hcanonical, hmarked⟩
  refine PublicKey.keptApart_pair ?_ ?_ ?_ <;>
  · rw [hcanonical, hmarked]
    decide +kernel

theorem commutes_samples :
    Suite.standard.agree samplePair.secret (Suite.standard.publicKey (sampleFresh.draw 32).1) =
      Suite.standard.agree (sampleFresh.draw 32).1
        (Suite.standard.publicKey samplePair.secret) := by
  rcases agreement_samples with ⟨hpair, hfresh, hown, hother⟩
  have hpoint : X25519.publicKey samplePair.secret = sampleCanonical.point :=
    congrArg PublicKey.point hpair
  change X25519.agree _ (X25519.publicKey _) = X25519.agree _ (X25519.publicKey _)
  rw [hfresh, hpoint, hown, hother]

/-- The stanza that is made for an encoding of the point. -/
theorem wrap_sample {p : PublicKey}
    (h : X25519.coordinate p.point = X25519.coordinate sampleCanonical.point) :
    p.wrap .standard sampleFileKey sampleFresh =
      .ok ([p.stanzaFrom .standard sampleFileKey (sampleFresh.draw 32).1],
        (sampleFresh.draw 32).2) := by
  refine PublicKey.wrap_eq_ok_iff.2 ⟨fun hzero => ?_, rfl, rfl⟩
  exact sampleShared_ne_zeros ((agree_sampleFresh h).symm.trans hzero)

/-- A file key can be wrapped to the marked encoding of a public key, and the key pair does not find
it there. -/
theorem unwrap_wrap_marked :
    X25519.coordinate sampleMarked.point =
        X25519.coordinate (samplePair.publicKey .standard).point ∧
      sampleMarked.wrap .standard sampleFileKey sampleFresh =
        .ok ([sampleMarked.stanzaFrom .standard sampleFileKey (sampleFresh.draw 32).1],
          (sampleFresh.draw 32).2) ∧
      (samplePair.identity .standard).unwrap
          [sampleMarked.stanzaFrom .standard sampleFileKey (sampleFresh.draw 32).1] =
        .error .mismatch := by
  have hne : sampleMarked ≠ samplePair.publicKey .standard := by
    rw [publicKey_samplePair]
    decide
  refine ⟨?_, wrap_sample coordinate_sampleMarked, unwrap_apart commutes_samples ?_ hne⟩
  · rw [publicKey_samplePair, coordinate_sampleMarked]
  · rw [publicKey_samplePair]
    exact keptApart_samples

/-- The key pair agrees with whoever wraps to an encoding of its point.  It finds the file key there
if the encoding is canonical, and a mismatch otherwise, unless what is derived from the two
encodings cannot be told apart. -/
theorem unwrap_wrap_encoding [Base64] (hopen : S.OpensSealed)
    (hpublic : S.publicKey = X25519.publicKey)
    (hagree : S.agree = X25519.agree) {k : SecretKey} {p : PublicKey} {fileKey : FileKey}
    {tape tape' : Tape} {stanzas : List Stanza}
    (hcommutes : S.agree k.secret (S.publicKey (tape.draw 32).1) =
      S.agree (tape.draw 32).1 (S.publicKey k.secret))
    (hsame : X25519.coordinate p.point = X25519.coordinate (k.publicKey S).point)
    (hwrap : p.wrap S fileKey tape = .ok (stanzas, tape')) :
    S.agree (tape.draw 32).1 p.point = S.agree k.secret (S.publicKey (tape.draw 32).1) ∧
      (X25519.IsCanonical p.point ↔ p = k.publicKey S) ∧
      (X25519.IsCanonical p.point → (k.identity S).unwrap stanzas = .ok fileKey) ∧
      (¬ X25519.IsCanonical p.point →
        PublicKey.KeptApart S [p, k.publicKey S] (tape.draw 32).1 fileKey.bytes →
          (k.identity S).unwrap stanzas = .error .mismatch) := by
  have hshared : S.agree (tape.draw 32).1 p.point =
      S.agree (tape.draw 32).1 (k.publicKey S).point := by
    rw [hagree]
    exact X25519.agree_congr _ hsame
  have hcanonical := isCanonical_iff_eq hpublic hsame
  rcases PublicKey.wrap_eq_ok_iff.1 hwrap with ⟨hnonzero, rfl, -⟩
  refine ⟨hshared.trans hcommutes.symm, hcanonical, fun hp => ?_, fun hp hapart => ?_⟩
  · rw [hcanonical.1 hp] at hnonzero ⊢
    exact unwrap_own hcommutes hopen hnonzero
  · exact unwrap_apart hcommutes hapart fun heq => hp (hcanonical.2 heq)

/-- The key pair finds a file key that is wrapped to its public key, and not the one that is wrapped
to the same point with the highest bit set. -/
theorem unwrap_wrap_encoding_two :
    (samplePair.identity .standard).unwrap
        [sampleCanonical.stanzaFrom .standard sampleFileKey (sampleFresh.draw 32).1] =
          .ok sampleFileKey ∧
      (samplePair.identity .standard).unwrap
        [sampleMarked.stanzaFrom .standard sampleFileKey (sampleFresh.draw 32).1] =
          .error .mismatch := by
  have hsame : ∀ {p : PublicKey},
      X25519.coordinate p.point = X25519.coordinate sampleCanonical.point →
        X25519.coordinate p.point = X25519.coordinate (samplePair.publicKey .standard).point := by
    intro p hp
    rw [publicKey_samplePair, hp]
  have hcanonical : X25519.IsCanonical sampleCanonical.point := by
    decide
  have hmarked : ¬ X25519.IsCanonical sampleMarked.point := by
    decide
  have hown := unwrap_wrap_encoding Suite.standard_opensSealed rfl rfl commutes_samples
    (hsame rfl) (wrap_sample rfl)
  have hother := unwrap_wrap_encoding Suite.standard_opensSealed rfl rfl commutes_samples
    (hsame coordinate_sampleMarked) (wrap_sample coordinate_sampleMarked)
  rw [publicKey_samplePair] at hother
  exact ⟨hown.2.2.1 hcanonical, hother.2.2.2 hmarked keptApart_samples⟩

end SecretKey
end AgeCrypt
