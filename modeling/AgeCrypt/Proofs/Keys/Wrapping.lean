import AgeCrypt.Keys.Passphrase
import AgeCrypt.Keys.X25519
import AgeCrypt.Proofs.Asking
import AgeCrypt.Proofs.Crypto.Laws
import AgeCrypt.Proofs.Header.Grammar
import AgeCrypt.Proofs.Keys.WorkFactor

/-!
# Wrapped file keys

What a recipient writes into a stanza, and what an identity finds there.  A key pair finds the file
key in the stanza made for its public key; in any other stanza it finds a mismatch, unless the two
wrapping keys are the same.  A passphrase finds the file key in the stanza made for it.
-/

namespace AgeCrypt

open Crypto

variable {S : Suite}

/-- The text of a work factor is a name. -/
theorem Stanza.isName_text (n : Nat) : Stanza.isName (Text.utf8 (WorkFactor.text n)) = true := by
  rw [WorkFactor.utf8_text, Stanza.isName_iff]
  refine ⟨fun hnil => Nat.toDigits_ne_nil (List.map_eq_nil_iff.1 hnil), ?_⟩
  intro x hx
  rcases List.mem_map.1 hx with ⟨c, hc, rfl⟩
  have hdigit := WorkFactor.isDigit_of_mem_toDigits hc
  have hbounds := WorkFactor.isDigit_bounds hdigit
  rw [Ascii.isVisible_iff, WorkFactor.toNat_digit hdigit]
  exact ⟨Nat.le_trans (by decide) hbounds.1, Nat.le_trans hbounds.2 (by decide)⟩

namespace FileKey

theorem length_wrap (wrapping : Block 32) (key : FileKey) :
    (wrap S wrapping key).length = fileKeySize + tagSize := by
  rw [wrap, S.length_encrypt, key.length_eq, fileKeySize]

/-- What was wrapped is found again under the same key. -/
theorem unwrap_wrap (hopen : S.OpensSealed) (wrapping : Block 32) (key : FileKey) :
    unwrap S wrapping (wrap S wrapping key) = .ok key := by
  have hsized : openSized S wrapping fileKeySize (wrap S wrapping key) = .ok key.bytes := by
    unfold openSized
    rw [if_neg (not_not_intro (length_wrap wrapping key)), wrap, hopen]
  simp only [unwrap, hsized, bind, Except.bind, Block.ofBytes?_bytes]

/-- A wrapped key that does not open is not unwrapped. -/
theorem unwrap_wrap_of_apart {a b : Block 32} {key : FileKey}
    (h : S.decrypt? b (Block.zeros 12) (S.encrypt a (Block.zeros 12) key.bytes) = none) :
    unwrap S b (wrap S a key) = .error .unauthentic := by
  have hsized : openSized S b fileKeySize (wrap S a key) = .error .unauthentic := by
    unfold openSized
    rw [if_neg (not_not_intro (length_wrap a key)), wrap, h]
  simp only [unwrap, hsized, bind, Except.bind]

end FileKey

namespace Identity

variable {answer : Stanza → Except Refusal FileKey} {stanzas : List Stanza}

/-! ### The search through the stanzas -/

@[simp] theorem byStanza_unwrap_nil : (byStanza answer).unwrap [] = .error .mismatch := rfl

theorem byStanza_unwrap_cons_of_mismatch {s : Stanza} (h : answer s = .error .mismatch)
    (rest : List Stanza) : (byStanza answer).unwrap (s :: rest) = (byStanza answer).unwrap rest := by
  have hanswer : Id.run (answer s) = .error .mismatch := h
  change Id.run (firstAnswer answer (s :: rest)) = _
  rw [firstAnswer, Id.run_bind, hanswer]
  rfl

/-- The first stanza that does not answer a mismatch decides. -/
theorem byStanza_unwrap_cons_of_ne {s : Stanza} (h : answer s ≠ .error .mismatch)
    (rest : List Stanza) : (byStanza answer).unwrap (s :: rest) = answer s := by
  have hanswer : Id.run (answer s) = answer s := rfl
  change Id.run (firstAnswer answer (s :: rest)) = _
  rw [firstAnswer, Id.run_bind, hanswer]
  generalize answer s = a at h ⊢
  rcases a with (_ | cause) | key
  · exact absurd rfl h
  · rfl
  · rfl

@[simp] theorem byStanza_unwrap_singleton (s : Stanza) :
    (byStanza answer).unwrap [s] = answer s := by
  by_cases h : answer s = .error .mismatch
  · rw [byStanza_unwrap_cons_of_mismatch h, h, byStanza_unwrap_nil]
  · rw [byStanza_unwrap_cons_of_ne h]

/-- An identity that answers each stanza with the file key or a mismatch, and one of them with the
file key, finds it. -/
theorem unwrap_of_answers {key : FileKey}
    (hall : ∀ s ∈ stanzas, answer s = .error .mismatch ∨ answer s = .ok key)
    (hown : ∃ s ∈ stanzas, answer s = .ok key) : (byStanza answer).unwrap stanzas = .ok key := by
  induction stanzas with
  | nil =>
      rcases hown with ⟨s, hs, -⟩
      cases hs
  | cons s stanzas ih =>
      rcases hall s (List.mem_cons_self ..) with hs | hs
      · rw [byStanza_unwrap_cons_of_mismatch hs]
        refine ih (fun t ht => hall t (List.mem_cons_of_mem _ ht)) ?_
        rcases hown with ⟨t, ht, hkey⟩
        rcases List.mem_cons.1 ht with rfl | ht
        · cases hs.symm.trans hkey
        · exact ⟨t, ht, hkey⟩
      · have hfound : answer s ≠ .error .mismatch := by
          simp [hs]
        rw [byStanza_unwrap_cons_of_ne hfound, hs]

/-- If every stanza answers a mismatch, so do all of them. -/
theorem unwrap_of_mismatch (h : ∀ s ∈ stanzas, answer s = .error .mismatch) :
    (byStanza answer).unwrap stanzas = .error .mismatch := by
  induction stanzas with
  | nil => rfl
  | cons s stanzas ih =>
      rw [byStanza_unwrap_cons_of_mismatch (h s (List.mem_cons_self ..))]
      exact ih fun t ht => h t (List.mem_cons_of_mem _ ht)

theorem unwrap_mismatch_or_ok {key : FileKey}
    (hall : ∀ s ∈ stanzas, answer s = .error .mismatch ∨ answer s = .ok key) :
    (byStanza answer).unwrap stanzas = .error .mismatch ∨
      (byStanza answer).unwrap stanzas = .ok key := by
  by_cases hown : ∃ s ∈ stanzas, answer s = .ok key
  · exact .inr (unwrap_of_answers hall hown)
  · refine .inl (unwrap_of_mismatch fun s hs => ?_)
    exact (hall s hs).resolve_right fun hs' => hown ⟨s, hs, hs'⟩

end Identity

/-! ## Key pairs -/

namespace PublicKey

def wrappingFrom (S : Suite) (k : PublicKey) (secret : Block 32) : Block 32 :=
  keyPairWrapping S (S.publicKey secret) k.point (S.agree secret k.point)

def wrappingInput (S : Suite) (k : PublicKey) (secret : Block 32) : Suite.DerivationInput where
  salt := (S.publicKey secret).bytes ++ k.point.bytes
  keyMaterial := (S.agree secret k.point).bytes
  label := Bytes.ascii "age-encryption.org/v1/X25519"

theorem deriveFrom_wrappingInput (k : PublicKey) (secret : Block 32) :
    S.deriveFrom (k.wrappingInput S secret) = k.wrappingFrom S secret := rfl

/-- The public key that is written to shows in the salt, whatever is agreed on. -/
theorem wrappingInput_inj {k l : PublicKey} {secret : Block 32}
    (h : k.wrappingInput S secret = l.wrappingInput S secret) : k = l := by
  have hsalt : (S.publicKey secret).bytes ++ k.point.bytes =
      (S.publicKey secret).bytes ++ l.point.bytes := congrArg (·.salt) h
  have hpoint : k.point = l.point := Block.ext (List.append_cancel_left hsalt)
  cases k
  cases l
  cases hpoint
  rfl

/-- What is wrapped for one of `keys` with a fresh secret can be told from what is wrapped for the
others: their wrapping keys differ, and the message opens only under the one it was sealed with. -/
structure KeptApart (S : Suite) (keys : List PublicKey) (secret : Block 32) (message : Bytes) :
    Prop where
  derived : S.DerivesApart (keys.map (·.wrappingInput S secret))
  wrapped : S.KeepsApart (keys.map (·.wrappingFrom S secret)) message

/-- What is wrapped for one key does not open under the wrapping key of another. -/
theorem KeptApart.decrypt?_eq_none {keys : List PublicKey} {secret : Block 32} {message : Bytes}
    (h : KeptApart S keys secret message) {k l : PublicKey} (hk : k ∈ keys) (hl : l ∈ keys)
    (hne : k ≠ l) :
    S.decrypt? (l.wrappingFrom S secret) (Block.zeros 12)
      (S.encrypt (k.wrappingFrom S secret) (Block.zeros 12) message) = none := by
  refine h.wrapped _ (List.mem_map_of_mem hk) _ (List.mem_map_of_mem hl) ?_
  rw [← deriveFrom_wrappingInput, ← deriveFrom_wrappingInput]
  intro hsame
  exact hne (wrappingInput_inj
    (h.derived _ (List.mem_map_of_mem hk) _ (List.mem_map_of_mem hl) hsame))

variable [Base64]

/-- The stanza that carries a file key to `k` with a fresh secret. -/
def stanzaFrom (S : Suite) (k : PublicKey) (fileKey : FileKey) (secret : Block 32) : Stanza where
  tag := keyPairTag
  args := [Text.ofAscii (Base64.encode (S.publicKey secret).bytes)]
  body := FileKey.wrap S (k.wrappingFrom S secret) fileKey

/-- Wrapping to a public key draws a secret, and fails only if what is agreed on is zero. -/
theorem wrap_eq_ok_iff {k : PublicKey} {fileKey : FileKey} {tape tape' : Tape}
    {stanzas : List Stanza} :
    k.wrap S fileKey tape = .ok (stanzas, tape') ↔
      S.agree (tape.draw 32).1 k.point ≠ Block.zeros 32 ∧
        stanzas = [k.stanzaFrom S fileKey (tape.draw 32).1] ∧ tape' = (tape.draw 32).2 := by
  unfold wrap
  constructor
  · intro h
    dsimp only at h
    split at h
    · cases h
    · rename_i hshared
      cases h
      exact ⟨hshared, rfl, rfl⟩
  · rintro ⟨hshared, rfl, rfl⟩
    dsimp only
    rw [if_neg hshared]
    rfl

theorem named_stanzaFrom (k : PublicKey) (fileKey : FileKey) (secret : Block 32) :
    (k.stanzaFrom S fileKey secret).Named := by
  intro name hname
  simp only [Stanza.names, stanzaFrom, List.mem_cons, List.not_mem_nil, or_false] at hname
  rcases hname with rfl | rfl
  · decide
  · rw [Stanza.utf8_ofAscii_encode]
    exact Stanza.isName_encode (Block.bytes_ne_nil (by decide) _)

theorem length_openingLine_stanzaFrom (k : PublicKey) (fileKey : FileKey) (secret : Block 32) :
    (k.stanzaFrom S fileKey secret).openingLine.length = 53 := by
  have hmark : Stanza.mark.length = 2 := by
    decide
  have htag : (Text.utf8 keyPairTag).length = 6 := by
    decide
  simp only [Stanza.openingLine, Stanza.names, stanzaFrom, List.flatMap_cons, List.flatMap_nil,
    List.length_append, List.length_cons, List.length_nil, Stanza.utf8_ofAscii_encode,
    Base64.length_encode, (S.publicKey secret).length_eq, hmark, htag]

theorem length_openingLine_stanzaFrom_le (k : PublicKey) (fileKey : FileKey) (secret : Block 32) :
    (k.stanzaFrom S fileKey secret).openingLine.length ≤ maxLineLength := by
  rw [length_openingLine_stanzaFrom]
  decide

end PublicKey

variable [Base64]

namespace SecretKey

section

variable {k : SecretKey} {secret : Block 32}
  (hcommutes : S.agree k.secret (S.publicKey secret) = S.agree secret (S.publicKey k.secret))
include hcommutes

/-- What a key pair makes of a stanza that was made for a public key: since agreement commutes, it
tries the wrapping key that its own public key would have got. -/
theorem unwrapStanza_stanzaFrom (p : PublicKey) (fileKey : FileKey) :
    k.unwrapStanza S (p.stanzaFrom S fileKey secret) =
      if S.agree secret (k.publicKey S).point = Block.zeros 32 then
        .error .mismatch
      else
        match FileKey.unwrap S ((k.publicKey S).wrappingFrom S secret)
            (FileKey.wrap S (p.wrappingFrom S secret) fileKey) with
        | .ok key => .ok key
        | .error _ => .error .mismatch := by
  have hbody : (FileKey.wrap S (p.wrappingFrom S secret) fileKey).length = fileKeySize + tagSize :=
    FileKey.length_wrap _ _
  -- the identity agrees from the other side than the sender did
  have hshared : S.agree k.secret (S.publicKey secret) = S.agree secret (k.publicKey S).point :=
    hcommutes
  simp only [unwrapStanza, PublicKey.stanzaFrom, Stanza.utf8_ofAscii_encode, Base64.decode?_encode,
    Option.bind_some, Block.ofBytes?_bytes, hbody, hshared, ne_eq, not_true_eq_false, if_false]
  rfl

/-- A key pair finds the file key in a stanza made for its public key. -/
theorem unwrapStanza_own (hopen : S.OpensSealed) {fileKey : FileKey}
    (hshared : S.agree secret (k.publicKey S).point ≠ Block.zeros 32) :
    k.unwrapStanza S ((k.publicKey S).stanzaFrom S fileKey secret) = .ok fileKey := by
  rw [unwrapStanza_stanzaFrom hcommutes, if_neg hshared, FileKey.unwrap_wrap hopen]

/-- A key pair finds no other key in a stanza made for somebody else. -/
theorem unwrapStanza_other (hopen : S.OpensSealed) {p : PublicKey} {fileKey : FileKey}
    (hapart : p.wrappingFrom S secret ≠ (k.publicKey S).wrappingFrom S secret →
      S.decrypt? ((k.publicKey S).wrappingFrom S secret) (Block.zeros 12)
        (S.encrypt (p.wrappingFrom S secret) (Block.zeros 12) fileKey.bytes) = none) :
    k.unwrapStanza S (p.stanzaFrom S fileKey secret) = .error .mismatch ∨
      k.unwrapStanza S (p.stanzaFrom S fileKey secret) = .ok fileKey := by
  rw [unwrapStanza_stanzaFrom hcommutes]
  by_cases hshared : S.agree secret (k.publicKey S).point = Block.zeros 32
  · rw [if_pos hshared]
    exact .inl rfl
  rw [if_neg hshared]
  -- two recipients may share a wrapping key, and then either stanza will do
  by_cases hsame : p.wrappingFrom S secret = (k.publicKey S).wrappingFrom S secret
  · rw [hsame, FileKey.unwrap_wrap hopen]
    exact .inr rfl
  · rw [FileKey.unwrap_wrap_of_apart (hapart hsame)]
    exact .inl rfl

/-- A key pair finds a mismatch in a stanza made for somebody else that does not open under the
wrapping key its own public key would have got. -/
theorem unwrapStanza_apart {p : PublicKey} {fileKey : FileKey}
    (hapart : S.decrypt? ((k.publicKey S).wrappingFrom S secret) (Block.zeros 12)
      (S.encrypt (p.wrappingFrom S secret) (Block.zeros 12) fileKey.bytes) = none) :
    k.unwrapStanza S (p.stanzaFrom S fileKey secret) = .error .mismatch := by
  rw [unwrapStanza_stanzaFrom hcommutes, FileKey.unwrap_wrap_of_apart hapart]
  split <;> rfl

end

/-- Whatever a stanza holds, a key pair finds a file key or a mismatch: nothing about a stanza is
fatal to it. -/
theorem unwrapStanza_mismatch_or_ok (S : Suite) (k : SecretKey) (s : Stanza) :
    k.unwrapStanza S s = .error .mismatch ∨ ∃ key, k.unwrapStanza S s = .ok key := by
  unfold unwrapStanza
  split
  · exact .inl rfl
  · split
    · split
      · exact .inl rfl
      · split
        · exact .inl rfl
        · dsimp only
          split
          · exact .inl rfl
          · split
            · exact .inr ⟨_, rfl⟩
            · exact .inl rfl
    · exact .inl rfl

end SecretKey

/-! ## Passphrases -/

namespace PassphraseRecipient

/-- A file key is wrapped under the key that is stretched with a fresh salt. -/
theorem wrap_eq (S : Suite) (r : PassphraseRecipient) (fileKey : FileKey) (tape : Tape) :
    r.wrap S fileKey tape =
      match passphraseWrapping S r.passphrase (tape.draw 16).1 r.workFactor with
      | none => .error .derivation
      | some wrapping =>
          .ok ([r.stanzaFrom S fileKey (tape.draw 16).1 wrapping], (tape.draw 16).2) := by
  rw [passphraseWrapping, wrap, asking, Asking.run_ask]
  cases S.stretching (passphraseDerivation r.passphrase (tape.draw 16).1 r.workFactor) <;> rfl

/-- A passphrase is wrapped to in one stanza, under a key that was stretched. -/
theorem of_wrap_ok {r : PassphraseRecipient} {fileKey : FileKey} {tape tape' : Tape}
    {stanzas : List Stanza} (h : r.wrap S fileKey tape = .ok (stanzas, tape')) :
    ∃ salt wrapping, passphraseWrapping S r.passphrase salt r.workFactor = some wrapping ∧
      stanzas = [r.stanzaFrom S fileKey salt wrapping] := by
  rw [wrap_eq] at h
  split at h
  · cases h
  · rename_i wrapping hwrapping
    cases h
    exact ⟨_, wrapping, hwrapping, rfl⟩

theorem named_stanzaFrom (r : PassphraseRecipient) (fileKey : FileKey) (salt : Block 16)
    (wrapping : Block 32) : (r.stanzaFrom S fileKey salt wrapping).Named := by
  intro name hname
  simp only [Stanza.names, stanzaFrom, List.mem_cons, List.not_mem_nil, or_false] at hname
  rcases hname with rfl | rfl | rfl
  · decide
  · rw [Stanza.utf8_ofAscii_encode]
    exact Stanza.isName_encode (Block.bytes_ne_nil (by decide) _)
  · exact Stanza.isName_text r.workFactor

theorem length_openingLine_stanzaFrom_le {r : PassphraseRecipient}
    (hfactor : WorkFactor.isWritten r.workFactor = true) (fileKey : FileKey) (salt : Block 16)
    (wrapping : Block 32) :
    (r.stanzaFrom S fileKey salt wrapping).openingLine.length ≤ maxLineLength := by
  have hmark : Stanza.mark.length = 2 := by
    decide
  have htag : (Text.utf8 passphraseTag).length = 6 := by
    decide
  have hdigits : (Nat.toDigits 10 r.workFactor).length ≤ 2 := by
    rw [Nat.length_toDigits_le_iff (by decide) (by decide)]
    exact Nat.lt_of_le_of_lt (WorkFactor.isWritten_iff.1 hfactor).2 (by decide)
  simp only [Stanza.openingLine, Stanza.names, stanzaFrom, List.flatMap_cons, List.flatMap_nil,
    List.length_append, List.length_cons, List.length_nil, Stanza.utf8_ofAscii_encode,
    Base64.length_encode, salt.length_eq, WorkFactor.utf8_text, List.length_map, hmark, htag,
    maxLineLength]
  omega

end PassphraseRecipient

/-- What a passphrase makes of a stanza made for a passphrase: it looks at the work factor first. -/
theorem PassphraseIdentity.unwrapStanza_stanzaFrom {r : PassphraseRecipient}
    {i : PassphraseIdentity} {fileKey : FileKey} {salt : Block 16} {wrapping : Block 32}
    (hfactor : WorkFactor.isWritten r.workFactor = true) :
    i.unwrapStanza S (r.stanzaFrom S fileKey salt wrapping) =
      if i.maxWorkFactor < r.workFactor then
        .error (.fatal (.workFactorTooLarge r.workFactor i.maxWorkFactor))
      else
        settle S (r.stanzaFrom S fileKey salt wrapping)
          (passphraseWrapping S i.passphrase salt r.workFactor) := by
  have hbody : (r.stanzaFrom S fileKey salt wrapping).body.length = fileKeySize + tagSize :=
    FileKey.length_wrap _ _
  have hrequest : i.request (r.stanzaFrom S fileKey salt wrapping) =
      if i.maxWorkFactor < r.workFactor then
        .error (.fatal (.workFactorTooLarge r.workFactor i.maxWorkFactor))
      else
        .ok (passphraseDerivation i.passphrase salt r.workFactor) := by
    rw [request, hbody]
    simp only [PassphraseRecipient.stanzaFrom, Stanza.utf8_ofAscii_encode, Base64.decode?_encode,
      Option.bind_some, Block.ofBytes?_bytes, WorkFactor.parse_text_of_isWritten hfactor, ne_eq,
      not_true_eq_false, if_false]
  rw [unwrapStanza, asking, hrequest]
  by_cases hmax : i.maxWorkFactor < r.workFactor
  · rw [if_pos hmax, if_pos hmax]
    rfl
  · rw [if_neg hmax, if_neg hmax]
    rfl

/-- The derived key opens what was wrapped under it. -/
theorem PassphraseIdentity.settle_stanzaFrom (hopen : S.OpensSealed) (r : PassphraseRecipient)
    (fileKey : FileKey) (salt : Block 16) (wrapping : Block 32) :
    settle S (r.stanzaFrom S fileKey salt wrapping) (some wrapping) = .ok fileKey := by
  simp only [settle, PassphraseRecipient.stanzaFrom, FileKey.unwrap_wrap hopen]

/-- A passphrase finds the file key in a stanza made for it, unless it asks for too much work. -/
theorem PassphraseIdentity.unwrapStanza_own (hopen : S.OpensSealed) {r : PassphraseRecipient}
    {i : PassphraseIdentity} {fileKey : FileKey} {salt : Block 16} {wrapping : Block 32}
    (hfactor : WorkFactor.isWritten r.workFactor = true) (hpassphrase : i.passphrase = r.passphrase)
    (hmax : r.workFactor ≤ i.maxWorkFactor)
    (hwrapping : passphraseWrapping S r.passphrase salt r.workFactor = some wrapping) :
    i.unwrapStanza S (r.stanzaFrom S fileKey salt wrapping) = .ok fileKey := by
  rw [unwrapStanza_stanzaFrom hfactor, if_neg (Nat.not_lt.2 hmax), hpassphrase, hwrapping,
    settle_stanzaFrom hopen]

/-- A passphrase gives up at a stanza that asks for too much work. -/
theorem PassphraseIdentity.unwrapStanza_of_lt {r : PassphraseRecipient} {i : PassphraseIdentity}
    {fileKey : FileKey} {salt : Block 16} {wrapping : Block 32}
    (hfactor : WorkFactor.isWritten r.workFactor = true) (hmax : i.maxWorkFactor < r.workFactor) :
    i.unwrapStanza S (r.stanzaFrom S fileKey salt wrapping) =
      .error (.fatal (.workFactorTooLarge r.workFactor i.maxWorkFactor)) := by
  rw [unwrapStanza_stanzaFrom hfactor, if_pos hmax]

end AgeCrypt
