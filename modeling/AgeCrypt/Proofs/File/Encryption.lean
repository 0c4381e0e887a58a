import AgeCrypt.Proofs.Armor.Writing
import AgeCrypt.Proofs.Keys.Wrapping
import AgeCrypt.Proofs.Payload.Writing

/-!
# What encryption writes

The file of a run is the header with the stanzas of its recipients, the nonce, and the sealed
payload (`file`).  A run over a sink that awaits it gives the sink all of it or fails
(`writeFile_of_awaits`, `writeArmored_of_awaits`), and over a sink that does not fail it does not
fail either (`writeFile_of_steady`, `writeArmored_of_steady`).

So a run that reports success has left its file (`contents_of_writeFile`), and over memory nothing
can fail but the wrapping (`writeFile_of_header`, `of_writeFile_ok`).
-/

namespace AgeCrypt
namespace Encryptor

open Crypto Payload PayloadWriter ByteSink HoldingSink

variable {S : Suite} {e : Encryptor} {key : FileKey} {tape tape' : Tape}

theorem of_ofRecipients_ok {recipients : List Recipient}
    (h : ofRecipients recipients = .ok e) : e.recipients = recipients := by
  unfold ofRecipients at h
  split at h
  · cases h
  · split at h
    · cases h
    · cases h
      rfl

/-! ## Stanzas -/

/-- The secret that recipient number `i` draws, if those before it have drawn theirs. -/
def freshSecret (tape : Tape) (i : Nat) : Block 32 :=
  (({ tape with position := tape.position + 32 * i } : Tape).draw 32).1

/-- What the first recipient draws is gone from the tape of the others. -/
theorem freshSecret_succ (tape : Tape) (i : Nat) :
    freshSecret (tape.draw 32).2 i = freshSecret tape (i + 1) := by
  have hposition : tape.position + 32 + 32 * i = tape.position + 32 * (i + 1) := by
    omega
  simp only [freshSecret, Tape.draw, hposition]

theorem forM_validate_eq_ok_iff {stanzas : List Stanza} :
    stanzas.forM Stanza.validate = .ok () ↔ ∀ s ∈ stanzas, s.Named := by
  induction stanzas with
  | nil => exact ⟨fun _ s hs => (by cases hs), fun _ => rfl⟩
  | cons s stanzas ih =>
      change (s.validate >>= fun _ => stanzas.forM Stanza.validate) = .ok () ↔ _
      rw [List.forall_mem_cons, ← ih, ← Stanza.validate_eq_ok_iff]
      cases s.validate with
      | ok u => exact ⟨fun h => ⟨rfl, h⟩, fun h => h.2⟩
      | error cause => exact ⟨fun h => (by cases h), fun h => (by cases h.1)⟩

/-- A recipient that answers the same stanzas to every file key. -/
def answering (stanzas : List Stanza) : Recipient where
  wrap _ tape := .ok (stanzas, tape)

/-- Recipients that draw nothing leave the tape as it was. -/
theorem wrapAll_answering (answers : List (List Stanza)) (key : FileKey) (tape : Tape) :
    wrapAll (answers.map answering) key tape = .ok (answers.flatten, tape) := by
  induction answers with
  | nil => rfl
  | cons stanzas answers ih =>
      have hfirst : (answering stanzas).wrap key tape = .ok (stanzas, tape) := rfl
      simp only [List.map_cons, wrapAll, List.flatten_cons, hfirst, ih, bind, Except.bind]

variable [Base64]

/-- The stanzas of key pairs: each in its turn, with a secret of its own. -/
theorem of_wrapAll_keyPairs {ks : List PublicKey} {stanzas : List Stanza}
    (h : wrapAll (ks.map (·.recipient S)) key tape = .ok (stanzas, tape')) :
    stanzas = ks.mapIdx (fun i k => k.stanzaFrom S key (freshSecret tape i)) ∧
      ∀ i k, ks[i]? = some k → S.agree (freshSecret tape i) k.point ≠ Block.zeros 32 := by
  induction ks generalizing tape stanzas with
  | nil =>
      cases h
      exact ⟨rfl, fun i k hk => by simp at hk⟩
  | cons k ks ih =>
      simp only [List.map_cons, wrapAll, PublicKey.recipient, bind, Except.bind] at h
      split at h
      · cases h
      · rename_i first hfirst
        split at h
        · cases h
        · rename_i others hothers
          cases h
          rcases PublicKey.wrap_eq_ok_iff.1 hfirst with ⟨hshared, hstanza, htape⟩
          -- the others draw from where the first left the tape
          rw [htape] at hothers
          rcases ih hothers with ⟨hstanzas, hothers_shared⟩
          refine ⟨?_, ?_⟩
          · rw [hstanza, hstanzas, List.mapIdx_cons]
            simp only [freshSecret_succ, List.singleton_append]
            rfl
          · intro i k' hk'
            cases i with
            | zero =>
                cases hk'
                exact hshared
            | succ i =>
                rw [← freshSecret_succ]
                exact hothers_shared i k' hk'

/-- Key pairs all get their stanzas if none of them agrees on zero. -/
theorem wrapAll_keyPairs {ks : List PublicKey}
    (h : ∀ i k, ks[i]? = some k → S.agree (freshSecret tape i) k.point ≠ Block.zeros 32) :
    ∃ stanzas tape', wrapAll (ks.map (·.recipient S)) key tape = .ok (stanzas, tape') := by
  induction ks generalizing tape with
  | nil => exact ⟨[], tape, rfl⟩
  | cons k ks ih =>
      have hfirst : k.wrap S key tape =
          .ok ([k.stanzaFrom S key (tape.draw 32).1], (tape.draw 32).2) :=
        PublicKey.wrap_eq_ok_iff.2 ⟨h 0 k rfl, rfl, rfl⟩
      have hothers : ∀ i k', ks[i]? = some k' →
          S.agree (freshSecret (tape.draw 32).2 i) k'.point ≠ Block.zeros 32 := by
        intro i k' hk'
        rw [freshSecret_succ]
        exact h (i + 1) k' hk'
      rcases ih hothers with ⟨others, tape', hrest⟩
      refine ⟨[k.stanzaFrom S key (tape.draw 32).1] ++ others, tape', ?_⟩
      simp only [List.map_cons, wrapAll, PublicKey.recipient, bind, Except.bind, hfirst]
      simp only [PublicKey.recipient] at hrest
      rw [hrest]

/-! ## Files -/

/-- A header is made of stanzas that can be written, with the code of the file key. -/
theorem header_eq_ok_iff {header : Header} :
    e.header S key tape = .ok (header, tape') ↔
      wrapAll e.recipients key tape = .ok (header.stanzas, tape') ∧
        (∀ s ∈ header.stanzas, s.Named) ∧ header.mac = FileKey.mac S key header.stanzas := by
  simp only [Encryptor.header, bind, Except.bind]
  constructor
  · intro h
    split at h
    · cases h
    · rename_i wrapped hwrapped
      split at h
      · cases h
      · rename_i hvalid
        cases h
        exact ⟨hwrapped, forM_validate_eq_ok_iff.1 hvalid, rfl⟩
  · rintro ⟨hwrapped, hnamed, hmac⟩
    rw [hwrapped]
    simp only [forM_validate_eq_ok_iff.2 hnamed, ← hmac]

/-- Recipients whose stanzas can be written get a header. -/
theorem exists_header_of_wrapAll {stanzas : List Stanza}
    (hwrapped : wrapAll e.recipients key tape = .ok (stanzas, tape'))
    (hnamed : ∀ s ∈ stanzas, s.Named) :
    ∃ header, e.header S key tape = .ok (header, tape') :=
  ⟨⟨stanzas, FileKey.mac S key stanzas⟩, header_eq_ok_iff.2 ⟨hwrapped, hnamed, rfl⟩⟩

/-- Key pairs get a header if none of them agrees on zero. -/
theorem exists_header_keyPairs {ks : List PublicKey} (key : FileKey)
    (hshared : ∀ i k, ks[i]? = some k →
      S.agree (freshSecret tape i) k.point ≠ Block.zeros 32) :
    ∃ header tape', Encryptor.header S ⟨ks.map (·.recipient S)⟩ key tape =
      .ok (header, tape') := by
  have hwritten : ∃ stanzas tape',
      wrapAll (ks.map (·.recipient S)) key tape = .ok (stanzas, tape') :=
    wrapAll_keyPairs hshared
  rcases hwritten with ⟨stanzas, tape', hwrapped⟩
  have hnamed : ∀ s ∈ stanzas, s.Named := by
    intro s hs
    rw [(of_wrapAll_keyPairs hwrapped).1] at hs
    rcases List.mem_mapIdx.1 hs with ⟨i, hi, rfl⟩
    exact PublicKey.named_stanzaFrom _ _ _
  rcases exists_header_of_wrapAll (e := ⟨ks.map (·.recipient S)⟩) hwrapped hnamed with
    ⟨header, hheader⟩
  exact ⟨header, tape', hheader⟩

/-- A passphrase gets a header if it can be stretched with the salt that is drawn. -/
theorem exists_header_passphrase {r : PassphraseRecipient} (key : FileKey) {wrapping : Block 32}
    (hwrapping : passphraseWrapping S r.passphrase (tape.draw 16).1 r.workFactor = some wrapping) :
    ∃ header tape', Encryptor.header S ⟨[r.recipient S]⟩ key tape = .ok (header, tape') := by
  have hwrapped : wrapAll [r.recipient S] key tape =
      .ok ([r.stanzaFrom S key (tape.draw 16).1 wrapping], (tape.draw 16).2) := by
    simp only [wrapAll, PassphraseRecipient.recipient, PassphraseRecipient.wrap_eq, hwrapping, bind,
      Except.bind]
    rfl
  have hnamed : ∀ s ∈ [r.stanzaFrom S key (tape.draw 16).1 wrapping], s.Named := by
    intro s hs
    rw [List.mem_singleton.1 hs]
    exact PassphraseRecipient.named_stanzaFrom r key _ _
  rcases exists_header_of_wrapAll (e := ⟨[r.recipient S]⟩) hwrapped hnamed with ⟨header, hheader⟩
  exact ⟨header, _, hheader⟩

def payloadKeyAt (S : Suite) (key : FileKey) (tape' : Tape) : Block 32 :=
  FileKey.payloadKey S key (tape'.draw payloadNonceSize).1.bytes

/-- The file that carries `plaintext`, in one piece. -/
def file (S : Suite) (e : Encryptor) (tape : Tape) (plaintext : Bytes) :
    Except EncryptError Bytes := do
  let (key, tape) := FileKey.generate tape
  let (header, tape) ← e.header S key tape
  .ok (header.encode ++ (tape.draw payloadNonceSize).1.bytes ++
    sealAll S (payloadKeyAt S key tape) plaintext)

/-- A file is its header, a nonce drawn behind all recipients, and the sealed payload. -/
theorem file_eq_ok_iff {plaintext out : Bytes} :
    e.file S tape plaintext = .ok out ↔
      ∃ header tape', e.header S (FileKey.generate tape).1 (FileKey.generate tape).2 =
          .ok (header, tape') ∧
        out = header.encode ++ (tape'.draw payloadNonceSize).1.bytes ++
          sealAll S (payloadKeyAt S (FileKey.generate tape).1 tape') plaintext := by
  simp only [file, bind, Except.bind]
  constructor
  · intro h
    split at h
    · cases h
    · rename_i made hheader
      cases h
      exact ⟨made.1, made.2, hheader, rfl⟩
  · rintro ⟨header, tape', hheader, rfl⟩
    rw [hheader]

/-! ## Over any sink -/

section

variable {τ : Type} [ByteSink τ] {awaits : τ → Bytes → Prop} {safe : τ → Prop}

/-- A run starts with header and nonce. -/
theorem start_of_awaits (I : Taking awaits safe) {sink : τ} {header : Header} {more : Bytes}
    (hheader : e.header S (FileKey.generate tape).1 (FileKey.generate tape).2 =
      .ok (header, tape'))
    (h : awaits sink (header.encode ++ ((tape'.draw payloadNonceSize).1.bytes ++ more))) :
    (∃ t, e.start S sink tape =
        .ok (.start S (payloadKeyAt S (FileKey.generate tape).1 tape') t) ∧ awaits t more) ∨
      ∃ cause t, e.start S sink tape = .error (cause, t) ∧ safe t := by
  have hencoded := I.writeAll h
  simp only [Encryptor.start, hheader]
  generalize writeAll sink header.encode = answered at hencoded ⊢
  cases hencoded with
  | failed ht => exact .inr ⟨_, _, rfl, ht⟩
  | @all t ht =>
      have hnonce := I.writeAll ht
      dsimp only
      generalize writeAll t _ = answered at hnonce ⊢
      cases hnonce with
      | failed hu => exact .inr ⟨_, _, rfl, hu⟩
      | all hu => exact .inl ⟨_, rfl, hu⟩

/-- A run over a sink that awaits its file gives the sink all of it, or fails. -/
theorem writeFile_of_awaits (I : Intake awaits safe) {sink : τ} {pieces : List Bytes} {out : Bytes}
    (hfile : e.file S tape pieces.flatten = .ok out) (h : awaits sink out) :
    Given awaits safe [] (e.writeFile S sink tape pieces) := by
  rcases file_eq_ok_iff.1 hfile with ⟨header, tape', hheader, rfl⟩
  rw [List.append_assoc] at h
  rw [writeFile]
  rcases start_of_awaits I.toTaking hheader h with ⟨t, ht, hpayload⟩ | ⟨cause, t, ht, hsafe⟩
  · rw [ht]
    exact writePayload_of_awaits I hpayload
  · rw [ht]
    exact .failed hsafe

/-- A sink that awaits the armored file gets no more than its front, and all of it on success. -/
theorem writeArmored_of_awaits (I : Intake awaits safe) {sink : τ} {pieces : List Bytes}
    {out : Bytes} (hfile : e.file S tape pieces.flatten = .ok out)
    (h : awaits sink (Armor.text out)) :
    Given awaits safe [] (e.writeArmored S sink tape pieces) := by
  rw [writeArmored]
  rcases ArmorWriter.start_of_awaits I.toTaking h with
    ⟨armor, harmor, harmoring⟩ | ⟨cause, t, ht, hsafe⟩
  · rw [harmor]
    -- the armor writer is itself a sink that awaits the file
    have hwritten := writeFile_of_awaits (ArmorWriter.Armoring.intake I) hfile harmoring
    dsimp only
    generalize e.writeFile S armor tape pieces = answered at hwritten ⊢
    cases hwritten with
    | failed hu => exact .failed hu
    | @all v hv =>
        have hfinish := hv.finish I
        dsimp only
        generalize v.finish = answered at hfinish ⊢
        cases hfinish with
        | failed hu => exact .failed hu
        | all hu => exact .all hu
  · rw [ht]
    exact .failed hsafe

/-- Without a header nothing is written with success. -/
theorem exists_file_of_writeFile {sink u : τ} {pieces : List Bytes}
    (h : e.writeFile S sink tape pieces = (.ok (), u)) :
    ∃ out, e.file S tape pieces.flatten = .ok out := by
  cases hheader : e.header S (FileKey.generate tape).1 (FileKey.generate tape).2 with
  | ok made => exact ⟨_, file_eq_ok_iff.2 ⟨made.1, made.2, hheader, rfl⟩⟩
  | error cause =>
      have hstart : e.start S sink tape = .error (cause, sink) := by
        simp only [Encryptor.start, hheader]
      simp only [writeFile, hstart] at h
      cases h

/-- In armor, too, a run that succeeds has written a file. -/
theorem exists_file_of_writeArmored {sink u : τ} {pieces : List Bytes}
    (h : e.writeArmored S sink tape pieces = (.ok (), u)) :
    ∃ out, e.file S tape pieces.flatten = .ok out := by
  unfold writeArmored at h
  split at h
  · cases h
  · split at h
    · cases h
    · rename_i hwritten
      exact exists_file_of_writeFile hwritten

/-! ## Over sinks that do not fail -/

section

variable {stays : τ → Prop}

/-- Header and nonce go in full to a sink that takes what it is offered. -/
theorem start_of_steady (hsteady : Steady stays) {sink : τ} {header : Header} (h : stays sink)
    (hheader : e.header S (FileKey.generate tape).1 (FileKey.generate tape).2 =
      .ok (header, tape')) :
    ∃ u, e.start S sink tape =
        .ok (.start S (payloadKeyAt S (FileKey.generate tape).1 tape') u) ∧ stays u := by
  rcases hsteady.writeAll h header.encode with ⟨t, ht, hencoded⟩
  rcases hsteady.writeAll hencoded (tape'.draw payloadNonceSize).1.bytes with ⟨u, hu, hstays⟩
  refine ⟨u, ?_, hstays⟩
  simp only [Encryptor.start, hheader, ht, hu]
  rfl

/-- Over a sink that does not fail and awaits header and nonce, what follows them is awaited. -/
theorem start_of_taking (hsteady : Steady stays) (I : Taking awaits safe) {sink : τ}
    {header : Header} {more : Bytes} (hstays : stays sink)
    (hheader : e.header S (FileKey.generate tape).1 (FileKey.generate tape).2 =
      .ok (header, tape'))
    (h : awaits sink (header.encode ++ ((tape'.draw payloadNonceSize).1.bytes ++ more))) :
    ∃ u, e.start S sink tape =
        .ok (.start S (payloadKeyAt S (FileKey.generate tape).1 tape') u) ∧ stays u ∧
      awaits u more := by
  rcases start_of_steady hsteady hstays hheader with ⟨u, hu, hstarted⟩
  rcases start_of_awaits I hheader h with ⟨t, ht, hawaits⟩ | ⟨cause, t, ht, -⟩
  · cases hu.symm.trans ht
    exact ⟨u, hu, hstarted, hawaits⟩
  · cases hu.symm.trans ht

/-- A run that has a file is brought to its end. -/
theorem writeFile_of_steady (hsteady : Steady stays) {sink : τ} {pieces : List Bytes} {out : Bytes}
    (h : stays sink) (hfile : e.file S tape pieces.flatten = .ok out) :
    ∃ t, e.writeFile S sink tape pieces = (.ok (), t) ∧ stays t := by
  rcases file_eq_ok_iff.1 hfile with ⟨header, tape', hheader, -⟩
  rcases start_of_steady hsteady h hheader with ⟨u, hu, hstarted⟩
  rcases writePayload_of_steady (S := S) hsteady hstarted
    (payloadKeyAt S (FileKey.generate tape).1 tape') pieces with ⟨t, ht, hstays⟩
  refine ⟨t, ?_, hstays⟩
  simp only [writeFile, hu, ht]

/-- A file that can be made is written in armor to a sink that takes what it is offered. -/
theorem writeArmored_of_steady (hsteady : Steady stays) {sink : τ} {pieces : List Bytes}
    {out : Bytes} (h : stays sink) (hfile : e.file S tape pieces.flatten = .ok out) :
    ∃ t, e.writeArmored S sink tape pieces = (.ok (), t) ∧ stays t := by
  rcases ArmorWriter.start_of_steady hsteady h with ⟨armor, harmor, hstarted⟩
  rcases writeFile_of_steady (ArmorWriter.steady hsteady) hstarted hfile with ⟨v, hv, hwritten⟩
  rcases ArmorWriter.finish_of_steady hsteady hwritten with ⟨t, ht, hstays⟩
  refine ⟨t, ?_, hstays⟩
  simp only [writeArmored, harmor, hv, ht]

end

end

/-! ## Over holding sinks -/

variable {τ : Type} [ByteSink τ] [HoldingSink τ]

/-- A run that reports success has added its file to what the sink held. -/
theorem contents_of_writeFile {sink u : τ} {pieces : List Bytes}
    (h : e.writeFile S sink tape pieces = (.ok (), u)) :
    ∃ out, e.file S tape pieces.flatten = .ok out ∧ contents u = contents sink ++ out := by
  rcases exists_file_of_writeFile h with ⟨out, hfile⟩
  have hgiven := writeFile_of_awaits (HoldingSink.intake (contents sink ++ out)) hfile rfl
  rw [h] at hgiven
  exact ⟨out, hfile, by simpa using hgiven.of_ok⟩

/-- Over an unfailing sink a run starts by writing header and nonce. -/
theorem start_of_header {sink : τ} {header : Header} (h : Unfailing sink)
    (hheader : e.header S (FileKey.generate tape).1 (FileKey.generate tape).2 =
      .ok (header, tape')) :
    ∃ u, e.start S sink tape =
        .ok (.start S (payloadKeyAt S (FileKey.generate tape).1 tape') u) ∧ Unfailing u ∧
      contents u =
        contents sink ++ header.encode ++ (tape'.draw payloadNonceSize).1.bytes := by
  have hawaits := HoldingSink.intake (τ := τ)
    (contents sink ++ header.encode ++ (tape'.draw payloadNonceSize).1.bytes)
  have hmissing : contents sink ++
      (header.encode ++ ((tape'.draw payloadNonceSize).1.bytes ++ [])) =
        contents sink ++ header.encode ++ (tape'.draw payloadNonceSize).1.bytes := by
    rw [List.append_nil, List.append_assoc]
  rcases start_of_taking steady_unfailing hawaits.toTaking h hheader hmissing with
    ⟨u, hu, hunfailing, hcontents⟩
  exact ⟨u, hu, hunfailing, by simpa using hcontents⟩

/-- Over an unfailing sink a run writes the whole file. -/
theorem writeFile_of_header {sink : τ} {header : Header} (h : Unfailing sink)
    (hheader : e.header S (FileKey.generate tape).1 (FileKey.generate tape).2 =
      .ok (header, tape')) (pieces : List Bytes) :
    ∃ t, e.writeFile S sink tape pieces = (.ok (), t) ∧
      contents t = contents sink ++ header.encode ++ (tape'.draw payloadNonceSize).1.bytes ++
        sealAll S (payloadKeyAt S (FileKey.generate tape).1 tape') pieces.flatten := by
  have hfile : e.file S tape pieces.flatten = .ok _ :=
    file_eq_ok_iff.2 ⟨header, tape', hheader, rfl⟩
  rcases writeFile_of_steady steady_unfailing h hfile with ⟨t, ht, -⟩
  rcases contents_of_writeFile ht with ⟨out, hout, hcontents⟩
  cases hfile.symm.trans hout
  exact ⟨t, ht, by rw [hcontents, List.append_assoc, List.append_assoc, List.append_assoc]⟩

/-- A run over memory that succeeded has left the file of its header. -/
theorem of_writeFile_ok {pieces : List Bytes} {t : ScriptedSink}
    (h : e.writeFile S ({} : ScriptedSink) tape pieces = (.ok (), t)) :
    ∃ header tape', e.header S (FileKey.generate tape).1 (FileKey.generate tape).2 =
        .ok (header, tape') ∧
      t.contents.toList = header.encode ++ (tape'.draw payloadNonceSize).1.bytes ++
        sealAll S (payloadKeyAt S (FileKey.generate tape).1 tape') pieces.flatten := by
  rcases contents_of_writeFile h with ⟨out, hfile, hcontents⟩
  rcases file_eq_ok_iff.1 hfile with ⟨header, tape', hheader, rfl⟩
  exact ⟨header, tape', hheader, by simpa using hcontents⟩

/-! ## Recipients with fixed answers -/

/-- Stanzas that can be written are written. -/
theorem exists_file_answering {answers : List (List Stanza)}
    (hnamed : ∀ s ∈ answers.flatten, s.Named) (S : Suite) (tape : Tape) (plaintext : Bytes) :
    ∃ out, file S ⟨answers.map answering⟩ tape plaintext = .ok out := by
  rcases exists_header_of_wrapAll (S := S) (e := ⟨answers.map answering⟩)
    (wrapAll_answering answers (FileKey.generate tape).1 (FileKey.generate tape).2) hnamed with
    ⟨header, hheader⟩
  exact ⟨_, file_eq_ok_iff.2 ⟨header, _, hheader, rfl⟩⟩

end Encryptor
end AgeCrypt
