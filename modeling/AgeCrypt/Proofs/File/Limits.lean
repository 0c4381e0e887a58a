import AgeCrypt.Config.Basic
import AgeCrypt.Proofs.Crypto.Transparent
import AgeCrypt.Proofs.File.RoundTrip

/-!
# Files under configured limits

A configuration has two work factors: one that files are written with, and the largest that is
followed when a file is opened.  `ScryptLimits.validate` looks at each of them alone.  Which of them
is larger decides whether a file that was written under a configuration is opened under it
(`ScryptLimits.decryptBytes_own`): a configuration may well write files that it refuses to open
(`ScryptLimits.own_file_refused`).
-/

namespace AgeCrypt

open Crypto Payload Encryptor

/-- Each work factor is checked on its own; they are not compared. -/
theorem ScryptLimits.validate_eq_ok_iff {limits : ScryptLimits} :
    limits.validate = .ok () ↔
      WorkFactor.isWritten limits.workFactor = true ∧
        WorkFactor.isWritten limits.maxWorkFactor = true := by
  unfold validate
  cases WorkFactor.isWritten limits.workFactor <;>
    cases WorkFactor.isWritten limits.maxWorkFactor <;> simp

namespace PassphraseRecipient

def under (limits : ScryptLimits) (passphrase : String) : PassphraseRecipient :=
  { passphrase, workFactor := limits.workFactor }

/-- A passphrase that is not empty can be written to at any work factor that is written. -/
theorem ofPassphrase_eq [Base64] (S : Suite) {passphrase : String} (hne : passphrase ≠ "")
    {limits : ScryptLimits} (hfactor : WorkFactor.isWritten limits.workFactor = true) :
    ofPassphrase S passphrase limits = .ok ⟨[(under limits passphrase).recipient S]⟩ := by
  simp only [ofPassphrase, create, if_neg hne, withWorkFactor, hfactor, if_true, bind, Except.bind]
  rfl

/-- The stanza of a passphrase can be read back. -/
theorem readable_stanzaFrom [Base64] {S : Suite} {r : PassphraseRecipient}
    (hfactor : WorkFactor.isWritten r.workFactor = true) (fileKey : FileKey) (salt : Block 16)
    (wrapping : Block 32) : (r.stanzaFrom S fileKey salt wrapping).Readable :=
  ⟨named_stanzaFrom r fileKey salt wrapping,
    length_openingLine_stanzaFrom_le hfactor fileKey salt wrapping⟩

end PassphraseRecipient

namespace PassphraseIdentity

def under (limits : ScryptLimits) (passphrase : String) : PassphraseIdentity :=
  { passphrase, maxWorkFactor := limits.maxWorkFactor }

theorem create_eq {passphrase : String} (hne : passphrase ≠ "") (limits : ScryptLimits) :
    create passphrase limits = .ok (under limits passphrase) := by
  rw [create, if_neg hne]
  rfl

end PassphraseIdentity

namespace ScryptLimits

open PassphraseRecipient

variable {S : Suite} {limits : ScryptLimits} {passphrase : String}

/-- A single stanza has no company. -/
theorem alone_of_singleton {stanzas : List Stanza} {s : Stanza} (h : stanzas = [s]) :
    Decryptor.Alone stanzas := by
  subst h
  intro r hr _
  rw [List.mem_singleton.1 hr]

section

variable [Base64]

/-- A run that writes to a passphrase leaves the file of a header with one stanza, made for that
passphrase. -/
theorem exists_writeFile_under
    (hstretch : ∀ salt, (passphraseWrapping S passphrase salt limits.workFactor).isSome = true)
    (tape : Tape) (pieces : List Bytes) :
    ∃ header tape' salt wrapping t,
      Encryptor.header S ⟨[(under limits passphrase).recipient S]⟩ (FileKey.generate tape).1
          (FileKey.generate tape).2 = .ok (header, tape') ∧
        passphraseWrapping S passphrase salt limits.workFactor = some wrapping ∧
        header.stanzas =
          [(under limits passphrase).stanzaFrom S (FileKey.generate tape).1 salt wrapping] ∧
        writeFile S ⟨[(under limits passphrase).recipient S]⟩ ({} : ScriptedSink) tape pieces =
          (.ok (), t) ∧
        t.contents.toList = header.encode ++ (tape'.draw payloadNonceSize).1.bytes ++
          sealAll S (payloadKeyAt S (FileKey.generate tape).1 tape') pieces.flatten := by
  rcases Option.isSome_iff_exists.1 (hstretch ((FileKey.generate tape).2.draw 16).1) with
    ⟨stretched, hstretched⟩
  rcases exists_header_passphrase (r := under limits passphrase) (FileKey.generate tape).1
    hstretched with ⟨header, tape', hheader⟩
  rcases of_wrapAll_passphrase (header_eq_ok_iff.1 hheader).1 with
    ⟨salt, wrapping, hwrapping, hstanzas⟩
  rcases writeFile_of_header (S := S) ScriptedSink.unfailing_empty hheader pieces with
    ⟨t, ht, hcontents⟩
  exact ⟨header, tape', salt, wrapping, t, hheader, hwrapping, hstanzas, ht,
    by simpa using hcontents⟩

/-- Under the limits that a file was written under, its header is refused if it asks for more work
than they allow. -/
theorem decryptBytes_of_lt (hfactor : WorkFactor.isWritten limits.workFactor = true)
    (hlt : limits.maxWorkFactor < limits.workFactor) {header : Header} {key : FileKey}
    {salt : Block 16} {wrapping : Block 32}
    (hstanzas : header.stanzas = [(under limits passphrase).stanzaFrom S key salt wrapping])
    (more : Bytes) :
    decryptBytes S [(PassphraseIdentity.under limits passphrase).identity S]
        (header.encode ++ more) =
      .error (.workFactorTooLarge limits.workFactor limits.maxWorkFactor) := by
  have hfatal : ((PassphraseIdentity.under limits passphrase).identity S).unwrap
      [(under limits passphrase).stanzaFrom S key salt wrapping] =
        .error (.fatal (.workFactorTooLarge limits.workFactor limits.maxWorkFactor)) :=
    (Identity.byStanza_unwrap_singleton _).trans
      (PassphraseIdentity.unwrapStanza_of_lt hfactor hlt)
  refine decryptBytes_of_findFileKey_error ?_ (alone_of_singleton hstanzas) ?_
  · intro s hs
    rw [hstanzas, List.mem_singleton] at hs
    rw [hs]
    exact readable_stanzaFrom hfactor key salt wrapping
  · rw [hstanzas]
    exact findFileKey_of_fatal hfatal []

/-- Under limits that are valid, whatever the passphrase, the plaintext and the tape, a file is
written.  The same passphrase under the same limits reads it back, unless the limits write with more
work than they follow; then it is refused for that.

Asked of the primitives: the passphrase can be stretched at the work factor that is written, what
was sealed opens, and a full last chunk does not pass for one that others follow. -/
theorem decryptBytes_own (hopen : S.OpensSealed) (hvalid : limits.validate = .ok ())
    (hne : passphrase ≠ "") (tape : Tape) (pieces : List Bytes)
    (hstretch : ∀ salt, (passphraseWrapping S passphrase salt limits.workFactor).isSome = true)
    (hlast : ∀ e w, ofPassphrase S passphrase limits = .ok e →
      e.start S ({} : ScriptedSink) tape = .ok w → LastChunkApart S w.key 0 pieces.flatten) :
    ∃ e t i, ofPassphrase S passphrase limits = .ok e ∧
      e.writeFile S ({} : ScriptedSink) tape pieces = (.ok (), t) ∧
      PassphraseIdentity.create passphrase limits = .ok i ∧
      (limits.workFactor ≤ limits.maxWorkFactor →
        decryptBytes S [i.identity S] t.contents.toList = .ok pieces.flatten) ∧
      (limits.maxWorkFactor < limits.workFactor →
        decryptBytes S [i.identity S] t.contents.toList =
          .error (.workFactorTooLarge limits.workFactor limits.maxWorkFactor)) := by
  rcases validate_eq_ok_iff.1 hvalid with ⟨hfactor, -⟩
  have he := ofPassphrase_eq S hne hfactor
  rcases exists_writeFile_under hstretch tape pieces with
    ⟨header, tape', salt, wrapping, t, hheader, hwrapping, hstanzas, ht, hcontents⟩
  refine ⟨_, t, _, he, ht, PassphraseIdentity.create_eq hne limits, ?_, ?_⟩
  · intro hle
    rcases start_of_header ScriptedSink.unfailing_empty hheader with ⟨u, hstart, -, -⟩
    rw [hcontents]
    refine decryptBytes_of_header hopen hheader ?_ (alone_of_singleton hstanzas) ?_
      (hlast _ _ he hstart)
    · intro s hs
      rw [hstanzas, List.mem_singleton] at hs
      rw [hs]
      exact length_openingLine_stanzaFrom_le hfactor _ _ _
    · rw [hstanzas]
      exact (Identity.byStanza_unwrap_singleton _).trans
        (PassphraseIdentity.unwrapStanza_own hopen hfactor rfl hle hwrapping)
  · intro hlt
    rw [hcontents, List.append_assoc]
    exact decryptBytes_of_lt hfactor hlt hstanzas _

end

/-- Limits that write with no more work than they follow, and limits that write with more. -/
theorem decryptBytes_own_two_limits :
    (∃ e t i, ofPassphrase .transparent "p" ⟨2, 3⟩ = .ok e ∧
      e.writeFile .transparent ({} : ScriptedSink) sampleTape [[1], [2, 3]] = (.ok (), t) ∧
      PassphraseIdentity.create "p" ⟨2, 3⟩ = .ok i ∧
      decryptBytes .transparent [i.identity .transparent] t.contents.toList = .ok [1, 2, 3]) ∧
    (∃ e t i, ofPassphrase .transparent "p" ⟨30, 2⟩ = .ok e ∧
      e.writeFile .transparent ({} : ScriptedSink) sampleTape [[1], [2, 3]] = (.ok (), t) ∧
      PassphraseIdentity.create "p" ⟨30, 2⟩ = .ok i ∧
      decryptBytes .transparent [i.identity .transparent] t.contents.toList =
        .error (.workFactorTooLarge 30 2)) := by
  have hne : "p" ≠ "" := by
    decide
  refine ⟨?_, ?_⟩
  · have hvalid : (⟨2, 3⟩ : ScryptLimits).validate = .ok () := rfl
    rcases decryptBytes_own Suite.transparent_opensSealed hvalid hne sampleTape [[1], [2, 3]]
      (fun _ => rfl) fun _ _ _ _ => transparent_lastChunkApart _ _ _ with
      ⟨e, t, i, he, ht, hi, hread, -⟩
    exact ⟨e, t, i, he, ht, hi, hread (by decide)⟩
  · have hvalid : (⟨30, 2⟩ : ScryptLimits).validate = .ok () := rfl
    rcases decryptBytes_own Suite.transparent_opensSealed hvalid hne sampleTape [[1], [2, 3]]
      (fun _ => rfl) fun _ _ _ _ => transparent_lastChunkApart _ _ _ with
      ⟨e, t, i, he, ht, hi, -, hrefused⟩
    exact ⟨e, t, i, he, ht, hi, hrefused (by decide)⟩

/-- Valid limits under which a file is written and then refused. -/
theorem own_file_refused :
    (⟨3, 2⟩ : ScryptLimits).validate = .ok () ∧
      ∃ e t i, ofPassphrase .transparent "p" ⟨3, 2⟩ = .ok e ∧
        e.writeFile .transparent ({} : ScriptedSink) sampleTape [[1, 2, 3]] = (.ok (), t) ∧
        PassphraseIdentity.create "p" ⟨3, 2⟩ = .ok i ∧
        decryptBytes .transparent [i.identity .transparent] t.contents.toList =
          .error (.workFactorTooLarge 3 2) := by
  have hfactor : WorkFactor.isWritten (⟨3, 2⟩ : ScryptLimits).workFactor = true := by
    decide
  have hstretch : ∀ salt, (passphraseWrapping .transparent "p" salt
      (⟨3, 2⟩ : ScryptLimits).workFactor).isSome = true := fun _ => rfl
  rcases exists_writeFile_under hstretch sampleTape [[1, 2, 3]] with
    ⟨header, tape', salt, wrapping, t, -, -, hstanzas, ht, hcontents⟩
  refine ⟨rfl, _, t, _, ofPassphrase_eq _ (by decide) hfactor, ht,
    PassphraseIdentity.create_eq (by decide) _, ?_⟩
  rw [hcontents, List.append_assoc]
  exact decryptBytes_of_lt hfactor (by decide) hstanzas _

end ScryptLimits
end AgeCrypt
