import AgeCrypt.Proofs.File.Decryption
import AgeCrypt.Proofs.File.Encryption
import AgeCrypt.Proofs.Header.Exactness

/-!
# Which written files are opened

What an encryptor checks before it writes and what a decryptor checks when it reads are not the
same.  A name that can be written is visible ASCII, of any length; a line that is read has at most
16384 bytes.  And an encryptor asks its recipients whether they must be alone, while a decryptor
looks for a passphrase stanza beside others.

Apart from these two things a file that was written is opened, with the stanzas its recipients
answered (`opened_of_writeFile`).  Neither of them can be left out (`refused_on_structure`).
-/

namespace AgeCrypt

open Crypto Encryptor HoldingSink

variable {S : Suite}

/-! ## Where a refusal comes from -/

/-- A search fails because nobody is there, nobody fits, or somebody's answer was fatal. -/
theorem of_searchFileKey_error {ι : Type} {unwrap : ι → Except Refusal FileKey} {parties : List ι}
    {absent cause : DecryptError}
    (h : Id.run (searchFileKey unwrap absent parties) = .error cause) :
    cause = absent ∨ cause = .noMatch ∨ ∃ i ∈ parties, unwrap i = .error (.fatal cause) := by
  induction parties generalizing absent with
  | nil =>
      cases h
      exact .inl rfl
  | cons i parties ih =>
      rw [searchFileKey_cons] at h
      split at h
      · cases h
      · rename_i found hi
        cases h
        exact .inr (.inr ⟨i, List.mem_cons_self .., hi⟩)
      · rcases ih h with hnone | hnone | ⟨j, hj, hfatal⟩
        · exact .inr (.inl hnone)
        · exact .inr (.inl hnone)
        · exact .inr (.inr ⟨j, List.mem_cons_of_mem _ hj, hfatal⟩)

namespace Decryptor

variable [Base64] {σ : Type} [ByteSource σ] {d : Decryptor σ}

/-- Where no passphrase stanza has company, only an identity answers so. -/
theorem of_decrypt_not_alone {identities : List Identity} (halone : Alone d.header.stanzas)
    (h : d.decrypt S identities = .error .passphraseNotAlone) :
    ∃ i ∈ identities, i.unwrap d.header.stanzas = .error (.fatal .passphraseNotAlone) := by
  rw [decrypt_of_alone halone] at h
  cases hfound : findFileKey identities d.header.stanzas with
  | ok key =>
      rw [hfound] at h
      unfold proceed at h
      dsimp only at h
      split at h
      · cases h
      · split at h <;> cases h
  | error cause =>
      rw [hfound] at h
      cases h
      rcases of_searchFileKey_error hfound with hnone | hnone | hfatal
      · cases hnone
      · cases hnone
      · exact hfatal

/-- A header that was written is read just if none of its opening lines is too long. -/
theorem start_iff_of_named {input : Buffered σ} {header : Header} {more : Bytes}
    (hnamed : ∀ s ∈ header.stanzas, s.Named) (h : input.Holds (header.encode ++ more)) :
    ((∃ d, start input = .ok d) ↔ ∀ s ∈ header.stanzas, s.openingLine.length ≤ maxLineLength) ∧
      ∀ d, start input = .ok d → d.header = header := by
  by_cases hshort : ∀ s ∈ header.stanzas, s.openingLine.length ≤ maxLineLength
  · have hreadable : ∀ s ∈ header.stanzas, s.Readable := fun s hs => ⟨hnamed s hs, hshort s hs⟩
    rcases start_of_holds hreadable h with ⟨d, hd, hheader, -⟩
    refine ⟨⟨fun _ => hshort, fun _ => ⟨d, hd⟩⟩, fun d' hd' => ?_⟩
    cases hd.symm.trans hd'
    exact hheader
  · have hlong : ∃ s ∈ header.stanzas, maxLineLength < s.openingLine.length := by
      simpa using hshort
    rcases Header.read_of_long hnamed hlong h with ⟨n, t, ht⟩
    have hrefused : start input = .error (.header (.lineTooLong n)) := by
      simp only [start, ht]
    refine ⟨⟨?_, fun hall => absurd hall hshort⟩, ?_⟩
    · rintro ⟨d, hd⟩
      cases hrefused.symm.trans hd
    · intro d hd
      cases hrefused.symm.trans hd

end Decryptor

/-! ## Written files -/

/-- What a sink in memory has taken, as input. -/
def reread (t : ScriptedSink) : Buffered ScriptedSource :=
  { inner := ScriptedSource.ofBytes t.contents.toList }

def Stanza.bare (tag : String) : Stanza :=
  { tag }

theorem Stanza.named_bare {tag : String} (h : Stanza.isName (Text.utf8 tag) = true) :
    (Stanza.bare tag).Named := by
  intro name hname
  rw [List.mem_singleton.1 hname]
  exact h

section

variable [Base64]
variable {e : Encryptor} {tape : Tape} {τ : Type} [ByteSink τ] [HoldingSink τ] {sink t : τ}
  {pieces : List Bytes}

/-- A run over an empty sink that succeeded has left the header of the stanzas its recipients
answered, and something behind it. -/
theorem Encryptor.exists_header_of_writeFile (hempty : contents sink = [])
    (h : e.writeFile S sink tape pieces = (.ok (), t)) :
    ∃ (header : Header) (tape' : Tape) (more : Bytes),
      wrapAll e.recipients (FileKey.generate tape).1 (FileKey.generate tape).2 =
          .ok (header.stanzas, tape') ∧
        (∀ s ∈ header.stanzas, s.Named) ∧ contents t = header.encode ++ more := by
  rcases contents_of_writeFile h with ⟨out, hfile, hcontents⟩
  rcases file_eq_ok_iff.1 hfile with ⟨header, tape', hheader, rfl⟩
  rcases header_eq_ok_iff.1 hheader with ⟨hwrapped, hnamed, -⟩
  rw [hempty, List.nil_append, List.append_assoc] at hcontents
  exact ⟨header, tape', _, hwrapped, hnamed, hcontents⟩

/-- Stanzas that can be written, from any number of recipients, are written. -/
theorem exists_writeFile_answering {answers : List (List Stanza)}
    (hnamed : ∀ s ∈ answers.flatten, s.Named) :
    ∃ t, Encryptor.writeFile S ⟨answers.map answering⟩ ({} : ScriptedSink) (Tape.cycle [1]) [[]] =
        (.ok (), t) ∧
      ∃ (header : Header) (more : Bytes), header.stanzas = answers.flatten ∧
        (reread t).Holds (header.encode ++ more) := by
  rcases exists_file_answering hnamed S (Tape.cycle [1]) [[]].flatten with ⟨out, hout⟩
  rcases writeFile_of_steady ByteSink.steady_unfailing ScriptedSink.unfailing_empty hout with
    ⟨t, ht, -⟩
  rcases exists_header_of_writeFile rfl ht with ⟨header, tape', more, hwrapped, -, hcontents⟩
  rw [wrapAll_answering] at hwrapped
  simp only [Except.ok.injEq, Prod.mk.injEq] at hwrapped
  refine ⟨t, ht, header, more, hwrapped.1.symm, ?_⟩
  rw [← hcontents]
  exact holds_file _

/-- Stanzas that can be read back are. -/
theorem exists_start_answering {answers : List (List Stanza)}
    (hreadable : ∀ s ∈ answers.flatten, s.Readable) :
    ∃ t d, Encryptor.writeFile S ⟨answers.map answering⟩ ({} : ScriptedSink) (Tape.cycle [1]) [[]] =
        (.ok (), t) ∧
      Decryptor.start (reread t) = .ok d ∧ d.header.stanzas = answers.flatten := by
  rcases exists_writeFile_answering (S := S) fun s hs => (hreadable s hs).named with
    ⟨t, ht, header, more, hstanzas, hinput⟩
  rcases Decryptor.start_of_holds (hstanzas ▸ hreadable) hinput with ⟨d, hd, hheader, -⟩
  exact ⟨t, d, ht, hd, by rw [hheader, hstanzas]⟩

/-- A file that was written is opened just if no stanza that its recipients answered has an opening
line of more than 16384 bytes, and it is opened with just those stanzas.  Decryption then refuses
them as a passphrase with company if they are that, and otherwise only if an identity says so. -/
theorem opened_of_writeFile {recipients : List Recipient}
    (he : Encryptor.ofRecipients recipients = .ok e) (hempty : contents sink = [])
    (hwritten : e.writeFile S sink tape pieces = (.ok (), t)) {σ : Type} [ByteSource σ]
    {input : Buffered σ} (hinput : input.Holds (contents t)) :
    ∃ stanzas tape',
      wrapAll recipients (FileKey.generate tape).1 (FileKey.generate tape).2 =
          .ok (stanzas, tape') ∧
        ((∃ d, Decryptor.start input = .ok d) ↔ ∀ s ∈ stanzas, s.openingLine.length ≤ 16384) ∧
        ∀ d, Decryptor.start input = .ok d → d.header.stanzas = stanzas ∧
          ∀ identities : List Identity,
            ((∃ s ∈ stanzas, s.tag = "scrypt" ∧ stanzas ≠ [s]) →
              d.decrypt S identities = .error .passphraseNotAlone) ∧
            ((∀ s ∈ stanzas, s.tag = "scrypt" → stanzas = [s]) →
              (∀ i ∈ identities, i.unwrap stanzas ≠ .error (.fatal .passphraseNotAlone)) →
              d.decrypt S identities ≠ .error .passphraseNotAlone) := by
  rcases exists_header_of_writeFile hempty hwritten with
    ⟨header, tape', more, hwrapped, hnamed, hcontents⟩
  rw [of_ofRecipients_ok he] at hwrapped
  rw [hcontents] at hinput
  rcases Decryptor.start_iff_of_named hnamed hinput with ⟨hopened, hheader⟩
  refine ⟨header.stanzas, tape', hwrapped, hopened, fun d hd => ?_⟩
  have hd_header := hheader d hd
  subst hd_header
  refine ⟨rfl, fun identities => ⟨?_, ?_⟩⟩
  · rintro ⟨s, hs, htag, hne⟩
    exact Decryptor.decrypt_of_not_alone (fun halone => hne (halone s hs htag)) identities
  · intro halone hsilent hrefused
    rcases Decryptor.of_decrypt_not_alone halone hrefused with ⟨i, hi, hfatal⟩
    exact hsilent i hi hfatal

end

/-- Two recipients, and the two stanzas that they answer. -/
theorem opened_of_writeFile_two_stanzas :
    ∃ t d, Encryptor.writeFile .transparent ⟨[answering [.bare "x"], answering [.bare "y"]]⟩
        ({} : ScriptedSink) (Tape.cycle [1]) [[]] = (.ok (), t) ∧
      Decryptor.start (reread t) = .ok d ∧ d.header.stanzas = [.bare "x", .bare "y"] ∧
        d.decrypt .transparent [] ≠ .error .passphraseNotAlone := by
  have hnamed : ∀ s ∈ [[Stanza.bare "x"], [.bare "y"]].flatten, s.Named := by
    intro s hs
    rcases List.mem_cons.1 hs with rfl | hs
    · exact Stanza.named_bare (by decide)
    · rw [List.mem_singleton.1 hs]
      exact Stanza.named_bare (by decide)
  rcases exists_writeFile_answering (S := .transparent) hnamed with ⟨t, ht, -⟩
  have hrecipients : Encryptor.ofRecipients [answering [.bare "x"], answering [.bare "y"]] =
      .ok ⟨[answering [.bare "x"], answering [.bare "y"]]⟩ := rfl
  have hreread : (reread t).Holds (contents t) := holds_file _
  rcases opened_of_writeFile hrecipients rfl ht hreread with
    ⟨stanzas, tape', hwrapped, hopened, hd⟩
  have hanswers := (wrapAll_answering [[Stanza.bare "x"], [.bare "y"]] _ _).symm.trans hwrapped
  simp only [Except.ok.injEq, Prod.mk.injEq] at hanswers
  cases hanswers.1
  rcases hopened.2 (by decide) with ⟨d, hstart⟩
  rcases hd d hstart with ⟨hstanzas, hdecrypt⟩
  exact ⟨t, d, ht, hstart, hstanzas, (hdecrypt []).2 (by decide) (by simp)⟩

/-! ## Written and refused -/

def Stanza.wordy : Stanza :=
  { tag := "x", args := List.replicate 8200 "a" }

theorem Stanza.named_wordy : wordy.Named := by
  intro name hname
  rcases List.mem_cons.1 hname with rfl | hname
  · decide
  · rw [List.eq_of_mem_replicate hname]
    decide

theorem Stanza.maxLineLength_lt_wordy : maxLineLength < wordy.openingLine.length := by
  have hword : (Ascii.space :: Text.utf8 "a").length = 2 := by
    decide
  simp only [Stanza.openingLine, Stanza.names, wordy, List.flatMap_cons, List.length_append,
    List.length_flatMap, List.map_replicate, hword, List.sum_replicate_nat, maxLineLength]
  omega

/-- Three files that are written and then refused: for a line that is too long, for a passphrase
stanza that has company though no recipient asked to be alone, and for an identity that says so. -/
theorem refused_on_structure :
    (∃ e t, Encryptor.ofRecipients [answering [.wordy]] = .ok e ∧
      e.writeFile .transparent ({} : ScriptedSink) (Tape.cycle [1]) [[]] = (.ok (), t) ∧
      ∃ n, Decryptor.start (reread t) = .error (.header (.lineTooLong n))) ∧
    (∃ e t, Encryptor.ofRecipients [answering [.bare "scrypt"], answering [.bare "x"]] = .ok e ∧
      e.writeFile .transparent ({} : ScriptedSink) (Tape.cycle [1]) [[]] = (.ok (), t) ∧
      ∃ d, Decryptor.start (reread t) = .ok d ∧
        d.decrypt .transparent [] = .error .passphraseNotAlone) ∧
    (∃ e t, Encryptor.ofRecipients [answering [.bare "x"]] = .ok e ∧
      e.writeFile .transparent ({} : ScriptedSink) (Tape.cycle [1]) [[]] = (.ok (), t) ∧
      ∃ d, Decryptor.start (reread t) = .ok d ∧
        d.decrypt .transparent [.byStanza fun _ => .error (.fatal .passphraseNotAlone)] =
          .error .passphraseNotAlone) := by
  refine ⟨?_, ?_, ?_⟩
  · have hnamed : ∀ s ∈ [[Stanza.wordy]].flatten, s.Named := by
      intro s hs
      rw [List.mem_singleton.1 hs]
      exact Stanza.named_wordy
    rcases exists_writeFile_answering (S := .transparent) hnamed with
      ⟨t, ht, header, more, hstanzas, hinput⟩
    have hlong : ∃ s ∈ header.stanzas, maxLineLength < s.openingLine.length := by
      rw [hstanzas]
      exact ⟨.wordy, List.mem_singleton_self _, Stanza.maxLineLength_lt_wordy⟩
    rcases Header.read_of_long (hstanzas ▸ hnamed) hlong hinput with ⟨n, u, hu⟩
    exact ⟨_, t, rfl, ht, n, by simp only [Decryptor.start, hu]⟩
  · have hreadable : ∀ s ∈ [[Stanza.bare "scrypt"], [.bare "x"]].flatten, s.Readable := by
      intro s hs
      rcases List.mem_cons.1 hs with rfl | hs
      · exact ⟨Stanza.named_bare (by decide), by decide⟩
      · rw [List.mem_singleton.1 hs]
        exact ⟨Stanza.named_bare (by decide), by decide⟩
    rcases exists_start_answering (S := .transparent) hreadable with ⟨t, d, ht, hd, hstanzas⟩
    refine ⟨_, t, rfl, ht, d, hd, Decryptor.decrypt_of_not_alone ?_ []⟩
    rw [hstanzas]
    intro halone
    exact absurd (halone (Stanza.bare "scrypt") (List.mem_cons_self ..) rfl) (by decide)
  · have hreadable : ∀ s ∈ [[Stanza.bare "x"]].flatten, s.Readable := by
      intro s hs
      rw [List.mem_singleton.1 hs]
      exact ⟨Stanza.named_bare (by decide), by decide⟩
    rcases exists_start_answering (S := .transparent) hreadable with ⟨t, d, ht, hd, hstanzas⟩
    refine ⟨_, t, rfl, ht, d, hd, ?_⟩
    have halone : Decryptor.Alone d.header.stanzas := by
      rw [hstanzas]
      intro s hs _
      rw [List.mem_singleton.1 hs]
      rfl
    rw [Decryptor.decrypt_of_alone halone, hstanzas]
    rfl

end AgeCrypt
