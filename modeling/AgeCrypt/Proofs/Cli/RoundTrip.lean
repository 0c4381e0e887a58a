import AgeCrypt.Base64.Standard
import AgeCrypt.Cli.Run
import AgeCrypt.Proofs.Cli.Decrypt
import AgeCrypt.Proofs.Cli.Encrypt
import AgeCrypt.Proofs.File.RoundTrip
import AgeCrypt.Proofs.Keys.IdentityFile
import AgeCrypt.Toml.Standard

/-!
# A file through all commands

A key pair is made, a file is encrypted to its public key, and the result is decrypted with its
identity file.  Each command leaves files that the next one finds: the identity file holds the key
(`of_keygen_ok`), the output holds the file of what was read (`encrypt_to_key`), and the key opens
that (`exists_parts_of_recipient`).  So what comes out is what was read; and what was read is the
input, unless the output was made in its place (`run_decrypt_of_run_encrypt`).
-/

namespace AgeCrypt

open Crypto Payload Encryptor

variable {S : Suite}

namespace Cli

variable {host : Host}

/-- A file that can be read is there, so its content is what is loaded. -/
theorem loadConfig_of_read [Toml.Codec] {files : FileStore} {path : String} {b : Bytes}
    (h : files.read path = .ok b) : loadConfig files path = Config.parse path b := by
  rcases FileStore.of_read_ok h with ⟨place, hpath, hcontents⟩
  have hthere : files.exists? path = true := by
    rw [FileStore.exists?, hpath]
    exact FileStore.holds_of_contents hcontents
  simp only [loadConfig, hthere, if_true, h]

/-- Making a key pair shows the public key and leaves the identity file of the secret key. -/
theorem of_keygen_ok {path : String} (h : (keygen S host (some path)).result = .ok ()) :
    (keygen S host (some path)).notes =
        "Public key: " ++ ((SecretKey.generate host.tape).1.publicKey S).text ++ "\n" ∧
      (keygen S host (some path)).files.read path =
        .ok (Text.utf8 ((SecretKey.generate host.tape).1.fileText S)) := by
  unfold keygen at h ⊢
  dsimp only at h ⊢
  split at h
  · cases h
  · rename_i place files hmade
    refine ⟨rfl, ?_⟩
    rcases FileStore.of_createNew_ok hmade with ⟨hpath, hfile, rfl⟩
    refine FileStore.read_of_contents ?_ (FileStore.contents?_put_self _ place _)
    exact (FileStore.changedAt_put_put hfile _ _).locate_eq hpath

/-- The text of a public key is understood as that key. -/
theorem exists_encryptorForKeys [Base64] (k : PublicKey) :
    ∃ e, encryptorForKeys S [k.text] = .ok e ∧ e.recipients = [k].map (·.recipient S) := by
  refine ⟨⟨[k].map (·.recipient S)⟩, ?_, rfl⟩
  simp only [encryptorForKeys, parseRecipients, k.parse_text]
  rfl

/-- The identity file of a secret key is loaded as that key. -/
theorem loadIdentities_of_read {configured : Option String} {path : String} {k : SecretKey}
    (h : host.files.read path = .ok (Text.utf8 (k.fileText S))) :
    loadIdentities host configured [path] = .ok [k] := by
  rcases FileStore.of_read_ok h with ⟨place, hpath, hcontents⟩
  have hread : readIdentityFile host.files path = .ok [k] := by
    simp only [readIdentityFile, FileStore.openPlace_of_contents hpath hcontents,
      FileStore.readPlace_eq_ok_iff.2 hcontents, sourceOf]
    exact IdentityFile.read_fileText (holds_file _)
  simp only [loadIdentities, List.cons_ne_nil, if_false, readIdentities, hread, Except.map,
    List.append_nil]

/-- What is shown of a new key pair is the text of its public key. -/
theorem eq_text_of_shown {shown text : String}
    (h : "Public key: " ++ shown ++ "\n" = "Public key: " ++ text ++ "\n") : shown = text := by
  have hsame := congrArg String.toList h
  simp only [String.toList_append, List.append_cancel_right_eq, List.append_cancel_left_eq] at hsame
  exact String.toList_injective hsame

/-! ## Runs -/

section

variable [Base64] [Toml.Codec] {home : Option String} {asked : Invocation}

/-- Once the configuration is read, only the command matters. -/
theorem run_of_loadConfig {config : Config}
    (h : loadConfig host.files (Path.expandHome home asked.config) = .ok config) :
    run S host home asked =
      runCommand S host home (Path.expandHome home asked.config) config asked.command := by
  simp only [run, h]

/-- A command that succeeds has read its configuration. -/
theorem of_run_ok (h : (run S host home asked).result = .ok ()) :
    ∃ path config, run S host home asked = runCommand S host home path config asked.command := by
  unfold run at h ⊢
  dsimp only at h ⊢
  split at h
  · cases h
  · rename_i config _
    exact ⟨_, config, rfl⟩

/-- A whole run of `keygen` shows the public key and leaves the identity file. -/
theorem of_run_keygen_ok {path : String} (hasked : asked.command = .keygen (some path))
    (h : (run S host home asked).result = .ok ()) :
    (run S host home asked).notes =
        "Public key: " ++ ((SecretKey.generate host.tape).1.publicKey S).text ++ "\n" ∧
      (run S host home asked).files.read path =
        .ok (Text.utf8 ((SecretKey.generate host.tape).1.fileText S)) := by
  rcases of_run_ok h with ⟨_, _, hrun⟩
  simp only [hasked, runCommand] at hrun
  rw [hrun] at h ⊢
  exact of_keygen_ok h

/-- What is left of a file that was encrypted to a public key. -/
theorem of_run_encrypt_ok {k : PublicKey} {armored : Bool} {input output : String}
    (hasked : asked.command = .encrypt [k.text] false armored (some output) (some input))
    (hinput : Path.isDash input = false) (houtput : Path.isDash output = false)
    (h : (run S host home asked).result = .ok ()) :
    ∃ e source target content file, encryptorForKeys S [k.text] = .ok e ∧
      e.recipients = [k].map (·.recipient S) ∧
      host.files.locate input = .ok source ∧ host.files.locate output = .ok target ∧
      host.files.read input = .ok content ∧
      e.file S host.tape (if source = target then [] else content) = .ok file ∧
      (∃ dressed, (run S host home asked).files.contents? target = some (dress dressed file)) ∧
      FileStore.ChangedAt target host.files (run S host home asked).files := by
  rcases of_run_ok h with ⟨_, _, hrun⟩
  rcases exists_encryptorForKeys (S := S) k with ⟨e, he, hrecipients⟩
  simp only [hasked, runCommand, Bool.false_eq_true, if_false, he] at hrun
  rw [hrun] at h ⊢
  rcases encrypt_to_key hinput houtput hrecipients h with
    ⟨source, target, content, file, hsource, htarget, hcontent, hfile, hstored, hchanged⟩
  exact ⟨e, source, target, content, file, he, hrecipients, hsource, htarget, hcontent, hfile,
    ⟨_, hstored⟩, hchanged⟩

/-- Let a key pair be made and then a file be encrypted to the public key that was shown, both with
success.  Then decrypting the result with the identity file succeeds, and delivers what the input
held before it was encrypted, if input and output are two files.  If they are one, it delivers
nothing: the output was emptied before it was read as the input.

Each command runs on the files that the one before left.  The identity file must not be the output
of the second, and that not the output of the third; and a full last chunk must not pass for one
that others follow. -/
theorem run_decrypt_of_run_encrypt (hopen : S.OpensSealed) (hagree : S.AgreementCommutes)
    {h₁ h₂ h₃ : Host} {made sealed opened : Invocation} {keyPath shown input output : String}
    {armored : Bool} {destination : Option String}
    -- the key pair
    (hmade : made.command = .keygen (some keyPath))
    (hmade_ok : (run S h₁ home made).result = .ok ())
    (hshown : (run S h₁ home made).notes = "Public key: " ++ shown ++ "\n")
    -- the file
    (hsealed : sealed.command = .encrypt [shown] false armored (some output) (some input))
    (hsealed_files : h₂.files = (run S h₁ home made).files)
    (hsealed_ok : (run S h₂ home sealed).result = .ok ())
    (hinput : Path.isDash input = false) (houtput : Path.isDash output = false)
    (hkeyPath : h₂.files.locate keyPath ≠ h₂.files.locate output)
    (hlast : ∀ e w content, encryptorForKeys S [shown] = .ok e →
      e.start S ({} : ScriptedSink) h₂.tape = .ok w → h₂.files.read input = .ok content →
        LastChunkApart S w.key 0 content)
    -- what is done with it
    (hopened : opened.command = .decrypt [keyPath] false destination (some output))
    (hopened_files : h₃.files = (run S h₂ home sealed).files) {config : Config}
    (hconfig : loadConfig h₃.files (Path.expandHome home opened.config) = .ok config)
    {target : Endpoint} {files : FileStore}
    (htarget : openOutput h₃.files destination = .ok (target, files))
    (hapart : ∀ place, h₃.files.locate output = .ok place → target ≠ .file place) :
    ∃ content plaintext, h₂.files.read input = .ok content ∧
      run S h₃ home opened = deliver (.ok ()) files target plaintext ∧
      (h₂.files.locate input ≠ h₂.files.locate output → plaintext = content) ∧
      (h₂.files.locate input = h₂.files.locate output → plaintext = []) := by
  rcases of_run_keygen_ok hmade hmade_ok with ⟨hnotes, hidentity⟩
  cases eq_text_of_shown (hshown.symm.trans hnotes)
  generalize (SecretKey.generate h₁.tape).1 = k at hidentity hsealed hlast
  rcases of_run_encrypt_ok hsealed hinput houtput hsealed_ok with
    ⟨e, source, place, content, file, he, hrecipients, hsource, hplace, hcontent, hfile,
      ⟨dressed, hstored⟩, hchanged⟩
  rw [← hsealed_files] at hidentity
  rw [← hopened_files] at hstored hchanged
  have hread : ∀ w, e.start S ({} : ScriptedSink) h₂.tape = .ok w →
      LastChunkApart S w.key 0 (if source = place then [] else content) := by
    intro w hw
    split
    · exact .nil
    · exact hlast e w content he hw hcontent
  rcases exists_parts_of_recipient hopen hagree hrecipients hfile hread with
    ⟨stanzas, key, nonce, payload, hparts, hopens, hkeyed, hkey⟩
  have hkept : h₃.files.read keyPath = .ok (Text.utf8 (k.fileText S)) :=
    hchanged.read_eq hidentity (hplace ▸ hkeyPath)
  have hresult := hchanged.locate_eq hplace
  refine ⟨content, if source = place then [] else content, hcontent, ?_, ?_, ?_⟩
  · rw [run_of_loadConfig hconfig, hopened]
    exact decrypt_of_parts houtput hresult hstored hparts hopens hkeyed
      (loadIdentities_of_read hkept) hkey htarget (hapart place hresult)
  · rw [hsource, hplace]
    intro hne
    exact if_neg fun hsame => hne (congrArg Except.ok hsame)
  · rw [hsource, hplace]
    intro hsame
    exact if_pos (Except.ok.inj hsame)

end

/-- A store with an empty configuration and one file. -/
def sampleFiles : FileStore :=
  { files := [(["config"], []), (["p"], [104, 105])] }

def sampleKeygen : Invocation :=
  ⟨"config", none, .keygen (some "key")⟩

def sampleKeyHost : Host :=
  { files := sampleFiles, tape := sampleTape }

def sampleEncrypt (output : String) : Invocation :=
  ⟨"config", none, .encrypt [((SecretKey.generate sampleTape).1.publicKey .transparent).text] false
    true (some output) (some "p")⟩

theorem command_sampleEncrypt (output : String) : (sampleEncrypt output).command =
    .encrypt [((SecretKey.generate sampleTape).1.publicKey .transparent).text] false true
      (some output) (some "p") := rfl

def sampleFileHost : Host :=
  { files := (run .transparent sampleKeyHost none sampleKeygen).files, tape := Tape.cycle [2] }

def sampleDecrypt (output : String) : Invocation :=
  ⟨"config", none, .decrypt ["key"] false none (some output)⟩

def sampleOpenHost (output : String) : Host :=
  { files := (run .transparent sampleFileHost none (sampleEncrypt output)).files
    tape := sampleTape }

theorem read_config_sampleFileHost : sampleFileHost.files.read "config" = .ok [] := by
  decide +kernel

theorem result_sampleEncrypt {output : String} (houtput : Path.isDash output = false)
    (hcreated : (sampleFileHost.files.create output).isOk = true) :
    (run .transparent sampleFileHost none (sampleEncrypt output)).result = .ok () := by
  have hinput : Path.isDash "p" = false := by
    decide
  have hsource : sampleFileHost.files.openPlace "p" = .ok ["p"] := by
    decide +kernel
  have hcontent : sampleFileHost.files.readPlace ["p"] = .ok [104, 105] := by
    decide +kernel
  have hagreed : Suite.transparent.agree (freshSecret (FileKey.generate sampleFileHost.tape).2 0)
      ((SecretKey.generate sampleTape).1.publicKey .transparent).point ≠ Block.zeros 32 := by
    decide
  have hconfig : loadConfig sampleFileHost.files
      (Path.expandHome none (sampleEncrypt output).config) = .ok {} :=
    loadConfig_of_read read_config_sampleFileHost
  rcases exists_encryptorForKeys (S := .transparent)
    ((SecretKey.generate sampleTape).1.publicKey .transparent) with ⟨e, he, hrecipients⟩
  rw [run_of_loadConfig hconfig]
  simp only [command_sampleEncrypt, runCommand, Bool.false_eq_true, if_false, he]
  cases htarget : sampleFileHost.files.create output with
  | error cause =>
      rw [htarget] at hcreated
      cases hcreated
  | ok made => exact encrypt_ok_of_agree hinput houtput hrecipients hagreed hsource hcontent htarget

theorem loadConfig_sampleOpenHost {output : String} (houtput : Path.isDash output = false)
    (hsealed_ok : (run .transparent sampleFileHost none (sampleEncrypt output)).result = .ok ())
    (hapart : sampleFileHost.files.locate "config" ≠ sampleFileHost.files.locate output) :
    loadConfig (sampleOpenHost output).files "config" = .ok {} := by
  have hinput : Path.isDash "p" = false := by
    decide
  rcases of_run_encrypt_ok (command_sampleEncrypt output) hinput houtput hsealed_ok with
    ⟨-, -, target, -, -, -, -, -, htarget, -, -, -, hchanged⟩
  exact loadConfig_of_read (hchanged.read_eq read_config_sampleFileHost (htarget ▸ hapart))

/-- A file that is encrypted to another one comes out as it was.  One that is encrypted to itself,
under another path, comes out empty. -/
theorem run_decrypt_of_run_encrypt_two_outputs :
    (run .transparent (sampleOpenHost "q") none (sampleDecrypt "q")).stdout = [104, 105] ∧
      (run .transparent (sampleOpenHost "./p") none (sampleDecrypt "./p")).stdout = [] := by
  have hmade_ok : (run .transparent sampleKeyHost none sampleKeygen).result = .ok () := by
    decide +kernel
  have hmade : sampleKeygen.command = .keygen (some "key") := rfl
  have hmade_files : sampleFileHost.files =
      (run .transparent sampleKeyHost none sampleKeygen).files := rfl
  have hcontent : sampleFileHost.files.read "p" = .ok [104, 105] := by
    decide +kernel
  have hinput : Path.isDash "p" = false := by
    decide
  have hcase : ∀ output : String, Path.isDash output = false →
      (sampleFileHost.files.create output).isOk = true →
      sampleFileHost.files.locate "key" ≠ sampleFileHost.files.locate output →
      sampleFileHost.files.locate "config" ≠ sampleFileHost.files.locate output →
      ∃ plaintext,
        (run .transparent (sampleOpenHost output) none (sampleDecrypt output)).stdout = plaintext ∧
        (sampleFileHost.files.locate "p" ≠ sampleFileHost.files.locate output →
          plaintext = [104, 105]) ∧
        (sampleFileHost.files.locate "p" = sampleFileHost.files.locate output →
          plaintext = []) := by
    intro output houtput hcreated hkeyPath hconfig
    have hsealed_ok := result_sampleEncrypt houtput hcreated
    have hsealed_files : (sampleOpenHost output).files =
        (run .transparent sampleFileHost none (sampleEncrypt output)).files := rfl
    have hopened : (sampleDecrypt output).command =
        .decrypt ["key"] false none (some output) := rfl
    have hstandard : openOutput (sampleOpenHost output).files none =
        .ok (.standard, (sampleOpenHost output).files) := rfl
    rcases run_decrypt_of_run_encrypt Suite.transparent_opensSealed
      Suite.transparent_agreementCommutes hmade hmade_ok (of_run_keygen_ok hmade hmade_ok).1
      (command_sampleEncrypt output) hmade_files hsealed_ok hinput houtput hkeyPath
      (fun _ _ _ _ _ _ => transparent_lastChunkApart _ _ _) hopened hsealed_files
      (loadConfig_sampleOpenHost houtput hsealed_ok hconfig) hstandard
      (fun _ _ => Endpoint.noConfusion) with ⟨content, plaintext, hread, hrun, hapart, hsame⟩
    cases hcontent.symm.trans hread
    exact ⟨plaintext, congrArg Outcome.stdout hrun, hapart, hsame⟩
  rcases hcase "q" (by decide) (by decide +kernel) (by decide +kernel) (by decide +kernel) with
    ⟨plaintext, hplaintext, hapart, -⟩
  rcases hcase "./p" (by decide) (by decide +kernel) (by decide +kernel) (by decide +kernel) with
    ⟨emptied, hemptied, -, hsame⟩
  exact ⟨hplaintext.trans (hapart (by decide +kernel)), hemptied.trans (hsame (by decide +kernel))⟩

end Cli
end AgeCrypt
