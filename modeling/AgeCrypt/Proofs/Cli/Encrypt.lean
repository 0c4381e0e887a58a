import AgeCrypt.Cli.Encrypt
import AgeCrypt.Proofs.Cli.Host
import AgeCrypt.Proofs.File.Completeness
import AgeCrypt.Proofs.Files.Output
import AgeCrypt.Proofs.Io.Copying

/-!
# What the `encrypt` command leaves

The command opens its input, makes or empties its output, writes header and nonce, and only then
reads the input.  Header and nonce for one public key are short, so nothing of them has reached the
output by then (`start_gathers`): the input is read as it was before the command, unless it is the
output, and then there is nothing left of it (`encrypt_to_key`).
-/

namespace AgeCrypt

open Crypto Payload ByteSink Encryptor

variable [Base64]

/-! ## Sizes -/

/-- Padded base64 and line feeds take less than five times the room. -/
theorem Armor.length_ending_le (b : Bytes) : (ending b).length ≤ 5 * b.length + 33 := by
  have hmarker : (endMarker ++ [Ascii.newline]).length = 33 := by
    decide
  by_cases hb : b = []
  · rw [hb, ending_nil, hmarker]
    exact Nat.le_refl _
  · have hpos : 0 < b.length := List.length_pos_iff.2 hb
    have hshorter : (b.drop bytesPerLine).length < b.length := by
      rw [List.length_drop, bytesPerLine]
      omega
    have hrest := Armor.length_ending_le (b.drop bytesPerLine)
    rw [ending_of_ne_nil hb, List.length_append, dataLine, List.length_append,
      Base64.length_encodePadded, List.length_singleton, List.length_take]
    rw [List.length_drop] at hrest
    simp only [bytesPerLine] at hrest ⊢
    omega
termination_by b.length
decreasing_by exact hshorter

/-- The markers add their own lines. -/
theorem Armor.length_text_le (b : Bytes) : (text b).length ≤ 5 * b.length + 68 := by
  have hmarker : [beginMarker, [Ascii.newline]].flatten.length = 35 := by
    decide
  have hending := Armor.length_ending_le b
  rw [text_eq, List.length_append, hmarker]
  omega

/-- A header for one public key always takes the same room. -/
theorem Header.length_encode_keyPair {S : Suite} {header : Header} {k : PublicKey} {key : FileKey}
    {secret : Block 32} (h : header.stanzas = [k.stanzaFrom S key secret]) :
    header.encode.length = 168 := by
  have hbody : (k.stanzaFrom S key secret).body.length = 32 := FileKey.length_wrap _ _
  have hshort : ((k.stanzaFrom S key secret).body.take bytesPerLine).length < bytesPerLine := by
    rw [List.length_take, hbody]
    decide
  have hstanza : (k.stanzaFrom S key secret).encode.length = 98 := by
    rw [Stanza.encode, Stanza.encodeBody, if_pos hshort]
    simp only [List.length_append, List.length_singleton, Base64.length_encode, hbody,
      k.length_openingLine_stanzaFrom]
  have hintro : intro.length = 21 := by
    decide
  have hmark : closingMark.length = 3 := by
    decide
  simp only [encode, signedBytes, h, List.flatMap_singleton, List.length_append,
    List.length_singleton, Base64.length_encode, header.mac.length_eq, hstanza, hintro, hmark]

namespace Cli

variable {S : Suite} {e : Encryptor} {tape : Tape} {τ : Type} [ByteSink τ]

/-! ## Writing to a sink -/

section

variable {awaits : τ → Bytes → Prop} {safe stays : τ → Prop} {sink : τ} {b out : Bytes}

/-- Over a sink that does not fail and awaits the file of what is read, the file is written. -/
theorem encryptTo_of_file (hsteady : Steady stays) (I : Intake awaits safe) (hstays : stays sink)
    (plaintext : τ → Except IoError Bytes) {w : PayloadWriter S τ}
    (hstart : e.start S sink tape = .ok w)
    (hread : plaintext w.inner = .ok b) (hfile : e.file S tape b = .ok out) (h : awaits sink out) :
    ∃ t, encryptTo S e tape plaintext sink = (.ok (), t) ∧ stays t ∧ awaits t [] := by
  rcases file_eq_ok_iff.1 hfile with ⟨header, tape', hheader, rfl⟩
  rw [List.append_assoc] at h
  rcases start_of_taking hsteady I.toTaking hstays hheader h with ⟨u, hu, hready, hpayload⟩
  cases hstart.symm.trans hu
  have hsealing : PayloadWriter.Sealing awaits safe
      (PayloadWriter.start S (payloadKeyAt S (FileKey.generate tape).1 tape') u) (b ++ []) := by
    rw [List.append_nil]
    exact .start hpayload
  have hstarted : (PayloadWriter.start S (payloadKeyAt S (FileKey.generate tape).1 tape') u).Ready
      stays := ⟨rfl, hready⟩
  rcases copy_of_taking (PayloadWriter.steady hsteady) (PayloadWriter.Sealing.intake I).toTaking
    (ScriptedSource.delivers_ofBytes b) hstarted hsealing with ⟨rest, v, hcopy, hcopied, hsealed⟩
  rcases hcopied.finish hsteady with ⟨t, ht, hstays⟩
  have hfinish := hsealed.finish I
  rw [ht] at hfinish
  refine ⟨t, ?_, hstays, hfinish.of_ok⟩
  simp only [encryptTo, hstart, hread, hcopy, ht]

/-- The same in armor. -/
theorem encryptArmoredTo_of_file (hsteady : Steady stays) (I : Intake awaits safe)
    (hstays : stays sink) (plaintext : τ → Except IoError Bytes) {w : ArmorWriter τ}
    (harmor : ArmorWriter.start sink = .ok w)
    {v : PayloadWriter S (ArmorWriter τ)} (hstart : e.start S w tape = .ok v)
    (hread : plaintext v.inner.inner = .ok b) (hfile : e.file S tape b = .ok out)
    (h : awaits sink (Armor.text out)) :
    ∃ t, encryptArmoredTo S e tape plaintext sink = (.ok (), t) ∧ stays t ∧ awaits t [] := by
  rcases ArmorWriter.start_of_taking hsteady I.toTaking hstays h with ⟨u, hu, hstarted, harmoring⟩
  cases harmor.symm.trans hu
  rcases encryptTo_of_file (ArmorWriter.steady hsteady) (ArmorWriter.Armoring.intake I) hstarted
    (fun w => plaintext w.inner) hstart hread hfile harmoring with ⟨u, hu, hwritten, hended⟩
  rcases ArmorWriter.finish_of_steady hsteady hwritten with ⟨t, ht, hstays⟩
  have hfinish := hended.finish I
  rw [ht] at hfinish
  refine ⟨t, ?_, hstays, hfinish.of_ok⟩
  simp only [encryptArmoredTo, harmor, hu, ht]

end

/-- Without a header nothing is written with success. -/
theorem exists_header_of_encryptTo {sink : τ} {plaintext : τ → Except IoError Bytes}
    (h : (encryptTo S e tape plaintext sink).1 = .ok ()) :
    ∃ header tape', e.header S (FileKey.generate tape).1 (FileKey.generate tape).2 =
      .ok (header, tape') := by
  cases hheader : e.header S (FileKey.generate tape).1 (FileKey.generate tape).2 with
  | ok made => exact ⟨made.1, made.2, rfl⟩
  | error cause =>
      have hstart : e.start S sink tape = .error (cause, sink) := by
        simp only [Encryptor.start, hheader]
      simp only [encryptTo, hstart] at h
      cases h

def encryptAs (S : Suite) (e : Encryptor) (armored : Bool) (tape : Tape)
    (plaintext : τ → Except IoError Bytes) (sink : τ) : Except Report Unit × τ :=
  if armored then encryptArmoredTo S e tape plaintext sink else encryptTo S e tape plaintext sink

/-- Without a header nothing is written with success, in armor or not. -/
theorem exists_header_of_encryptAs {armored : Bool} {sink : τ}
    {plaintext : τ → Except IoError Bytes}
    (h : (encryptAs S e armored tape plaintext sink).1 = .ok ()) :
    ∃ header tape', e.header S (FileKey.generate tape).1 (FileKey.generate tape).2 =
      .ok (header, tape') := by
  cases armored with
  | false => exact exists_header_of_encryptTo h
  | true =>
      simp only [encryptAs, if_true, encryptArmoredTo] at h
      split at h
      · cases h
      · split at h
        · cases h
        · rename_i hwritten
          exact exists_header_of_encryptTo (congrArg Prod.fst hwritten)

/-! ## Writing to a file -/

section

variable {header : Header} {tape' : Tape}

/-- Header and nonce for one public key are gathered: none of them has reached the file. -/
theorem start_gathers
    (hheader : e.header S (FileKey.generate tape).1 (FileKey.generate tape).2 =
      .ok (header, tape')) (hlen : header.encode.length = 168) :
    ∃ w, e.start S ({} : OutputFile) tape = .ok w ∧ w.inner.contents = [] := by
  have hfits : OutputFile.Gathering {}
      (header.encode ++ ((tape'.draw payloadNonceSize).1.bytes ++ [])) := by
    refine ⟨rfl, ?_⟩
    rw [List.append_nil, List.length_append, hlen, (tape'.draw payloadNonceSize).1.length_eq]
    decide
  rcases start_of_taking OutputFile.steady OutputFile.taking_gathering trivial hheader hfits with
    ⟨u, hu, -, h⟩
  exact ⟨_, hu, h.contents_eq⟩

/-- In armor, too, header and nonce stay in the buffer of the output. -/
theorem start_gathers_armored
    (hheader : e.header S (FileKey.generate tape).1 (FileKey.generate tape).2 =
      .ok (header, tape')) (hlen : header.encode.length = 168) :
    ∃ w v, ArmorWriter.start ({} : OutputFile) = .ok w ∧ e.start S w tape = .ok v ∧
      v.inner.inner.contents = [] := by
  have hfits : OutputFile.Gathering {}
      (Armor.text (header.encode ++ ((tape'.draw payloadNonceSize).1.bytes ++ []))) := by
    have htext := Armor.length_text_le
      (header.encode ++ ((tape'.draw payloadNonceSize).1.bytes ++ []))
    have hnonce : (tape'.draw payloadNonceSize).1.bytes.length = 16 :=
      (tape'.draw payloadNonceSize).1.length_eq
    refine ⟨rfl, ?_⟩
    rw [List.append_nil, List.length_append, hlen, hnonce] at htext
    rw [List.append_nil]
    change 0 + _ < 8192
    omega
  rcases ArmorWriter.start_of_taking OutputFile.steady OutputFile.taking_gathering trivial hfits with
    ⟨w, hw, -, harmoring⟩
  rcases start_of_taking (ArmorWriter.steady OutputFile.steady)
    (ArmorWriter.Armoring.taking OutputFile.taking_gathering) trivial hheader harmoring with
    ⟨v, hv, -, h⟩
  exact ⟨w, _, hw, hv, h.awaits_ending.contents_eq⟩

/-- A file for one public key is written, and its plaintext is read when nothing has reached the
output yet. -/
theorem encryptAs_of_header (armored : Bool)
    (hheader : e.header S (FileKey.generate tape).1 (FileKey.generate tape).2 =
      .ok (header, tape')) (hlen : header.encode.length = 168)
    {plaintext : OutputFile → Except IoError Bytes} {b : Bytes}
    (hread : ∀ f, f.contents = [] → plaintext f = .ok b) :
    ∃ out f, e.file S tape b = .ok out ∧
      encryptAs S e armored tape plaintext ({} : OutputFile) = (.ok (), f) ∧
      f.written.toList = dress armored out := by
  obtain ⟨out, hfile⟩ : ∃ out, e.file S tape b = .ok out :=
    ⟨_, file_eq_ok_iff.2 ⟨header, tape', hheader, rfl⟩⟩
  have hintake := HoldingSink.intake (τ := OutputFile) (dress armored out)
  cases armored with
  | false =>
      rcases start_gathers hheader hlen with ⟨w, hw, hgathered⟩
      rcases encryptTo_of_file OutputFile.steady hintake trivial plaintext hw (hread _ hgathered)
        hfile (List.nil_append _) with ⟨f, hf, -, hended⟩
      exact ⟨out, f, hfile, hf, by simpa [OutputFile.contents_eq] using hended⟩
  | true =>
      rcases start_gathers_armored hheader hlen with ⟨w, v, hw, hv, hgathered⟩
      rcases encryptArmoredTo_of_file OutputFile.steady hintake trivial plaintext hw hv
        (hread _ hgathered) hfile (List.nil_append _) with ⟨f, hf, -, hended⟩
      exact ⟨out, f, hfile, hf, by simpa [OutputFile.contents_eq] using hended⟩

/-- Where the plaintext cannot be read, the file is not written with success. -/
theorem exists_plaintext_of_encryptAs {armored : Bool}
    (hheader : e.header S (FileKey.generate tape).1 (FileKey.generate tape).2 =
      .ok (header, tape')) (hlen : header.encode.length = 168)
    {plaintext : OutputFile → Except IoError Bytes} {answer : Except IoError Bytes}
    (hread : ∀ f, f.contents = [] → plaintext f = answer)
    (h : (encryptAs S e armored tape plaintext ({} : OutputFile)).1 = .ok ()) :
    ∃ b, answer = .ok b := by
  cases answer with
  | ok b => exact ⟨b, rfl⟩
  | error cause =>
      cases armored with
      | false =>
          rcases start_gathers hheader hlen with ⟨w, hw, hgathered⟩
          simp only [encryptAs, Bool.false_eq_true, if_false, encryptTo, hw, hread _ hgathered] at h
          cases h
      | true =>
          rcases start_gathers_armored hheader hlen with ⟨w, v, hw, hv, hgathered⟩
          simp only [encryptAs, if_true, encryptArmoredTo, encryptTo, hw, hv,
            hread _ hgathered] at h
          cases h

end

/-! ## The command -/

section

variable {host : Host} {armored : Bool} {input output : String}

/-- What the command reads when its output holds what `f` has stored. -/
def plaintextAt (files : FileStore) (source target : Place) (f : OutputFile) :
    Except IoError Bytes :=
  (files.put target f.contents).readPlace source

omit [Base64] in
/-- An output to which nothing has been stored is empty, but other files are as they were. -/
theorem plaintextAt_of_nothing {files : FileStore} {source target : Place} {f : OutputFile}
    (h : f.contents = []) :
    plaintextAt (files.put target []) source target f =
      if source = target then .ok [] else files.readPlace source := by
  rw [plaintextAt, h]
  by_cases hsame : source = target
  · rw [if_pos hsame, FileStore.readPlace_eq_ok_iff, hsame, FileStore.contents?_put_self]
  · rw [if_neg hsame, FileStore.readPlace, FileStore.contents?_put_of_ne _ _ hsame,
      FileStore.contents?_put_of_ne _ _ hsame]
    rfl

omit [Base64] in
/-- What is read is the content, unless the output has taken its place. -/
theorem plaintextAt_of_content {files : FileStore} {source target : Place} {content : Bytes}
    (hcontent : files.readPlace source = .ok content) {f : OutputFile} (h : f.contents = []) :
    plaintextAt (files.put target []) source target f =
      .ok (if source = target then [] else content) := by
  rw [plaintextAt_of_nothing h, hcontent]
  split <;> rfl

/-- The command between two files. -/
theorem encrypt_eq (hinput : Path.isDash input = false) (houtput : Path.isDash output = false)
    {source target : Place} {files : FileStore} (hsource : host.files.openPlace input = .ok source)
    (htarget : host.files.create output = .ok (target, files)) :
    encrypt S host e armored (some input) (some output) =
      deliver (encryptAs S e armored host.tape (plaintextAt files source target) {}).1 files
        (.file target)
        (encryptAs S e armored host.tape (plaintextAt files source target) {}).2.written.toList := by
  simp only [encrypt, filePath_of_file houtput, openInput_of_openPlace hinput hsource,
    openOutput_of_create houtput htarget, Option.isNone_some, Bool.false_eq_true, false_and,
    if_false]
  rfl

/-- If the command succeeds between two files, both could be opened. -/
theorem of_encrypt_ok (hinput : Path.isDash input = false) (houtput : Path.isDash output = false)
    (h : (encrypt S host e armored (some input) (some output)).result = .ok ()) :
    ∃ source target files, host.files.openPlace input = .ok source ∧
      host.files.create output = .ok (target, files) := by
  simp only [encrypt, filePath_of_file houtput, Option.isNone_some, Bool.false_eq_true, false_and,
    if_false] at h
  split at h
  · cases h
  · rename_i opened hopened
    split at h
    · cases h
    · rename_i made files hmade
      rcases of_openInput_ok hinput hopened with ⟨source, rfl, hsource⟩
      rcases of_openOutput_ok houtput hmade with ⟨target, rfl, htarget⟩
      exact ⟨source, target, files, hsource, htarget⟩

/-- The header of a file for one public key has one stanza. -/
theorem length_header_of_recipient {k : PublicKey} {key : FileKey} {tape' : Tape} {header : Header}
    (hrecipients : e.recipients = [k].map (·.recipient S))
    (hheader : e.header S key tape = .ok (header, tape')) : header.encode.length = 168 := by
  rcases header_eq_ok_iff.1 hheader with ⟨hwrapped, -, -⟩
  rw [hrecipients] at hwrapped
  exact Header.length_encode_keyPair (of_wrapAll_keyPairs hwrapped).1

/-- The command writes the file of what it reads. -/
theorem encrypt_of_header (armored : Bool) (hinput : Path.isDash input = false)
    (houtput : Path.isDash output = false)
    {source target : Place} {files : FileStore} (hsource : host.files.openPlace input = .ok source)
    (htarget : host.files.create output = .ok (target, files)) {header : Header} {tape' : Tape}
    (hheader : e.header S (FileKey.generate host.tape).1 (FileKey.generate host.tape).2 =
      .ok (header, tape')) (hlen : header.encode.length = 168) {b : Bytes}
    (hread : ∀ f : OutputFile, f.contents = [] → plaintextAt files source target f = .ok b) :
    ∃ out, e.file S host.tape b = .ok out ∧
      encrypt S host e armored (some input) (some output) =
        deliver (.ok ()) files (.file target) (dress armored out) := by
  rcases encryptAs_of_header armored hheader hlen hread with ⟨out, f, hout, hf, hwritten⟩
  refine ⟨out, hout, ?_⟩
  rw [encrypt_eq hinput houtput hsource htarget, hf, hwritten]

/-- The command succeeds if the input can be read and the output made, and the public key agrees on
something. -/
theorem encrypt_ok_of_agree (hinput : Path.isDash input = false)
    (houtput : Path.isDash output = false) {k : PublicKey}
    (hrecipients : e.recipients = [k].map (·.recipient S))
    (hagreed : S.agree (freshSecret (FileKey.generate host.tape).2 0) k.point ≠ Block.zeros 32)
    {source target : Place} {files : FileStore} {content : Bytes}
    (hsource : host.files.openPlace input = .ok source)
    (hcontent : host.files.readPlace source = .ok content)
    (htarget : host.files.create output = .ok (target, files)) :
    (encrypt S host e armored (some input) (some output)).result = .ok () := by
  have he : e = ⟨[k].map (·.recipient S)⟩ := congrArg Encryptor.mk hrecipients
  have hshared : ∀ i l, [k][i]? = some l →
      S.agree (freshSecret (FileKey.generate host.tape).2 i) l.point ≠ Block.zeros 32 := by
    intro i l hl
    rcases List.getElem?_eq_some_iff.1 hl with ⟨hi, rfl⟩
    cases Nat.lt_one_iff.1 hi
    exact hagreed
  rcases exists_header_keyPairs (FileKey.generate host.tape).1 hshared with ⟨header, tape', hheader⟩
  rcases FileStore.of_create_ok htarget with ⟨-, -, rfl⟩
  rcases encrypt_of_header armored hinput houtput hsource htarget hheader
    (length_header_of_recipient rfl hheader) (fun f => plaintextAt_of_content hcontent) with
    ⟨out, -, hencrypt⟩
  rw [he, hencrypt]
  rfl

/-- What the command writes to one public key: the input as it was before, unless input and output
are one file.  Then the output was emptied before it was read as the input. -/
theorem encrypt_to_key (hinput : Path.isDash input = false) (houtput : Path.isDash output = false)
    {k : PublicKey} (hrecipients : e.recipients = [k].map (·.recipient S))
    (h : (encrypt S host e armored (some input) (some output)).result = .ok ()) :
    ∃ source target content out, host.files.locate input = .ok source ∧
      host.files.locate output = .ok target ∧ host.files.read input = .ok content ∧
      e.file S host.tape (if source = target then [] else content) = .ok out ∧
      (encrypt S host e armored (some input) (some output)).files.contents? target =
        some (dress armored out) ∧
      FileStore.ChangedAt target host.files
        (encrypt S host e armored (some input) (some output)).files := by
  rcases of_encrypt_ok hinput houtput h with ⟨source, target, files, hsource, htarget⟩
  rcases FileStore.of_create_ok htarget with ⟨hlocate, hfile, rfl⟩
  have hwritten : (encryptAs S e armored host.tape
      (plaintextAt (host.files.put target []) source target) {}).1 = .ok () := by
    rw [encrypt_eq hinput houtput hsource htarget] at h
    exact h
  rcases exists_header_of_encryptAs hwritten with ⟨header, tape', hheader⟩
  have hlen := length_header_of_recipient hrecipients hheader
  have hopened := FileStore.openPlace_eq_ok_iff.1 hsource
  obtain ⟨content, hcontent⟩ : ∃ content, host.files.readPlace source = .ok content := by
    by_cases hsame : source = target
    · exact FileStore.exists_readPlace_eq_ok hopened.2 (hsame ▸ hfile)
    · rcases exists_plaintext_of_encryptAs hheader hlen (fun f => plaintextAt_of_nothing) hwritten
        with ⟨content, hcontent⟩
      rw [if_neg hsame] at hcontent
      exact ⟨content, hcontent⟩
  rcases encrypt_of_header armored hinput houtput hsource htarget hheader hlen
    (fun f => plaintextAt_of_content hcontent) with ⟨out, hout, hencrypt⟩
  rw [hencrypt]
  exact ⟨source, target, content, out, hopened.1, hlocate,
    (FileStore.read_of_openPlace hsource).trans hcontent, hout,
    FileStore.contents?_put_self _ _ _, FileStore.changedAt_put_put hfile [] _⟩

end

end Cli
end AgeCrypt
