import AgeCrypt.Cli.Decrypt
import AgeCrypt.Proofs.Cli.Host
import AgeCrypt.Proofs.File.Opening
import AgeCrypt.Proofs.Files.Output
import AgeCrypt.Proofs.Io.Copying

/-!
# What the `decrypt` command leaves

Before the output is opened, everything must have worked: the input has been read, it holds a file
in armor or not, and there are identities that find its file key.  `Unlocking` is all of that.
Without it the command fails as it found things (`Cli.decrypt_of_locked`); with it, the command
writes what is released of the payload, and fails just if something stopped that
(`Cli.decrypt_of_unlocking`).

A file that was written before and whose payload opens is a special case (`Cli.decrypt_of_parts`).
-/

namespace AgeCrypt

open ByteSource Buffered Crypto Payload Encryptor

/-- A file begins with a letter. -/
theorem Parts.not_hyphen [Base64] {S : Suite} {file : Bytes} {stanzas : List Stanza} {key : FileKey}
    {nonce : Block payloadNonceSize} {payload : Bytes}
    (h : Parts S file stanzas key nonce payload) : ¬ Bytes.ascii "-" <+: file := by
  intro hhyphen
  have hfirst : file.head? = some 97 := by
    rw [h.file_eq]
    rfl
  rcases hhyphen with ⟨rest, rfl⟩
  cases hfirst

namespace Cli

variable {S : Suite} {host : Host} {limits : ScryptLimits} {configured : Option String}
  {paths : List String}

/-- Opening a file that was not written to a passphrase takes the keys of the identity files. -/
theorem identitiesFor_of_loadIdentities [Base64] {keys : List SecretKey}
    (h : loadIdentities host configured paths = .ok keys) :
    identitiesFor S host limits configured paths false false =
      .ok (keys.map (·.identity S)) := by
  simp only [identitiesFor, h, Bool.false_eq_true, if_false, Except.map]

/-- Only a directory can be opened and not be read. -/
theorem eq_of_readInput_error {files : FileStore} {source : Endpoint} {e : IoError}
    (h : readInput host files source = .error e) : e = .system .isADirectory := by
  cases source with
  | standard => cases h
  | file place =>
      unfold readInput FileStore.readPlace at h
      dsimp only at h
      split at h
      · cases h
      · cases h
        rfl

def payloadResult (stop : Option IoError) : Except Report Unit :=
  match stop with
  | none => .ok ()
  | some cause => .error (cause.report.during "decrypting payload")

/-- The command succeeds just if nothing stopped the reading. -/
theorem payloadResult_eq_ok_iff {stop : Option IoError} :
    payloadResult stop = .ok () ↔ stop = none := by
  cases stop with
  | none => exact ⟨fun _ => rfl, fun _ => rfl⟩
  | some e => exact ⟨fun h => (by cases h), fun h => (by cases h)⟩

variable [Base64]

/-! ## Before the output -/

/-- How an input is unlocked: what was read of it holds a file whose header is right, and there are
identities that find its file key. -/
structure Unlocking (S : Suite) (host : Host) (limits : ScryptLimits) (configured : Option String)
    (paths : List String) (passphrase : Bool) (input : Option String) where
  source : Endpoint
  -- What was read of the input.
  content : Bytes
  stanzas : List Stanza
  key : FileKey
  nonce : Block payloadNonceSize
  payload : Bytes
  identities : List Identity
  opened : openInput host.files input = .ok source
  read : readInput host host.files source = .ok content
  parts : Parts S (Armor.unarmored content).bytes stanzas key nonce payload
  -- Whether a passphrase is asked for is told by the stanzas.
  identities_eq : identitiesFor S host limits configured paths passphrase
    (stanzas.any fun s => s.tag == passphraseTag) = .ok identities
  found : findFileKey identities stanzas = .ok key

namespace Unlocking

variable {passphrase : Bool} {input : Option String}

def payloadKey (u : Unlocking S host limits configured paths passphrase input) : Block 32 :=
  FileKey.payloadKey S u.key u.nonce.bytes

/-- What follows the payload: the end of the input, or the fault of its armor. -/
def ending (u : Unlocking S host limits configured paths passphrase input) : Option IoError :=
  (Armor.unarmored u.content).ending

def released (u : Unlocking S host limits configured paths passphrase input) : Released :=
  releaseFrom S u.payloadKey 0 u.payload u.ending

end Unlocking

variable {passphrase : Bool} {input output : Option String}

/-- It fails at its first bytes. -/
theorem start_of_directory :
    OpenedFile.start
        ({ inner := sourceOf (.error (.system .isADirectory)) } : Buffered ScriptedSource) =
      .error (.peek (.system .isADirectory)) := by
  rfl

/-- Where a file is opened with identities, they unlock the input. -/
theorem nonempty_unlocking {source : Endpoint} {content : Bytes}
    (hopened : openInput host.files input = .ok source)
    (hread : readInput host host.files source = .ok content) {file : OpenedFile ScriptedSource}
    (hfile : OpenedFile.start { inner := .ofBytes content } = .ok file)
    {identities : List Identity}
    (hids : identitiesFor S host limits configured paths passphrase file.isPassphrase =
      .ok identities)
    {r : PlaintextReader S ScriptedSource} (hr : file.decrypt S identities = .ok r) :
    Nonempty (Unlocking S host limits configured paths passphrase input) := by
  rcases Armor.isArmored_ofBytes content with ⟨b, hsniff, hb⟩
  rcases OpenedFile.parts_of_decrypt hsniff hb hfile hr with ⟨key, nonce, payload, hparts, hkey⟩
  rw [OpenedFile.isPassphrase_eq] at hids
  exact ⟨{
    source, content, key, nonce, payload, identities
    stanzas := file.header.stanzas
    opened := hopened
    read := hread
    parts := hparts
    identities_eq := hids
    found := hkey }⟩

/-- If nothing unlocks the input, the command fails before the output is opened. -/
theorem decrypt_of_locked
    (h : ¬ Nonempty (Unlocking S host limits configured paths passphrase input)) :
    ∃ r, decrypt S host limits configured paths passphrase input output = host.fail r := by
  unfold decrypt
  cases hopened : openInput host.files input with
  | error r => exact ⟨_, rfl⟩
  | ok source =>
      cases hread : readInput host host.files source with
      | error e =>
          cases eq_of_readInput_error hread
          dsimp only
          rw [hread, start_of_directory]
          exact ⟨_, rfl⟩
      | ok content =>
          dsimp only
          rw [hread]
          split
          · exact ⟨_, rfl⟩
          · exact ⟨_, rfl⟩
          · rename_i file hfile
            split
            · exact ⟨_, rfl⟩
            · rename_i identities hids
              cases hr : file.decrypt S identities with
              | error e => exact ⟨e.report.during "decrypting header", by rw [decryptWith, hr]⟩
              | ok r => exact absurd (nonempty_unlocking hopened hread hfile hids hr) h

/-! ## The output -/

namespace Unlocking

/-- An input that is unlocked gives a source of what is released of its payload. -/
theorem decrypt_eq (u : Unlocking S host limits configured paths passphrase input)
    (output : Option String) :
    ∃ (file : OpenedFile ScriptedSource) (r : PlaintextReader S ScriptedSource),
      decrypt S host limits configured paths passphrase input output =
          decryptWith S host u.source file u.identities output ∧
        file.decrypt S u.identities = .ok r ∧
        Gives r u.released.chunks.flatten u.released.stop := by
  rcases Armor.isArmored_ofBytes u.content with ⟨b, hsniff, hb⟩
  rcases OpenedFile.gives_of_parts hsniff hb u.parts with ⟨file, hfile, hstanzas, hdecrypts⟩
  rcases hdecrypts u.identities u.found with ⟨r, hr, hgives⟩
  refine ⟨file, r, ?_, hr, hgives⟩
  have hids := u.identities_eq
  rw [← hstanzas, ← OpenedFile.isPassphrase_eq] at hids
  simp only [decrypt, u.opened, u.read, sourceOf, hfile, hids]

end Unlocking

/-- If the output cannot be opened, nothing has changed. -/
theorem decrypt_of_unopened (u : Unlocking S host limits configured paths passphrase input)
    {r : Report} (h : openOutput host.files output = .error r) :
    decrypt S host limits configured paths passphrase input output = host.fail r := by
  rcases u.decrypt_eq output with ⟨file, reader, heq, hreader, -⟩
  rw [heq]
  simp only [decryptWith, hreader, h]

/-- An input that is unlocked is released to an output that is another file. -/
theorem decrypt_of_unlocking (u : Unlocking S host limits configured paths passphrase input)
    {target : Endpoint} {files : FileStore}
    (htarget : openOutput host.files output = .ok (target, files))
    (hapart : u.source = target → target = .standard) :
    decrypt S host limits configured paths passphrase input output =
      deliver (payloadResult u.released.stop) files target u.released.chunks.flatten := by
  rcases u.decrypt_eq output with ⟨file, reader, heq, hreader, gives, broken, G, hgives⟩
  have hcopied : ∃ s' f, ByteSink.copy reader ({} : OutputFile) =
        (ByteSink.copied u.released.stop, s', f) ∧
      HoldingSink.contents f = [] ++ u.released.chunks.flatten :=
    ByteSink.copy_to_holding G OutputFile.steady hgives trivial
  rcases hcopied with ⟨s', f, hcopy, hstored⟩
  rw [OutputFile.contents_eq, List.nil_append] at hstored
  have hlater : ¬ (u.source = target ∧ target ≠ .standard) :=
    fun h => h.2 (hapart h.1)
  rw [heq]
  simp only [decryptWith, hreader, htarget, if_neg hlater, hcopy]
  cases hstop : u.released.stop with
  | none =>
      simp only [ByteSink.copied, Option.elim, hstored, payloadResult]
  | some e =>
      simp only [ByteSink.copied, Option.elim, hstored, payloadResult]

/-! ## A file that was written before -/

section

variable {input : String} {source : Place} {armored : Bool} {file : Bytes} {stanzas : List Stanza}
  {key : FileKey} {nonce : Block payloadNonceSize} {payload plaintext : Bytes}
  {keys : List SecretKey}

/-- A file that was not written to a passphrase is unlocked by the keys of the identity files, if
one of them finds its file key. -/
def Unlocking.ofParts (hinput : Path.isDash input = false)
    (hsource : host.files.locate input = .ok source)
    (hstored : host.files.contents? source = some (dress armored file))
    (hparts : Parts S file stanzas key nonce payload)
    (hkeyed : ∀ s ∈ stanzas, s.tag ≠ passphraseTag)
    (hkeys : loadIdentities host configured paths = .ok keys)
    (hkey : findFileKey (keys.map (·.identity S)) stanzas = .ok key) :
    Unlocking S host limits configured paths false (some input) where
  source := .file source
  content := dress armored file
  stanzas := stanzas
  key := key
  nonce := nonce
  payload := payload
  identities := keys.map (·.identity S)
  opened := openInput_of_openPlace hinput (FileStore.openPlace_of_contents hsource hstored)
  read := FileStore.readPlace_eq_ok_iff.2 hstored
  parts := by
    rw [Armor.unarmored_dress hparts.not_hyphen]
    exact hparts
  identities_eq := by
    have hkeyless : (stanzas.any fun s => s.tag == passphraseTag) = false :=
      List.any_eq_false.2 fun s hs => by simpa using hkeyed s hs
    rw [hkeyless]
    exact identitiesFor_of_loadIdentities hkeys
  found := hkey

/-- The command opens a file that the identities find the file key of, and delivers the plaintext
to an output that is another file. -/
theorem decrypt_of_parts (hinput : Path.isDash input = false)
    (hsource : host.files.locate input = .ok source)
    (hstored : host.files.contents? source = some (dress armored file))
    (hparts : Parts S file stanzas key nonce payload)
    (hopen : openAll S (FileKey.payloadKey S key nonce.bytes) payload = (plaintext, none))
    (hkeyed : ∀ s ∈ stanzas, s.tag ≠ passphraseTag)
    (hkeys : loadIdentities host configured paths = .ok keys)
    (hkey : findFileKey (keys.map (·.identity S)) stanzas = .ok key)
    {target : Endpoint} {files : FileStore}
    (htarget : openOutput host.files output = .ok (target, files))
    (hapart : target ≠ .file source) :
    decrypt S host limits configured paths false (some input) output =
      deliver (.ok ()) files target plaintext := by
  let u : Unlocking S host limits configured paths false (some input) :=
    .ofParts hinput hsource hstored hparts hkeyed hkeys hkey
  have hending : (Armor.unarmored (dress armored file)).ending = none := by
    rw [Armor.unarmored_dress hparts.not_hyphen]
    rfl
  have hreleased : u.released =
      releaseFrom S (FileKey.payloadKey S key nonce.bytes) 0 payload none :=
    congrArg (releaseFrom S _ 0 payload) hending
  have hwhole := PayloadReader.released_none (S := S) (FileKey.payloadKey S key nonce.bytes) payload
  rw [hopen] at hwhole
  rw [decrypt_of_unlocking u htarget fun h => absurd h.symm hapart, hreleased, hwhole.1, hwhole.2]
  rfl

end

end Cli
end AgeCrypt
