import AgeCrypt.Base64.Standard
import AgeCrypt.Proofs.Cli.Decrypt
import AgeCrypt.Proofs.Crypto.Transparent
import AgeCrypt.Proofs.File.Limits

/-!
# The `decrypt` command writes nothing unauthentic

An input is unlocked (`Unlocking`) before the output is opened, or nothing happens at all.  What is
then written is the plaintext of chunks that open one after another (`Payload.Releases`), and the
command succeeds just if they are the whole payload.  This holds of any input, be it a file, the
torn front of one, or no file at all (`Cli.decrypt_writes_authentic`).
-/

namespace AgeCrypt
namespace Cli

open Crypto Payload

/-- What is left of an output that was made at a place: it holds `b`, and nothing else has
changed. -/
structure Stored (host : Host) (path : String) (place : Place) (b : Bytes) (o : Outcome) :
    Prop where
  read_eq : o.files.read path = .ok b
  changedAt : FileStore.ChangedAt place host.files o.files
  stdout_eq : o.stdout = []

/-- What is delivered to a file that was just made is all that changes. -/
theorem stored_deliver {host : Host} {path : String} {place : Place} {files : FileStore}
    (h : host.files.create path = .ok (place, files)) (result : Except Report Unit) (b : Bytes) :
    Stored host path place b (deliver result files (.file place) b) := by
  rcases FileStore.of_create_ok h with ⟨hpath, hfile, rfl⟩
  have hchanged : FileStore.ChangedAt place host.files ((host.files.put place []).put place b) :=
    FileStore.changedAt_put_put hfile [] b
  exact {
    read_eq := FileStore.read_of_contents (hchanged.locate_eq hpath)
      (FileStore.contents?_put_self _ place b)
    changedAt := hchanged
    stdout_eq := rfl }

/-- If nothing unlocks the input, the command fails and everything stays as it was; the output is
not even made.  If something does, the command writes the chunks that are released of the payload:
each opens under its own number, and where the reading stops the next one is refused.  It succeeds
just if the reading does not stop before the end of the last chunk.

The output must be another file than the input.  If it cannot be opened, nothing is written. -/
theorem decrypt_writes_authentic [Base64] (S : Suite) (host : Host) (limits : ScryptLimits)
    (configured : Option String) (paths : List String) (passphrase : Bool)
    (input output : Option String) :
    let o := decrypt S host limits configured paths passphrase input output
    (¬ Nonempty (Unlocking S host limits configured paths passphrase input) →
      ∃ r, o = host.fail r) ∧
    ∀ u : Unlocking S host limits configured paths passphrase input,
      Releases S u.payloadKey 0 u.payload u.ending u.released ∧
      (∀ r, openOutput host.files output = .error r → o = host.fail r) ∧
      (filePath output = none →
        o.stdout = u.released.chunks.flatten ∧ o.files = host.files ∧
          (o.result = .ok () ↔ u.released.stop = none)) ∧
      ∀ path place files, filePath output = some path →
        host.files.create path = .ok (place, files) → u.source ≠ .file place →
          Stored host path place u.released.chunks.flatten o ∧
            (o.result = .ok () ↔ u.released.stop = none) := by
  intro o
  refine ⟨decrypt_of_locked, fun u => ?_⟩
  refine ⟨releases_iff.2 rfl, fun r => decrypt_of_unopened u, ?_, ?_⟩
  · intro hstandard
    have htarget : openOutput host.files output = .ok (.standard, host.files) := by
      simp only [openOutput, hstandard]
    have ho : o = _ := decrypt_of_unlocking u htarget fun _ => rfl
    rw [ho]
    exact ⟨rfl, rfl, payloadResult_eq_ok_iff⟩
  · intro path place files hpath hcreated hapart
    have htarget : openOutput host.files output = .ok (.file place, files) := by
      simp only [openOutput, hpath, hcreated]
    have ho : o = _ := decrypt_of_unlocking u htarget fun h => absurd h hapart
    rw [ho]
    exact ⟨stored_deliver hcreated _ _, payloadResult_eq_ok_iff⟩

/-! ## The torn front of a file -/

def tornWrapping : Block 32 :=
  .pad 32 (Text.utf8 "p" ++ (Bytes.ascii "age-encryption.org/v1/scrypt" ++ (Block.zeros 16).bytes))

def tornStanza : Stanza :=
  (PassphraseRecipient.under ⟨2, 3⟩ "p").stanzaFrom .transparent (Block.zeros fileKeySize)
    (Block.zeros 16) tornWrapping

def tornKey : Block 32 :=
  FileKey.payloadKey .transparent (Block.zeros fileKeySize) (Block.zeros payloadNonceSize).bytes

def tornChunk : Bytes :=
  List.replicate chunkSize 7

/-- A full chunk that others follow, and one byte of the next. -/
def tornPayload : Bytes :=
  Suite.transparent.encrypt tornKey (nonce 0 false) tornChunk ++ [0]

def tornFile : Bytes :=
  Header.encode ⟨[tornStanza], FileKey.mac .transparent (Block.zeros fileKeySize) [tornStanza]⟩ ++
    (Block.zeros payloadNonceSize).bytes ++ tornPayload

def tornHost : Host :=
  { files := { files := [(["t"], tornFile)] }, passphrases := ["p"], tape := sampleTape }

theorem parts_tornFile : Parts .transparent tornFile [tornStanza] (Block.zeros fileKeySize)
    (Block.zeros payloadNonceSize) tornPayload where
  file_eq := rfl
  readable := by
    intro s hs
    rw [List.mem_singleton.1 hs]
    exact PassphraseRecipient.readable_stanzaFrom (by decide) _ _ _
  alone := ScryptLimits.alone_of_singleton rfl

/-- The first chunk opens, and the byte behind it is too short for a chunk. -/
theorem released_tornPayload : releaseFrom .transparent tornKey 0 tornPayload none =
    ⟨[tornChunk], some (.payload .unauthentic)⟩ := by
  have hlen : (Suite.transparent.encrypt tornKey (nonce 0 false) tornChunk).length =
      sealedSize := by
    rw [Suite.length_encrypt, tornChunk, List.length_replicate, sealedSize]
  have hfirst : Opened .transparent tornKey 0 tornPayload tornChunk false := by
    refine .middle ?_ ?_
    · rw [tornPayload, List.length_append, hlen]
      exact Nat.le_add_right _ _
    · rw [tornPayload, List.take_left' hlen]
      exact Suite.transparent_opensSealed _ _ _
  have hsecond : Refused .transparent tornKey 1 [0] none (.payload .unauthentic) := by
    have hnone : ∀ last, Suite.transparent.decrypt? tornKey (nonce 1 last) [0] = none := by
      intro last
      refine Option.eq_none_iff_forall_ne_some.2 fun p hp => ?_
      have hsize := Suite.transparent.length_of_decrypt hp
      rw [tagSize, List.length_singleton] at hsize
      omega
    exact .unauthentic (.inr rfl) (List.cons_ne_nil _ _) (by decide) (fun _ => hnone _) (hnone _)
  have hbehind : tornPayload.drop sealedSize = [0] := List.drop_left' hlen
  rw [← hbehind] at hsecond
  exact (releases_iff.1 ((Releases.of_refused hsecond).cons hfirst)).symm

def tornUnlocking : Unlocking .transparent tornHost ⟨2, 3⟩ none [] false (some "t") where
  source := .file ["t"]
  content := tornFile
  stanzas := [tornStanza]
  key := Block.zeros fileKeySize
  nonce := Block.zeros payloadNonceSize
  payload := tornPayload
  identities := [(PassphraseIdentity.under ⟨2, 3⟩ "p").identity .transparent]
  opened := openInput_of_openPlace (by decide) (by decide +kernel)
  read := rfl
  parts := by
    rw [Armor.unarmored_of_unmarked (Armor.isMarked_of_binary parts_tornFile.not_hyphen)]
    exact parts_tornFile
  identities_eq := rfl
  found := by
    have hwrapping : passphraseWrapping .transparent "p" (Block.zeros 16) 2 = some tornWrapping :=
      rfl
    have hstanza : (PassphraseIdentity.under ⟨2, 3⟩ "p").unwrapStanza .transparent
        ((PassphraseRecipient.under ⟨2, 3⟩ "p").stanzaFrom .transparent (Block.zeros fileKeySize)
          (Block.zeros 16) tornWrapping) = .ok (Block.zeros fileKeySize) :=
      PassphraseIdentity.unwrapStanza_own Suite.transparent_opensSealed (by decide) rfl (by decide)
        hwrapping
    exact findFileKey_of_ok ((Identity.byStanza_unwrap_singleton tornStanza).trans hstanza) []

theorem released_tornUnlocking :
    tornUnlocking.released = ⟨[tornChunk], some (.payload .unauthentic)⟩ := by
  have hending : tornUnlocking.ending = none := by
    rw [Unlocking.ending]
    change (Armor.unarmored tornFile).ending = none
    rw [Armor.unarmored_of_unmarked (Armor.isMarked_of_binary parts_tornFile.not_hyphen)]
    rfl
  rw [Unlocking.released, hending]
  exact released_tornPayload

def tornRun (input : String) (output : Option String) : Outcome :=
  decrypt .transparent tornHost ⟨2, 3⟩ none [] false (some input) output

theorem locate_tornHost : tornHost.files.locate "q" = .ok ["q"] := by
  decide +kernel

/-- The first chunk of a torn file is written, to a file or to standard output, and the command
fails.  Where there is no input, or no way to the output, nothing happens. -/
theorem decrypt_writes_authentic_torn :
    ((tornRun "t" (some "q")).files.read "q" = .ok tornChunk ∧
        (tornRun "t" (some "q")).result ≠ .ok ()) ∧
      ((tornRun "t" none).stdout = tornChunk ∧ (tornRun "t" none).result ≠ .ok ()) ∧
      (∃ r, tornRun "t" (some "no/q") = tornHost.fail r) ∧
      ∃ r, tornRun "no" (some "q") = tornHost.fail r := by
  have hchunks : tornUnlocking.released.chunks.flatten = tornChunk := by
    rw [released_tornUnlocking, List.flatten_singleton]
  have hstop : tornUnlocking.released.stop ≠ none := by
    rw [released_tornUnlocking]
    exact Option.some_ne_none _
  have hcase := fun input output =>
    decrypt_writes_authentic .transparent tornHost ⟨2, 3⟩ none [] false (some input) output
  refine ⟨?_, ?_, ?_, ?_⟩
  · rcases (hcase "t" (some "q")).2 tornUnlocking with ⟨-, -, -, hfile⟩
    have hcreated : (tornHost.files.create "q").isOk = true := by
      decide +kernel
    cases hcreate : tornHost.files.create "q" with
    | error e =>
        rw [hcreate] at hcreated
        cases hcreated
    | ok made =>
        have hplace : made.1 = ["q"] :=
          Except.ok.inj ((FileStore.of_create_ok hcreate).1.symm.trans locate_tornHost)
        have hapart : tornUnlocking.source ≠ .file made.1 := by
          rw [hplace]
          decide
        rcases hfile "q" made.1 made.2 rfl hcreate hapart with ⟨hstored, hresult⟩
        exact ⟨hstored.read_eq.trans (congrArg Except.ok hchunks), mt hresult.1 hstop⟩
  · rcases (hcase "t" none).2 tornUnlocking with ⟨-, -, hstandard, -⟩
    rcases hstandard rfl with ⟨hstdout, -, hresult⟩
    exact ⟨hstdout.trans hchunks, mt hresult.1 hstop⟩
  · rcases (hcase "t" (some "no/q")).2 tornUnlocking with ⟨-, hfails, -, -⟩
    have hrefused : (openOutput tornHost.files (some "no/q")).isOk = false := by
      decide +kernel
    cases hopen : openOutput tornHost.files (some "no/q") with
    | error r => exact ⟨r, hfails r hopen⟩
    | ok made =>
        rw [hopen] at hrefused
        cases hrefused
  · have hmissing : tornHost.files.openPlace "no" = .error .notFound := by
      decide +kernel
    refine (hcase "no" (some "q")).1 ?_
    rintro ⟨u⟩
    rcases of_openInput_ok (by decide) u.opened with ⟨place, -, hplace⟩
    cases hmissing.symm.trans hplace

end Cli
end AgeCrypt
