import AgeCrypt.Proofs.Armor.Stripping
import AgeCrypt.Proofs.File.Completeness
import AgeCrypt.Proofs.File.Transparency

/-!
# What any input is opened to

`Armor.unarmored` says which bytes are read as a file: those of the input, or what comes of taking
the armor off if it looks like an armored text.  Whatever the input is, it is opened with identities
just if these bytes begin with a header, a nonce and a payload, and the identities find the file key
(`OpenedFile.gives_of_parts`, `OpenedFile.parts_of_decrypt`).  Then the source of the plaintext
gives the chunks that are released of the payload.
-/

namespace AgeCrypt

open ByteSource Buffered Crypto Payload

namespace Armor

/-- Whether an input begins like an armored text. -/
def isMarked (content : Bytes) : Bool :=
  let seen := content.take beginMarker.length
  !seen.isEmpty && seen.isPrefixOf beginMarker

/-- An input is taken for armored if it is not empty and agrees with the begin marker as far as both
go. -/
theorem isMarked_iff {content : Bytes} :
    isMarked content = true ↔
      content.take beginMarker.length ≠ [] ∧ content.take beginMarker.length <+: beginMarker := by
  simp only [isMarked, Bool.and_eq_true, Bool.not_eq_true', List.isEmpty_eq_false_iff,
    List.isPrefixOf_iff_prefix, ne_eq]

/-- What does not begin with a hyphen is not taken for an armored text. -/
theorem isMarked_of_binary {file : Bytes} (h : ¬ Bytes.ascii "-" <+: file) :
    isMarked file = false := by
  rw [← Bool.not_eq_true, isMarked_iff]
  rintro ⟨hne, hmarker⟩
  exact not_prefix_beginMarker h (List.take_prefix _ _) hne hmarker

/-- An input in memory is judged by its first bytes, and they are all seen. -/
theorem isArmored_ofBytes (content : Bytes) :
    ∃ b, isArmored ({ inner := .ofBytes content } : Buffered ScriptedSource) =
        (.ok (isMarked content), b) ∧ b.Holds content := by
  have hfill : ({ inner := .ofBytes content } : Buffered ScriptedSource).fill =
      (.ok (), { inner := ((ScriptedSource.ofBytes content).give 8192).2
                 buffer := content.take 8192 }) := rfl
  refine ⟨_, ?_, ((holds_file content).of_fill_ok hfill).1⟩
  have hseen : (content.take 8192).take beginMarker.length = content.take beginMarker.length := by
    rw [List.take_take]
    rfl
  simp only [isArmored, hfill, hseen, isMarked]

variable [Base64]

/-- What an input holds when its armor is off, if it looks as if it had any. -/
def unarmored (content : Bytes) : Stripped :=
  if isMarked content then strip content else ⟨content, none⟩

theorem unarmored_of_marked {content : Bytes} (h : isMarked content = true) :
    unarmored content = strip content := by
  rw [unarmored, h, if_pos rfl]

theorem unarmored_of_unmarked {content : Bytes} (h : isMarked content = false) :
    unarmored content = ⟨content, none⟩ := by
  rw [unarmored, h, if_neg Bool.false_ne_true]

theorem isMarked_text (file : Bytes) : isMarked (text file) = true := by
  have htake : (text file).take beginMarker.length = beginMarker :=
    (List.prefix_iff_eq_take.1 (beginMarker_prefix_text file)).symm
  rw [isMarked_iff, htake]
  exact ⟨by decide, List.prefix_rfl⟩

/-- Armor that was put on comes off, and a file without it is as it was. -/
theorem unarmored_dress {file : Bytes} (h : ¬ Bytes.ascii "-" <+: file) (armored : Bool) :
    unarmored (Encryptor.dress armored file) = ⟨file, none⟩ := by
  cases armored with
  | false => exact unarmored_of_unmarked (isMarked_of_binary h)
  | true => exact (unarmored_of_marked (isMarked_text file)).trans (strip_text file)

end Armor

/-! ## Opening -/

def ArmorReader.startOn {σ : Type} (input : Buffered σ) : Buffered (ArmorReader σ) :=
  { inner := { inner := input } }

/-- It gives what the input holds when its armor is off. -/
theorem ArmorReader.startOn_peeling [Base64] {σ : Type} [ByteSource σ] {input : Buffered σ}
    {content : Bytes} (h : input.Holds content) :
    (ArmorReader.startOn input).Over (Peeling (Armor.strip content).ending)
      (Armor.strip content).bytes :=
  .of_gives (peeling_start h)

namespace OpenedFile

open Armor

variable {S : Suite} {σ : Type} {content : Bytes}

/-- A reader that comes of one form of a file comes of reading that form. -/
theorem exists_of_map_ok {ρ : Type} {opened : Except DecryptError ρ}
    {embed : ρ → PlaintextReader S σ} {r : PlaintextReader S σ} (h : opened.map embed = .ok r) :
    ∃ reader, opened = .ok reader := by
  cases opened with
  | error e => cases h
  | ok reader => exact ⟨reader, rfl⟩

theorem isPassphrase_eq (o : OpenedFile σ) :
    o.isPassphrase = o.header.stanzas.any fun s => s.tag == passphraseTag := by
  cases o <;> rfl

variable [ByteSource σ] {input b : Buffered σ}

/-- A reader of a payload gives what is released of it. -/
theorem gives_start {gives : σ → Bytes → Prop} {broken : σ → Prop} {ending : Option IoError}
    (G : Giving gives broken ending) {source : Buffered σ} {payload : Bytes}
    (h : source.Over gives payload) (key : Block 32) :
    Gives (PayloadReader.start S key source) (releaseFrom S key 0 payload ending).chunks.flatten
      (releaseFrom S key 0 payload ending).stop :=
  ⟨_, _, PayloadReader.giving_pending (giving_over G), PayloadReader.pending_start h key ending⟩

variable [Base64]

/-- An input that holds a file, in armor or not, is opened: its header is read, and identities that
find the file key get a source of what is released of its payload. -/
theorem gives_of_parts (hsniff : isArmored input = (.ok (isMarked content), b))
    (hb : b.Holds content) {stanzas : List Stanza} {key : FileKey}
    {nonce : Block payloadNonceSize} {payload : Bytes}
    (hparts : Parts S (unarmored content).bytes stanzas key nonce payload) :
    ∃ o, start input = .ok o ∧ o.header.stanzas = stanzas ∧
      ∀ identities, findFileKey identities stanzas = .ok key →
        ∃ r, o.decrypt S identities = .ok r ∧
          Gives r
            (releaseFrom S (FileKey.payloadKey S key nonce.bytes) 0 payload
              (unarmored content).ending).chunks.flatten
            (releaseFrom S (FileKey.payloadKey S key nonce.bytes) 0 payload
              (unarmored content).ending).stop := by
  cases hmarked : isMarked content with
  | false =>
      rw [unarmored_of_unmarked hmarked] at hparts ⊢
      rw [hmarked] at hsniff
      rcases Decryptor.starts_of_parts (Delivers.giving none) hparts hb.toOver with
        ⟨d, hd, hstanzas, hdecrypts⟩
      refine ⟨.binary d, by simp only [start, hsniff, hd], hstanzas, ?_⟩
      intro identities hkey
      rcases hdecrypts identities hkey with ⟨source, hr, hpayload⟩
      refine ⟨.inl (PayloadReader.start S (FileKey.payloadKey S key nonce.bytes) source),
        by simp only [OpenedFile.decrypt, hr, Except.map], ?_⟩
      exact (gives_start (Delivers.giving none) hpayload _).of_passing Sum.inl fun _ _ => rfl
  | true =>
      rw [unarmored_of_marked hmarked] at hparts ⊢
      rw [hmarked] at hsniff
      have G := ArmorReader.giving_peeling (σ := σ) (strip content).ending
      rcases Decryptor.starts_of_parts G hparts (ArmorReader.startOn_peeling hb) with
        ⟨d, hd, hstanzas, hdecrypts⟩
      rw [ArmorReader.startOn] at hd
      refine ⟨.armored d, by simp only [start, hsniff, hd], hstanzas, ?_⟩
      intro identities hkey
      rcases hdecrypts identities hkey with ⟨source, hr, hpayload⟩
      refine ⟨.inr (PayloadReader.start S (FileKey.payloadKey S key nonce.bytes) source),
        by simp only [OpenedFile.decrypt, hr, Except.map], ?_⟩
      exact (gives_start G hpayload _).of_passing Sum.inr fun _ _ => rfl

/-- An input is opened as what it begins like. -/
theorem of_start_ok (hsniff : isArmored input = (.ok (isMarked content), b)) {o : OpenedFile σ}
    (ho : start input = .ok o) :
    (isMarked content = false ∧ ∃ d, o = .binary d ∧ Decryptor.start b = .ok d) ∨
      (isMarked content = true ∧
        ∃ d, o = .armored d ∧ Decryptor.start (ArmorReader.startOn b) = .ok d) := by
  rw [start, hsniff] at ho
  cases hmarked : isMarked content with
  | false =>
      rw [hmarked] at ho
      dsimp only at ho
      split at ho
      · rename_i d hd
        cases ho
        exact .inl ⟨rfl, d, rfl, hd⟩
      · cases ho
  | true =>
      rw [hmarked] at ho
      dsimp only at ho
      split at ho
      · rename_i d hd
        cases ho
        exact .inr ⟨rfl, d, rfl, hd⟩
      · cases ho

/-- An input that is opened with identities holds a file of which they find the key. -/
theorem parts_of_decrypt (hsniff : isArmored input = (.ok (isMarked content), b))
    (hb : b.Holds content) {o : OpenedFile σ} (ho : start input = .ok o)
    {identities : List Identity} {r : PlaintextReader S σ}
    (hr : o.decrypt S identities = .ok r) :
    ∃ key nonce payload,
      Parts S (unarmored content).bytes o.header.stanzas key nonce payload ∧
        findFileKey identities o.header.stanzas = .ok key := by
  rcases of_start_ok hsniff ho with ⟨hmarked, d, rfl, hd⟩ | ⟨hmarked, d, rfl, hd⟩
  · rcases exists_of_map_ok hr with ⟨reader, hreader⟩
    rcases Decryptor.parts_of_decrypt (Delivers.giving none) hb.toOver hd hreader with
      ⟨key, nonce, payload, -, hparts, hkey, -⟩
    rw [unarmored_of_unmarked hmarked]
    exact ⟨key, nonce, payload, hparts, hkey⟩
  · rcases exists_of_map_ok hr with ⟨reader, hreader⟩
    rcases Decryptor.parts_of_decrypt (ArmorReader.giving_peeling _) (ArmorReader.startOn_peeling hb)
      hd hreader with ⟨key, nonce, payload, -, hparts, hkey, -⟩
    rw [unarmored_of_marked hmarked]
    exact ⟨key, nonce, payload, hparts, hkey⟩

end OpenedFile
end AgeCrypt
