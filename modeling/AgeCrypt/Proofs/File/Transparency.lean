import AgeCrypt.Base64.Standard
import AgeCrypt.File.Opening
import AgeCrypt.Proofs.Armor.Reading
import AgeCrypt.Proofs.Armor.Writing
import AgeCrypt.Proofs.File.Agreement

/-!
# Armor is transparent

A file that does not begin with a hyphen is opened in armor as it is without: with the same header,
the same reads of the plaintext and the same errors, be it well formed or not
(`OpenedFile.answers_armored`).

Looking at the first bytes of the input tells the two forms apart, even where they are fewer than
the begin marker has (`Armor.isArmored_of_binary`, `Armor.isArmored_of_marker`).  From there on the
armored input holds the same as the other one, only behind an armor reader, so the two are opened
alike (`Decryptor.answers_eq`).
-/

namespace AgeCrypt

open ByteSource ByteSink HoldingSink Buffered Crypto

/-! ## Telling the forms apart -/

namespace Armor

variable {σ : Type} [ByteSource σ] {input : Buffered σ}

/-- Looking at the first bytes takes none of them.  Some are seen, unless the input is empty. -/
theorem isArmored_of_holds {data : Bytes} (h : input.Holds data) (hfill : input.fill.1 = .ok ()) :
    ∃ answer b seen, isArmored input = (.ok answer, b) ∧ b.Holds data ∧
      (answer = true ↔ seen ≠ [] ∧ seen <+: beginMarker) ∧
      seen <+: data ∧ seen.length ≤ beginMarker.length ∧ (seen = [] → data = []) := by
  cases hfilled : input.fill with
  | mk answered b =>
      have hanswered : answered = .ok () := by
        rw [hfilled] at hfill
        exact hfill
      subst hanswered
      rcases h.of_fill_ok hfilled with ⟨hheld, hend⟩
      have hdata := hheld
      rcases hdata with ⟨-, rest, hdata, -⟩
      generalize hseen : b.buffer.take beginMarker.length = seen
      refine ⟨!seen.isEmpty && seen.isPrefixOf beginMarker, b, seen, ?_, hheld, ?_, ?_, ?_, ?_⟩
      · simp only [isArmored, hfilled, hseen]
      · rw [Bool.and_eq_true, Bool.not_eq_true', List.isEmpty_eq_false_iff,
          List.isPrefixOf_iff_prefix]
      · rw [hdata, ← hseen]
        exact (List.take_prefix _ _).trans (List.prefix_append _ _)
      · rw [← hseen]
        exact List.length_take_le _ _
      · rw [← hseen]
        intro hnil
        exact (hend ((List.take_eq_nil_iff.1 hnil).resolve_left (by decide))).1

/-- Nothing that is seen of a file without a hyphen in front begins the marker. -/
theorem not_prefix_beginMarker {file seen : Bytes} (hbinary : ¬ Bytes.ascii "-" <+: file)
    (hseen : seen <+: file) (hne : seen ≠ []) : ¬ seen <+: beginMarker := by
  intro hmarker
  have hhyphen : Bytes.ascii "-" <+: seen :=
    List.prefix_of_prefix_length_le (by decide) hmarker (List.length_pos_iff.2 hne)
  exact hbinary (hhyphen.trans hseen)

/-- What does not begin with a hyphen is not taken for an armored text. -/
theorem isArmored_of_binary {file : Bytes} (hbinary : ¬ Bytes.ascii "-" <+: file)
    (h : input.Holds file) (hfill : input.fill.1 = .ok ()) :
    ∃ b, isArmored input = (.ok false, b) ∧ b.Holds file := by
  rcases isArmored_of_holds h hfill with ⟨answer, b, seen, hb, hheld, hanswer, hseen, -, -⟩
  have hno : answer = false := by
    rw [← Bool.not_eq_true, hanswer]
    rintro ⟨hne, hmarker⟩
    exact not_prefix_beginMarker hbinary hseen hne hmarker
  subst hno
  exact ⟨b, hb, hheld⟩

/-- What begins with the marker is taken for an armored text, however few of its bytes are seen. -/
theorem isArmored_of_marker {data : Bytes} (hmarker : beginMarker <+: data) (h : input.Holds data)
    (hfill : input.fill.1 = .ok ()) :
    ∃ b, isArmored input = (.ok true, b) ∧ b.Holds data := by
  rcases isArmored_of_holds h hfill with ⟨answer, b, seen, hb, hheld, hanswer, hseen, hlen, hend⟩
  have hyes : answer = true := by
    refine hanswer.2 ⟨fun hnil => ?_, List.prefix_of_prefix_length_le hseen hmarker hlen⟩
    rw [hend hnil] at hmarker
    exact absurd hmarker (by decide)
  subst hyes
  exact ⟨b, hb, hheld⟩

theorem beginMarker_prefix_text [Base64] (file : Bytes) : beginMarker <+: text file := by
  rw [text_eq]
  exact ⟨_, rfl⟩

end Armor

/-! ## Files of either form -/

/-- A source that passes on what another one answers is read alike. -/
theorem readEach_of_passing {σ ρ : Type} [ByteSource σ] [ByteSource ρ] (embed : σ → ρ)
    (hread : ∀ s n, read (embed s) n = ((read s n).1, embed (read s n).2)) (s : σ)
    (sizes : List Nat) : (readEach (embed s) sizes).1 = (readEach s sizes).1 := by
  induction sizes generalizing s with
  | nil => rfl
  | cons n sizes ih =>
      simp only [readEach, hread, ih]

/-- And it gives what that one gives. -/
theorem ByteSource.Giving.of_passing {σ ρ : Type} [ByteSource σ] [ByteSource ρ] (embed : σ → ρ)
    (hread : ∀ s n, read (embed s) n = ((read s n).1, embed (read s n).2))
    {gives : σ → Bytes → Prop} {broken : σ → Prop} {ending : Option IoError}
    (G : Giving gives broken ending) :
    Giving (fun r data => ∃ s, r = embed s ∧ gives s data) (fun r => ∃ s, r = embed s ∧ broken s)
      ending where
  answered := by
    rintro _ data ⟨s, rfl, hs⟩ n
    have hanswered := G.answered hs n
    rw [hread]
    generalize read s n = answered at hanswered ⊢
    cases hanswered with
    | piece hdata hend ht => exact .piece hdata hend ⟨_, rfl, ht⟩
    | pause he ht => exact .pause he ⟨_, rfl, ht⟩
    | fault he hdata hend ht => exact .fault he hdata hend ⟨_, rfl, ht⟩

/-- A source that passes on the answers of another gives the same bytes. -/
theorem ByteSource.Gives.of_passing {σ ρ : Type} [ByteSource σ] [ByteSource ρ] (embed : σ → ρ)
    (hread : ∀ s n, read (embed s) n = ((read s n).1, embed (read s n).2)) {s : σ} {data : Bytes}
    {ending : Option IoError} (h : Gives s data ending) : Gives (embed s) data ending := by
  rcases h with ⟨gives, broken, G, hs⟩
  exact ⟨_, _, G.of_passing embed hread, s, rfl, hs⟩

/-- Reads cannot tell a source from one that passes on its answers. -/
theorem map_readEach_of_passing {ε σ ρ : Type} [ByteSource σ] [ByteSource ρ] (embed : σ → ρ)
    (hread : ∀ s n, read (embed s) n = ((read s n).1, embed (read s n).2)) (opened : Except ε σ)
    (sizes : List Nat) :
    (opened.map embed).map (fun r => (readEach r sizes).1) =
      opened.map fun r => (readEach r sizes).1 := by
  cases opened with
  | error cause => rfl
  | ok s => exact congrArg Except.ok (readEach_of_passing embed hread s sizes)

namespace OpenedFile

variable {S : Suite} {σ : Type} [ByteSource σ] {input : Buffered σ} {file : Bytes}

section

variable [Base64]

/-- What a file of either form comes to for whoever opens it: its header, whether it was written to
a passphrase, and what reads of these sizes answer, if the identities fit. -/
def answers (S : Suite) (identities : List Identity) (sizes : List Nat) (o : OpenedFile σ) :
    Header × Bool × Except DecryptError (List (Except IoError Bytes)) :=
  (o.header, o.isPassphrase,
    (o.decrypt S identities).map fun r => (readEach r sizes).1)

/-- A file that is not armored comes to what it comes to by itself. -/
theorem answers_of_unarmored (identities : List Identity) (sizes : List Nat) (d : Decryptor σ) :
    answers S identities sizes (.binary d) = d.answers S identities sizes := by
  have hreads := map_readEach_of_passing (Sum.inl : _ → PlaintextReader S σ) (fun _ _ => rfl)
    (d.decrypt S identities) sizes
  rw [answers, OpenedFile.decrypt, hreads]
  rfl

/-- An armored file comes to what the file inside comes to. -/
theorem answers_of_armored (identities : List Identity) (sizes : List Nat)
    (d : Decryptor (ArmorReader σ)) :
    answers S identities sizes (.armored d) = d.answers S identities sizes := by
  have hreads := map_readEach_of_passing (Sum.inr : _ → PlaintextReader S σ) (fun _ _ => rfl)
    (d.decrypt S identities) sizes
  rw [answers, OpenedFile.decrypt, hreads]
  rfl

/-- An input that is not taken for armored is opened as it is. -/
theorem start_of_unarmored {b : Buffered σ} (h : Armor.isArmored input = (.ok false, b))
    (identities : List Identity) (sizes : List Nat) :
    (start input).map (answers S identities sizes) =
      ((Decryptor.start b).map (Decryptor.answers S identities sizes)).mapError .header := by
  simp only [start, h]
  cases Decryptor.start b with
  | error cause => rfl
  | ok d => exact congrArg Except.ok (answers_of_unarmored identities sizes d)

/-- An input that is taken for armored is opened behind an armor reader. -/
theorem start_of_armored {b : Buffered σ} (h : Armor.isArmored input = (.ok true, b))
    (identities : List Identity) (sizes : List Nat) :
    (start input).map (answers S identities sizes) =
      ((Decryptor.start { inner := ({ inner := b } : ArmorReader σ) }).map
        (Decryptor.answers S identities sizes)).mapError .header := by
  simp only [start, h]
  cases Decryptor.start ({ inner := ({ inner := b } : ArmorReader σ) } : Buffered _) with
  | error cause => rfl
  | ok d => exact congrArg Except.ok (answers_of_armored identities sizes d)

/-- A file that does not begin with a hyphen comes to what its bytes in memory come to. -/
theorem answers_of_binary (hbinary : ¬ Bytes.ascii "-" <+: file) (h : input.Holds file)
    (hfill : input.fill.1 = .ok ()) (identities : List Identity) (sizes : List Nat) :
    (start input).map (answers S identities sizes) =
      ((Decryptor.start { inner := ScriptedSource.ofBytes file }).map
        (Decryptor.answers S identities sizes)).mapError .header := by
  rcases Armor.isArmored_of_binary hbinary h hfill with ⟨b, hb, hheld⟩
  rw [← Decryptor.answers_eq hheld (holds_file file) identities sizes, start_of_unarmored hb]

/-- So does its armored text. -/
theorem answers_of_text (h : input.Holds (Armor.text file)) (hfill : input.fill.1 = .ok ())
    (identities : List Identity) (sizes : List Nat) :
    (start input).map (answers S identities sizes) =
      ((Decryptor.start { inner := ScriptedSource.ofBytes file }).map
        (Decryptor.answers S identities sizes)).mapError .header := by
  rcases Armor.isArmored_of_marker (Armor.beginMarker_prefix_text file) h hfill with ⟨b, hb, hheld⟩
  have hfile : ({ inner := ({ inner := b } : ArmorReader σ) } : Buffered (ArmorReader σ)).Holds
      file := .of_delivers (ArmorReader.delivers hheld)
  rw [← Decryptor.answers_eq hfile (holds_file file) identities sizes, start_of_armored hb]

/-- Armor is transparent to opening a file.  Whatever a file that does not begin with a hyphen is,
armoring it in pieces of any sizes succeeds over a sink that does not fail, and what the sink then
holds comes to the same as the file: the same header, the same reads and the same errors, for all
identities and whatever the sizes of the reads and of the portions in which the two sources give
their bytes. -/
theorem answers_armored {τ : Type} [ByteSink τ] [HoldingSink τ] {sink : τ}
    (hunfailing : Unfailing sink) (hempty : contents sink = []) {pieces : List Bytes}
    (hbinary : ¬ Bytes.ascii "-" <+: pieces.flatten) :
    ∃ t, ArmorWriter.armorAll sink pieces = (.ok (), t) ∧
      ∀ {σ ρ : Type} [ByteSource σ] [ByteSource ρ] {plain : Buffered σ} {armored : Buffered ρ},
        plain.Holds pieces.flatten → plain.fill.1 = .ok () →
        armored.Holds (contents t) → armored.fill.1 = .ok () →
        ∀ (identities : List Identity) (sizes : List Nat),
          (start armored).map (answers S identities sizes) =
            (start plain).map (answers S identities sizes) := by
  rcases ArmorWriter.armorAll_of_steady steady_unfailing hunfailing pieces with ⟨t, ht, -⟩
  refine ⟨t, ht, ?_⟩
  intro σ ρ _ _ plain armored hplain hplain_fill harmored harmored_fill identities sizes
  have hcontents := ArmorWriter.contents_of_armorAll ht
  rw [hempty, List.nil_append] at hcontents
  rw [hcontents] at harmored
  rw [answers_of_text harmored harmored_fill, answers_of_binary hbinary hplain hplain_fill]

end

/-- The armored text given a byte at a time, the file itself seven bytes at a time. -/
theorem answers_armored_byte_by_byte :
    ∃ t, ArmorWriter.armorAll ({} : ScriptedSink) [sampleFile] = (.ok (), t) ∧
      (start { inner := { data := contents t, portions := #[1] : ScriptedSource } }).map
          (answers .standard [.byStanza fun _ => .ok (Block.zeros 16)] [2, 0, 5, 1]) =
        (start { inner := { data := sampleFile, portions := #[7] : ScriptedSource } }).map
          (answers .standard [.byStanza fun _ => .ok (Block.zeros 16)] [2, 0, 5, 1]) := by
  have hbinary : ¬ Bytes.ascii "-" <+: [sampleFile].flatten := by
    decide
  rcases answers_armored (S := .standard) ScriptedSink.unfailing_empty rfl hbinary with
    ⟨t, ht, hsame⟩
  have hheld (data : Bytes) {portions : Array Nat} (hportions : ∀ p ∈ portions, 0 < p) :
      ({ inner := { data, portions } } : Buffered ScriptedSource).Holds data :=
    .of_delivers (ScriptedSource.delivers hportions (by simp))
  refine ⟨t, ht, hsame ?_ rfl (hheld _ (by simp)) rfl _ _⟩
  rw [List.flatten_singleton]
  exact hheld _ (by simp)

end OpenedFile

end AgeCrypt
