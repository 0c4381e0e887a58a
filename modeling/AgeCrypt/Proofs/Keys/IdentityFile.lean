import AgeCrypt.Keys.IdentityFile
import AgeCrypt.Proofs.Io.Lines
import AgeCrypt.Proofs.Keys.Spelling
import AgeCrypt.Proofs.Text.Utf8

/-!
# Identity files are read back

A secret key is read back from the identity file that is made for it
(`IdentityFile.read_fileText`): its first line is a comment, its second is the key.

The texts of keys are visible ASCII (`exists_encodeKey`), so trimming a line takes nothing of them
away but the line feed.
-/

namespace AgeCrypt

open Buffered

/-! ## Lines -/

namespace Text

theorem isBlank_char {x : UInt8} (h : Ascii.isVisible x = true) : isBlank (char x) = false := by
  have hbounds := Ascii.isVisible_iff.1 h
  rw [isBlank, List.any_eq_false]
  intro r hr
  rw [Bool.and_eq_true, decide_eq_true_eq, decide_eq_true_eq, toNat_char]
  simp only [blankRanges, List.mem_cons, List.not_mem_nil, or_false] at hr
  rcases hr with rfl | rfl | rfl | rfl | rfl | rfl | rfl | rfl | rfl | rfl <;> omega

theorem dropWhile_isBlank {x : UInt8} (h : Ascii.isVisible x = true) (cs : List Char) :
    (char x :: cs).dropWhile isBlank = char x :: cs := by
  rw [List.dropWhile_cons, isBlank_char h, if_neg Bool.false_ne_true]

/-- A line of ASCII that begins and ends with visible characters. -/
structure Line (line : Bytes) : Prop where
  ascii : ∀ x ∈ line, x < 128
  -- It is one line.
  feedless : Ascii.newline ∉ line
  first : ∃ a after, line = a :: after ∧ Ascii.isVisible a = true
  last : ∃ before z, line = before ++ [z] ∧ Ascii.isVisible z = true

theorem Line.of_visible {line : Bytes} (hne : line ≠ [])
    (h : ∀ x ∈ line, Ascii.isVisible x = true) : Line line where
  ascii := fun x hx => (Ascii.of_isVisible (h x hx)).1
  feedless := fun hmem => absurd (h _ hmem) (by decide)
  first := by
    rcases List.exists_cons_of_ne_nil hne with ⟨a, after, rfl⟩
    exact ⟨a, after, rfl, h a (List.mem_cons_self ..)⟩
  last := ⟨line.dropLast, line.getLast hne, (List.dropLast_concat_getLast hne).symm,
    h _ (List.getLast_mem hne)⟩

/-- A line may stand behind a visible beginning with blanks in it. -/
theorem Line.prepend {front line : Bytes} (h : Line line) (hascii : ∀ x ∈ front, x < 128)
    (hfeedless : Ascii.newline ∉ front)
    (hfirst : ∃ a after, front = a :: after ∧ Ascii.isVisible a = true) : Line (front ++ line) where
  ascii := fun x hx => (List.mem_append.1 hx).elim (hascii x) (h.ascii x)
  feedless := fun hmem => (List.mem_append.1 hmem).elim hfeedless h.feedless
  first := by
    rcases hfirst with ⟨a, after, rfl, ha⟩
    exact ⟨a, after ++ line, rfl, ha⟩
  last := by
    rcases h.last with ⟨before, z, rfl, hz⟩
    exact ⟨front ++ before, z, (List.append_assoc ..).symm, hz⟩

/-- Such a line is trimmed of its line feed, and of nothing else. -/
theorem Line.trim_eq {line : Bytes} (h : Line line) :
    trim (ofAscii (line ++ [Ascii.newline])) = ofAscii line := by
  rcases h.first with ⟨a, after, hfirst, ha⟩
  rcases h.last with ⟨before, z, hlast, hz⟩
  have hnewline : isBlank (char Ascii.newline) = true := by
    decide
  have hchars : trimChars ((line ++ [Ascii.newline]).map char) = line.map char := by
    calc
      trimChars ((line ++ [Ascii.newline]).map char)
          = (((char a :: (after ++ [Ascii.newline]).map char).dropWhile isBlank).reverse.dropWhile
              isBlank).reverse := by
        rw [trimChars, hfirst]
        rfl
      _ = (((line ++ [Ascii.newline]).map char).reverse.dropWhile isBlank).reverse := by
        rw [dropWhile_isBlank ha, hfirst]
        rfl
      _ = ((char z :: (before.map char).reverse).dropWhile isBlank).reverse := by
        rw [hlast]
        simp only [List.map_append, List.map_cons, List.map_nil, List.reverse_append,
          List.reverse_cons, List.reverse_nil, List.nil_append, List.cons_append,
          List.dropWhile_cons_of_pos hnewline]
      _ = line.map char := by
        rw [dropWhile_isBlank hz, hlast]
        simp only [List.reverse_cons, List.reverse_reverse, List.map_append, List.map_cons,
          List.map_nil]
  rw [trim, toList_ofAscii, hchars, ← toList_ofAscii, String.ofList_toList]

/-- A line of ASCII is understood, its line feed included. -/
theorem Line.ofUtf8?_eq {line : Bytes} (h : Line line) :
    ofUtf8? (line ++ [Ascii.newline]) = some (ofAscii (line ++ [Ascii.newline])) := by
  apply ofUtf8?_of_ascii
  intro x hx
  rcases List.mem_append.1 hx with hx | hx
  · exact h.ascii x hx
  · rw [List.mem_singleton.1 hx]
    decide

theorem Line.ne_nil {line : Bytes} (h : Line line) : line ≠ [] := by
  rcases h.first with ⟨a, after, rfl, -⟩
  exact List.cons_ne_nil a after

end Text

/-! ## Identity files -/

def SecretKey.fileText (S : Crypto.Suite) (k : SecretKey) : String :=
  "# public key: " ++ (k.publicKey S).text ++ "\n" ++ k.text ++ "\n"

/-- It has two lines, of which the first is a comment. -/
theorem SecretKey.utf8_fileText (S : Crypto.Suite) (k : SecretKey) :
    ∃ comment secret : Bytes, Text.utf8 (k.fileText S) =
        comment ++ Ascii.newline :: (secret ++ Ascii.newline :: []) ∧
      Text.Line comment ∧ [35] <+: comment ∧
      Text.Line secret ∧ ¬ [35] <+: secret ∧ SecretKey.parse (Text.ofAscii secret) = .ok k := by
  rcases exists_encodeKey PublicKey.writable_kind (k.publicKey S).point with
    ⟨shown, hshown, hshown_visible, hshown_kind⟩
  rcases exists_encodeKey SecretKey.writable_kind k.secret with
    ⟨secret, hsecret, hsecret_visible, hsecret_kind⟩
  have hpublic : (k.publicKey S).text = Text.ofAscii shown := hshown
  have hprivate : k.text = Text.ofAscii secret := hsecret
  have hshown_line : Text.Line shown := by
    refine .of_visible ?_ hshown_visible
    rintro rfl
    exact absurd hshown_kind (by decide)
  have hsecret_line : Text.Line secret := by
    refine .of_visible ?_ hsecret_visible
    rintro rfl
    exact absurd hsecret_kind (by decide)
  refine ⟨Text.utf8 "# public key: " ++ shown, secret, ?_, ?_, ?_, hsecret_line, ?_, ?_⟩
  · have hfeed : Text.utf8 "\n" = [Ascii.newline] := by
      decide
    change Text.utf8 ("# public key: " ++ (k.publicKey S).text ++ "\n" ++ k.text ++ "\n") = _
    simp only [Text.utf8_append, hpublic, hprivate, hfeed,
      Text.utf8_ofAscii hshown_line.ascii, Text.utf8_ofAscii hsecret_line.ascii, List.append_assoc,
      List.cons_append, List.nil_append]
  · exact hshown_line.prepend (by decide +kernel) (by decide +kernel) ⟨35, _, rfl, by decide⟩
  · exact ⟨_, rfl⟩
  · intro hhash
    have hcapital : [65] <+: secret := List.IsPrefix.trans (by decide) hsecret_kind
    have hsame := List.prefix_of_prefix_length_le hhash hcapital (Nat.le_refl _)
    exact absurd hsame (by decide)
  · rw [← hprivate]
    exact k.parse_text

namespace IdentityFile

variable {σ : Type} [ByteSource σ] {b : Buffered σ}

/-- Each line is read for itself; the first bad one ends the reading. -/
theorem readFrom_eq (input : Buffered σ) (lines : Nat) :
    readFrom input lines =
      match input.readLine with
      | (.error cause, _) =>
          .error (if cause.kind = .invalidData then .malformedLine (lines + 1) else .io cause)
      | (.ok [], _) => .ok []
      | (.ok (x :: tail), rest) =>
          match parseLine (lines + 1) (x :: tail) with
          | .error e => .error e
          | .ok keys =>
              match readFrom rest (lines + 1) with
              | .ok others => .ok (keys ++ others)
              | .error e => .error e := by
  fun_cases readFrom input lines with
  | case1 cause t hline => simp only [hline]
  | case2 t hline => simp only [hline]
  | case3 x tail rest hline e hparsed => simp only [hline, hparsed]
  | case4 x tail rest hline keys hparsed others hothers =>
      simp only [hline, hparsed, hothers]
  | case5 x tail rest hline keys hparsed e hothers =>
      simp only [hline, hparsed, hothers]

theorem readFrom_of_end (h : b.Holds []) (lines : Nat) : readFrom b lines = .ok [] := by
  rcases h.readLine none with ⟨c, ⟨hread, -⟩ | ⟨e, -, hend, -⟩⟩
  · rw [readFrom_eq, hread]
    rfl
  · cases hend

/-- The keys of a line stand before those of the lines behind it. -/
theorem readFrom_of_line {line more : Bytes} (hline : Ascii.newline ∉ line)
    (h : b.Holds (line ++ Ascii.newline :: more)) {lines : Nat} {keys : List SecretKey}
    (hkeys : parseLine (lines + 1) (line ++ [Ascii.newline]) = .ok keys) :
    ∃ c : Buffered σ, c.Holds more ∧ ∀ others, readFrom c (lines + 1) = .ok others →
      readFrom b lines = .ok (keys ++ others) := by
  rcases h.readLine_of_split hline with ⟨c, hread, hmore⟩
  refine ⟨c, hmore, ?_⟩
  intro others hothers
  rw [readFrom_eq, hread]
  cases hwhole : line ++ [Ascii.newline] with
  | nil => simp at hwhole
  | cons x tail =>
      rw [hwhole] at hkeys
      simp only [hkeys, hothers]

theorem startsWith_hash_iff {line : Bytes} :
    (Text.ofAscii line).startsWith "#" = true ↔ [35] <+: line := by
  have hhash : "#" = Text.ofAscii [35] := by
    decide
  rw [String.startsWith_string_iff, hhash, Text.prefix_ofAscii]

theorem parseLine_of_comment {line : Bytes} (h : Text.Line line) (hhash : [35] <+: line)
    (number : Nat) : parseLine number (line ++ [Ascii.newline]) = .ok [] := by
  simp only [parseLine, h.ofUtf8?_eq, h.trim_eq, startsWith_hash_iff.2 hhash, or_true, if_true]

theorem parseLine_of_key {line : Bytes} (h : Text.Line line) (hhash : ¬ [35] <+: line)
    {key : SecretKey} (hparse : SecretKey.parse (Text.ofAscii line) = .ok key) (number : Nat) :
    parseLine number (line ++ [Ascii.newline]) = .ok [key] := by
  have hmeant : ¬ (Text.ofAscii line = "" ∨ (Text.ofAscii line).startsWith "#" = true) := by
    rw [startsWith_hash_iff, not_or]
    exact ⟨Text.ofAscii_ne_empty h.ne_nil, hhash⟩
  simp only [parseLine, h.ofUtf8?_eq, h.trim_eq, if_neg hmeant, hparse]

/-- The identity file made for a secret key is read back as that key. -/
theorem read_fileText {S : Crypto.Suite} {k : SecretKey} (h : b.Holds (Text.utf8 (k.fileText S))) :
    read b = .ok [k] := by
  rcases k.utf8_fileText S with
    ⟨comment, secret, hlines, hcomment, hhash, hsecret, hplain, hparse⟩
  rw [hlines] at h
  rcases readFrom_of_line hcomment.feedless h (parseLine_of_comment hcomment hhash 1) with
    ⟨c, hkey, hfirst⟩
  rcases readFrom_of_line hsecret.feedless hkey (parseLine_of_key hsecret hplain hparse 2) with
    ⟨d, hend, hsecond⟩
  have hread : readFrom b 0 = .ok [k] := hfirst _ (hsecond _ (readFrom_of_end hend _))
  simp only [IdentityFile.read, hread]

end IdentityFile
end AgeCrypt
