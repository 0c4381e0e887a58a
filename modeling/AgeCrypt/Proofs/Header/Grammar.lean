import AgeCrypt.Header.Reader
import AgeCrypt.Proofs.Text.Ascii

/-!
# Lines of a header

What a single line of a header may be.  Each parser of `Header.Reader` is shown to take exactly the
lines that `Header.encode` writes, so both ways through the grammar are one equivalence for each
kind of line:

* `parseOpening_eq_ok_iff` — opening lines, for names that can be written;
* `parseBodyLine_eq_ok_iff` — lines of a body;
* `parseClosing_eq_ok_iff` — closing lines.
-/

namespace AgeCrypt

/-! ## Names -/

namespace Stanza

/-- A name has visible characters only, and one at least. -/
theorem isName_iff {b : Bytes} :
    isName b = true ↔ b ≠ [] ∧ ∀ x ∈ b, Ascii.isVisible x = true := by
  simp [isName]

/-- The stanza can be written: its type and its arguments are names. -/
def Named (s : Stanza) : Prop :=
  ∀ name ∈ s.names, isName (Text.utf8 name) = true

instance (s : Stanza) : Decidable s.Named :=
  inferInstanceAs (Decidable (∀ name ∈ s.names, isName (Text.utf8 name) = true))

/-- The stanza can be written and read back: its opening line is short enough, too. -/
structure Readable (s : Stanza) : Prop where
  named : s.Named
  length_le : s.openingLine.length ≤ maxLineLength

/-- The check before writing passes just those stanzas that can be written. -/
theorem validate_eq_ok_iff {s : Stanza} : s.validate = .ok () ↔ s.Named := by
  unfold validate Named
  split
  · rename_i name hfind
    have hname := List.find?_some hfind
    have hmem := List.mem_of_find?_eq_some hfind
    simp only [Bool.not_eq_true'] at hname
    refine ⟨fun h => (by cases h), fun h => ?_⟩
    rw [h name hmem] at hname
    cases hname
  · rename_i hfind
    rw [List.find?_eq_none] at hfind
    refine ⟨fun _ name hmem => ?_, fun _ => rfl⟩
    simpa using hfind name hmem

/-- A name is ASCII, so it is its own text. -/
theorem utf8_ofAscii_of_isName {b : Bytes} (h : isName b = true) :
    Text.utf8 (Text.ofAscii b) = b :=
  Text.utf8_ofAscii fun x hx => (Ascii.of_isVisible ((isName_iff.1 h).2 x hx)).1

theorem ofAscii_utf8_of_isName {name : String} (h : isName (Text.utf8 name) = true) :
    Text.ofAscii (Text.utf8 name) = name :=
  Text.ofAscii_utf8 fun x hx => (Ascii.of_isVisible ((isName_iff.1 h).2 x hx)).1

/-- A name has no blank, so names can be told apart in a line. -/
theorem space_notMem_of_isName {b : Bytes} (h : isName b = true) : Ascii.space ∉ b := by
  intro hmem
  exact (Ascii.of_isVisible ((isName_iff.1 h).2 _ hmem)).2.1 rfl

section

variable [Base64]

theorem utf8_ofAscii_encode (b : Bytes) :
    Text.utf8 (Text.ofAscii (Base64.encode b)) = Base64.encode b :=
  Text.utf8_ofAscii fun _ hx => (Ascii.of_isVisible (Base64.isVisible_of_mem_encode hx)).1

/-- A line of base64 is a name, unless it is empty. -/
theorem isName_encode {b : Bytes} (h : b ≠ []) : isName (Base64.encode b) = true := by
  rw [isName_iff]
  refine ⟨?_, fun x hx => Base64.isVisible_of_mem_encode hx⟩
  rw [← List.length_pos_iff, Base64.length_encode]
  have hpos : 0 < b.length := List.length_pos_iff.2 h
  omega

end

end Stanza

namespace Header

/-! ## Parts between blanks -/

def joinBlanks (first : Bytes) (rest : List Bytes) : Bytes :=
  first ++ rest.flatMap fun part => Ascii.space :: part

theorem splitBlanks_ne_nil (line : Bytes) : splitBlanks line ≠ [] := by
  induction line with
  | nil => simp [splitBlanks]
  | cons x line ih =>
      simp only [splitBlanks]
      split
      · simp
      · split <;> simp

theorem splitBlanks_append {first : Bytes} (h : Ascii.space ∉ first) {line part : Bytes}
    {parts : List Bytes} (hline : splitBlanks line = part :: parts) :
    splitBlanks (first ++ line) = (first ++ part) :: parts := by
  induction first with
  | nil => exact hline
  | cons x first ih =>
      have hx : x ≠ Ascii.space := by
        rintro rfl
        exact h (List.mem_cons_self ..)
      have hfirst : Ascii.space ∉ first := fun hmem => h (List.mem_cons_of_mem _ hmem)
      simp only [List.cons_append, splitBlanks, ih hfirst, if_neg hx]

/-- A line is joined of the parts it splits in. -/
theorem of_splitBlanks {line first : Bytes} {rest : List Bytes}
    (h : splitBlanks line = first :: rest) :
    line = joinBlanks first rest ∧ ∀ part ∈ first :: rest, Ascii.space ∉ part := by
  induction line generalizing first rest with
  | nil =>
      cases h
      simp [joinBlanks]
  | cons x line ih =>
      cases hsplit : splitBlanks line with
      | nil => exact absurd hsplit (splitBlanks_ne_nil line)
      | cons part parts =>
          rcases ih hsplit with ⟨rfl, hparts⟩
          simp only [splitBlanks, hsplit] at h
          split at h
          · -- a blank ends an empty part in front of those there are
            rename_i hx
            cases h
            refine ⟨by simp [joinBlanks, hx], ?_⟩
            intro p hp
            rcases List.mem_cons.1 hp with rfl | hp
            · exact List.not_mem_nil
            · exact hparts p hp
          · -- any other byte belongs to the first of them
            rename_i hx
            cases h
            refine ⟨rfl, ?_⟩
            intro p hp
            rcases List.mem_cons.1 hp with rfl | hp
            · intro hmem
              rcases List.mem_cons.1 hmem with heq | hmem
              · exact hx heq.symm
              · exact hparts part (List.mem_cons_self ..) hmem
            · exact hparts p (List.mem_cons_of_mem _ hp)

/-- Parts without blanks are found again. -/
theorem splitBlanks_joinBlanks {first : Bytes} {rest : List Bytes}
    (hparts : ∀ part ∈ first :: rest, Ascii.space ∉ part) :
    splitBlanks (joinBlanks first rest) = first :: rest := by
  induction rest generalizing first with
  | nil =>
      have hnil : splitBlanks [] = [] :: [] := rfl
      have hfirst := splitBlanks_append (hparts first (List.mem_cons_self ..)) hnil
      simpa [joinBlanks] using hfirst
  | cons second rest ih =>
      have hsecond := ih fun part hp => hparts part (List.mem_cons_of_mem _ hp)
      have hblank : splitBlanks (Ascii.space :: joinBlanks second rest) =
          [] :: second :: rest := by
        simp only [splitBlanks, hsecond, if_true]
      have hfirst := splitBlanks_append (hparts first (List.mem_cons_self ..)) hblank
      simpa [joinBlanks] using hfirst

/-! ## Opening lines -/

/-- An opening line is its mark, its type and its arguments with blanks between them. -/
theorem openingLine_eq_joinBlanks (s : Stanza) :
    s.openingLine = joinBlanks Stanza.mark (s.names.map Text.utf8) := by
  rw [Stanza.openingLine, joinBlanks, List.flatMap_map]

theorem map_utf8_map_ofAscii {parts : List Bytes} (h : ∀ b ∈ parts, Stanza.isName b = true) :
    (parts.map Text.ofAscii).map Text.utf8 = parts := by
  rw [List.map_map]
  refine (List.map_congr_left fun b hb => ?_).trans (List.map_id parts)
  exact Stanza.utf8_ofAscii_of_isName (h b hb)

theorem map_ofAscii_map_utf8 {names : List String}
    (h : ∀ name ∈ names, Stanza.isName (Text.utf8 name) = true) :
    (names.map Text.utf8).map Text.ofAscii = names := by
  rw [List.map_map]
  refine (List.map_congr_left fun name hname => ?_).trans (List.map_id names)
  exact Stanza.ofAscii_utf8_of_isName (h name hname)

/-- A line is taken as an opening line just if it is the one written for the names it gives. -/
theorem parseOpening_eq_ok_iff {number : Nat} {line : Bytes} {tag : String} {args : List String}
    (body : Bytes) :
    parseOpening number line = .ok (tag, args) ↔
      line = (Stanza.mk tag args body).openingLine ∧ (Stanza.mk tag args body).Named := by
  rw [openingLine_eq_joinBlanks, Stanza.Named, Stanza.names]
  constructor
  · intro h
    unfold parseOpening at h
    split at h
    · cases h
    · split at h
      · rename_i mark tagBytes argBytes hsplit
        split at h
        · rename_i hnames
          cases h
          rcases hnames with ⟨rfl, hnames⟩
          rw [List.all_eq_true] at hnames
          -- the names are kept as texts, and their bytes are the parts again
          have hback := map_utf8_map_ofAscii hnames
          rw [List.map_cons] at hback
          refine ⟨?_, ?_⟩
          · rw [hback]
            exact (of_splitBlanks hsplit).1
          · intro name hname
            have hmem : Text.utf8 name ∈ tagBytes :: argBytes :=
              hback ▸ List.mem_map_of_mem hname
            exact hnames _ hmem
        · cases h
      · cases h
  · rintro ⟨rfl, hnamed⟩
    -- no name has a blank, so the line splits where it was joined
    have hsplit : splitBlanks (joinBlanks Stanza.mark ((tag :: args).map Text.utf8)) =
        Stanza.mark :: Text.utf8 tag :: args.map Text.utf8 := by
      refine splitBlanks_joinBlanks ?_
      intro part hpart
      rcases List.mem_cons.1 hpart with rfl | hpart
      · decide
      · rcases List.mem_map.1 hpart with ⟨name, hname, rfl⟩
        exact Stanza.space_notMem_of_isName (hnamed name hname)
    have hnames : (Text.utf8 tag :: args.map Text.utf8).all Stanza.isName = true := by
      rw [← List.map_cons, List.all_map, List.all_eq_true]
      exact hnamed
    have hmark : Stanza.mark.isPrefixOf
        (joinBlanks Stanza.mark ((tag :: args).map Text.utf8)) = true := by
      rw [List.isPrefixOf_iff_prefix]
      exact List.prefix_append ..
    have hback := map_ofAscii_map_utf8 hnamed
    simp only [List.map_cons, List.cons.injEq] at hback
    unfold parseOpening
    simp only [hmark, hsplit, hnames, hback.1, hback.2, not_true_eq_false, and_self, if_true,
      if_false]

variable [Base64]

/-! ## Lines of a body -/

/-- A line of a body spells at most 48 bytes, in their one spelling. -/
theorem parseBodyLine_eq_ok_iff {number : Nat} {line piece : Bytes} :
    parseBodyLine number line = .ok piece ↔
      line = Base64.encode piece ∧ piece.length ≤ bytesPerLine := by
  have hlen := Base64.length_encode piece
  constructor
  · intro h
    unfold parseBodyLine at h
    split at h
    · cases h
    · rename_i hcolumns
      split at h
      · cases h
      · unfold decodeField at h
        split at h
        · cases h
        · split at h
          · rename_i b hdecode
            cases h
            -- what decodes is the one spelling of what it decodes to
            have hline := Base64.encode_of_decode? hdecode
            subst hline
            refine ⟨rfl, ?_⟩
            simp only [columnsPerLine, bytesPerLine] at hcolumns ⊢
            omega
          · cases h
  · rintro ⟨rfl, hpiece⟩
    have hvisible : ∀ x ∈ Base64.encode piece, Ascii.isVisible x = true :=
      fun x hx => Base64.isVisible_of_mem_encode hx
    have hutf8 := Text.ofUtf8?_of_ascii fun x hx => (Ascii.of_isVisible (hvisible x hx)).1
    have hbreaks : ((Base64.encode piece).any fun b =>
        b == Ascii.newline || b == Ascii.carriageReturn) = false := by
      rw [List.any_eq_false]
      intro x hx
      have hx := Ascii.of_isVisible (hvisible x hx)
      simp [hx.2.2.1, hx.2.2.2]
    have hcolumns : ¬ columnsPerLine < (Base64.encode piece).length := by
      simp only [columnsPerLine, bytesPerLine] at hpiece ⊢
      omega
    unfold parseBodyLine decodeField
    rw [if_neg hcolumns, hutf8, hbreaks, Base64.decode?_encode]
    rfl

/-! ## Closing lines -/

/-- A closing line is taken just if it is the one written for its code. -/
theorem parseClosing_eq_ok_iff {number : Nat} {line : Bytes} {mac : Block 32} :
    parseClosing number line = .ok mac ↔
      line = joinBlanks closingMark [Base64.encode mac.bytes] := by
  constructor
  · intro h
    unfold parseClosing at h
    split at h
    · rename_i mark field hsplit
      split at h
      · rename_i b hdecode
        split at h
        · rename_i mac' hmac
          split at h
          · rename_i hmark
            cases h
            subst hmark
            rw [(of_splitBlanks hsplit).1, Block.bytes_of_ofBytes? hmac,
              Base64.encode_of_decode? hdecode]
          · cases h
        · cases h
      · cases h
    · cases h
  · rintro rfl
    have hsplit : splitBlanks (joinBlanks closingMark [Base64.encode mac.bytes]) =
        [closingMark, Base64.encode mac.bytes] := by
      refine splitBlanks_joinBlanks ?_
      intro part hpart
      simp only [List.mem_cons, List.not_mem_nil, or_false] at hpart
      rcases hpart with rfl | rfl
      · decide
      · intro hmem
        exact (Ascii.of_isVisible (Base64.isVisible_of_mem_encode hmem)).2.1 rfl
    simp only [parseClosing, hsplit, Base64.decode?_encode, Block.ofBytes?_bytes, if_true]

end Header
end AgeCrypt
