import AgeCrypt.Armor.Reader
import AgeCrypt.Proofs.Io.Lines

/-!
# Texts of the same lines

An armored text is lines with their line feeds (`joinLines_lines`).  The same lines may stand in a
text in other ways, with carriage returns before the line feeds, without the last line feed, or with
white space behind it: `Spells` says which texts these are.

A text that spells the lines of an armored one is that text once its carriage returns and the white
space at its end are gone (`bare_of_spells`), and no such text is cut off before its end marker is
over (`exists_end_of_spells`).
-/

namespace AgeCrypt

namespace Armor

/-! ## Plain lines -/

/-- The bytes of a line that stands in an armored text. -/
def Plain (line : Bytes) : Prop :=
  ∀ x ∈ line, 32 ≤ x ∧ x < 128

theorem plain_of_all {line : Bytes} (h : line.all (fun x => 32 ≤ x && x < 128) = true) :
    Plain line := by
  intro x hx
  simpa using List.all_eq_true.1 h x hx

theorem plain_beginMarker : Plain beginMarker :=
  plain_of_all (by decide)

theorem plain_endMarker : Plain endMarker :=
  plain_of_all (by decide)

theorem Plain.notMem {line : Bytes} (h : Plain line) {x : UInt8} (hx : x < 32) : x ∉ line :=
  fun hmem => UInt8.not_le.2 hx (h x hmem).1

/-! ## Spelling -/

def returns (k : Nat) : Bytes :=
  List.replicate k Ascii.carriageReturn

/-- The text is made of the lines: each with its line feed, maybe carriage returns before it, and
white space behind the last; or else without a line feed at the end. -/
inductive Spells : List Bytes → Bytes → Prop where
  | nil {space : Bytes} (hspace : ∀ x ∈ space, Ascii.isWhitespace x = true) : Spells [] space
  | line {line text : Bytes} {lines : List Bytes} (k : Nat) (h : Spells lines text) :
      Spells (line :: lines) (line ++ returns k ++ Ascii.newline :: text)
  -- The last line runs to the end of the text.
  | unended {line : Bytes} (k : Nat) : Spells [line] (line ++ returns k)

/-- The first line of a text that spells lines stands at its front, with a line feed or as the last
one. -/
theorem Spells.of_cons {line text : Bytes} {ls : List Bytes} (h : Spells (line :: ls) text) :
    (∃ k rest, text = line ++ returns k ++ Ascii.newline :: rest ∧ Spells ls rest) ∨
      ls = [] ∧ ∃ k, text = line ++ returns k := by
  cases h with
  | line k h => exact .inl ⟨k, _, rfl, h⟩
  | unended k => exact .inr ⟨rfl, k, rfl⟩

/-- Only white space spells no lines. -/
theorem Spells.of_nil {text : Bytes} (h : Spells [] text) :
    ∀ x ∈ text, Ascii.isWhitespace x = true := by
  cases h with
  | nil hspace => exact hspace

/-- Lines are spelled by themselves, each with a line feed. -/
theorem spells_joinLines (ls : List Bytes) : Spells ls (joinLines ls) := by
  induction ls with
  | nil => exact .nil fun x hx => (by cases hx)
  | cons l ls ih =>
      have hline : Spells (l :: ls) (l ++ returns 0 ++ Ascii.newline :: joinLines ls) := .line 0 ih
      rw [returns, List.replicate_zero, List.append_nil] at hline
      rw [← List.append_nil (joinLines _), joinLines_cons_append, List.append_nil]
      exact hline

/-- A line takes up room. -/
theorem Spells.length_le {ls : List Bytes} {text : Bytes} (h : Spells ls text) :
    ∀ l ∈ ls, l.length ≤ text.length := by
  induction h with
  | nil hspace =>
      intro l hl
      cases hl
  | line k h ih =>
      intro l hl
      simp only [List.length_append, List.length_cons]
      rcases List.mem_cons.1 hl with rfl | hl
      · omega
      · have hle := ih l hl
        omega
  | unended k =>
      intro l hl
      rw [List.mem_singleton.1 hl, List.length_append]
      exact Nat.le_add_right _ _

theorem reverse_returns (k : Nat) : (returns k).reverse = returns k :=
  List.reverse_replicate

theorem newline_notMem_returns {line : Bytes} (hline : Ascii.newline ∉ line) (k : Nat) :
    Ascii.newline ∉ line ++ returns k := by
  intro hmem
  rcases List.mem_append.1 hmem with hmem | hmem
  · exact hline hmem
  · exact absurd (List.eq_of_mem_replicate hmem) (by decide)

/-! ## Trimming -/

theorem trimLine_of_notMem {b : Bytes} (h : Ascii.newline ∉ b) :
    trimLine b = (b.reverse.dropWhile (· == Ascii.carriageReturn)).reverse := by
  have hkept : b.reverse.dropWhile (· == Ascii.newline) = b.reverse := by
    refine Bytes.dropWhile_eq_self fun x hx => ?_
    rw [beq_eq_false_iff_ne]
    rintro rfl
    exact h (List.mem_reverse.1 hx)
  rw [trimLine, hkept]

theorem trimLine_append_newline (b : Bytes) : trimLine (b ++ [Ascii.newline]) = trimLine b := by
  rw [trimLine, List.reverse_append, List.reverse_singleton, List.singleton_append,
    List.dropWhile_cons, if_pos (beq_self_eq_true _), trimLine]

/-- A plain line is what is left of it when it is trimmed, whatever carriage returns follow it. -/
theorem Plain.trimLine_append_returns {line : Bytes} (h : Plain line) (k : Nat) :
    trimLine (line ++ returns k) = line := by
  have hkept : line.reverse.dropWhile (· == Ascii.carriageReturn) = line.reverse := by
    refine Bytes.dropWhile_eq_self fun x hx => ?_
    rw [beq_eq_false_iff_ne]
    rintro rfl
    exact h.notMem (by decide) (List.mem_reverse.1 hx)
  have hreturns : ∀ x ∈ returns k, (x == Ascii.carriageReturn) = true := by
    intro x hx
    rw [List.eq_of_mem_replicate hx, beq_self_eq_true]
  rw [trimLine_of_notMem (newline_notMem_returns (h.notMem (by decide)) k), List.reverse_append,
    reverse_returns, List.dropWhile_append_of_pos hreturns, hkept, List.reverse_reverse]

/-- What trimming takes from a line is carriage returns. -/
theorem exists_trimLine_append_returns {b : Bytes} (h : Ascii.newline ∉ b) :
    ∃ k, b = trimLine b ++ returns k := by
  let taken := b.reverse.takeWhile (· == Ascii.carriageReturn)
  have htaken : taken = returns taken.length := by
    refine List.eq_replicate_iff.2 ⟨rfl, fun x hx => ?_⟩
    exact beq_iff_eq.1 (List.all_eq_true.1 List.all_takeWhile x hx)
  refine ⟨taken.length, ?_⟩
  have hsplit : taken ++ b.reverse.dropWhile (· == Ascii.carriageReturn) = b.reverse :=
    List.takeWhile_append_dropWhile
  calc
    b = (taken ++ b.reverse.dropWhile (· == Ascii.carriageReturn)).reverse := by
      rw [hsplit, List.reverse_reverse]
    _ = trimLine b ++ taken.reverse := by
      rw [List.reverse_append, trimLine_of_notMem h]
    _ = trimLine b ++ returns taken.length := by
      rw [← reverse_returns taken.length, ← htaken]

/-! ## What two spellings have in common -/

/-- A text without carriage returns and without the white space at its end. -/
def bare (text : Bytes) : Bytes :=
  ((text.filter (· != Ascii.carriageReturn)).reverse.dropWhile Ascii.isWhitespace).reverse

/-- Carriage returns are all that is lost between a line and its spelling. -/
theorem filter_append_returns {line : Bytes} (hplain : Plain line) (k : Nat) :
    (line ++ returns k).filter (· != Ascii.carriageReturn) = line := by
  have hline : line.filter (· != Ascii.carriageReturn) = line := by
    refine List.filter_eq_self.2 fun x hx => ?_
    rw [bne_iff_ne]
    rintro rfl
    exact hplain.notMem (by decide) hx
  have hreturns : (returns k).filter (· != Ascii.carriageReturn) = [] := by
    refine List.filter_eq_nil_iff.2 fun x hx => ?_
    rw [List.eq_of_mem_replicate hx]
    decide
  rw [List.filter_append, hline, hreturns, List.append_nil]

/-- Without carriage returns, a text is its lines but for white space at the end. -/
theorem filter_of_spells {ls : List Bytes} {text : Bytes} (h : Spells ls text)
    (hplain : ∀ l ∈ ls, Plain l) :
    ∃ space, (∀ x ∈ space, Ascii.isWhitespace x = true) ∧
      (text.filter (· != Ascii.carriageReturn) = joinLines ls ++ space ∨
        text.filter (· != Ascii.carriageReturn) ++ [Ascii.newline] = joinLines ls) := by
  induction h with
  | @nil space hspace =>
      exact ⟨space.filter (· != Ascii.carriageReturn),
        fun x hx => hspace x (List.mem_filter.1 hx).1, .inl rfl⟩
  | @line line text ls k h ih =>
      rcases ih fun l hl => hplain l (List.mem_cons_of_mem _ hl) with ⟨space, hspace, hfilter⟩
      refine ⟨space, hspace, ?_⟩
      have hnewline : (Ascii.newline :: text).filter (· != Ascii.carriageReturn) =
          Ascii.newline :: text.filter (· != Ascii.carriageReturn) :=
        List.filter_cons_of_pos (by decide)
      rw [List.filter_append, filter_append_returns (hplain line (List.mem_cons_self ..)), hnewline,
        joinLines_cons_append, List.append_assoc, List.cons_append]
      rcases hfilter with hfilter | hfilter
      · exact .inl (by rw [hfilter])
      · refine .inr ?_
        rw [hfilter, ← List.append_nil (joinLines (line :: ls)), joinLines_cons_append,
          List.append_nil]
  | @unended line k =>
      refine ⟨[], fun x hx => (by cases hx), .inr ?_⟩
      rw [filter_append_returns (hplain line (List.mem_cons_self ..))]
      simp [joinLines]

/-- White space is taken off a text up to the last character that is none. -/
theorem bare_of_filter {text front space : Bytes} {x : UInt8} (hx : Ascii.isWhitespace x = false)
    (hspace : ∀ y ∈ space, Ascii.isWhitespace y = true)
    (h : text.filter (· != Ascii.carriageReturn) = front ++ [x] ++ space) :
    bare text = front ++ [x] := by
  have hbehind : ∀ y ∈ space.reverse, Ascii.isWhitespace y = true :=
    fun y hy => hspace y (List.mem_reverse.1 hy)
  have hstop : ([x] ++ front.reverse).dropWhile Ascii.isWhitespace = [x] ++ front.reverse := by
    rw [List.singleton_append, List.dropWhile_cons, hx]
    rfl
  rw [bare, h, List.reverse_append, List.dropWhile_append_of_pos hbehind, List.reverse_append,
    List.reverse_singleton, hstop, List.reverse_append, List.reverse_reverse,
    List.reverse_singleton]

/-! ## Cutting off -/

/-- A line of an armored text before the end marker. -/
structure Inner (line : Bytes) : Prop where
  plain : Plain line
  not_endMarker_prefix : ¬ endMarker <+: line

/-- A line before the end marker is not where the end marker stands. -/
theorem Inner.not_prefix {line text : Bytes} (h : Inner line) (k : Nat) :
    ¬ endMarker <+: line ++ returns k ++ Ascii.newline :: text := by
  intro hbegins
  cases k with
  | zero =>
      rw [returns, List.replicate_zero, List.append_nil] at hbegins
      exact h.not_endMarker_prefix (Buffered.prefix_of_split (by decide) hbegins)
  | succ k =>
      rw [returns, List.replicate_succ, List.append_assoc, List.cons_append] at hbegins
      exact h.not_endMarker_prefix (Buffered.prefix_of_split (by decide) hbegins)

/-- Behind the end marker stands white space. -/
theorem of_spells_endMarker {text : Bytes} (h : Spells [endMarker] text) :
    ∃ back, text = endMarker ++ back ∧ ∀ x ∈ back, Ascii.isWhitespace x = true := by
  have hreturns : ∀ k, ∀ x ∈ returns k, Ascii.isWhitespace x = true := by
    intro k x hx
    rw [List.eq_of_mem_replicate hx]
    decide
  rcases h.of_cons with ⟨k, space, rfl, hspace⟩ | ⟨-, k, rfl⟩
  · refine ⟨returns k ++ Ascii.newline :: space, by rw [List.append_assoc], ?_⟩
    intro x hx
    rcases List.mem_append.1 hx with hx | hx
    · exact hreturns k x hx
    · rcases List.mem_cons.1 hx with rfl | hx
      · decide
      · exact hspace.of_nil x hx
  · exact ⟨returns k, rfl, hreturns k⟩

/-- A text that the lines of an armored one spell has a place where its end marker ends, and what is
cut off before it is no such text. -/
theorem exists_end_of_spells {bs : List Bytes} {text : Bytes} (hbs : ∀ l ∈ bs, Inner l)
    (h : Spells (bs ++ [endMarker]) text) :
    ∃ front back, text = front ++ (endMarker ++ back) ∧
      (∀ x ∈ back, Ascii.isWhitespace x = true) ∧
      ∀ as part, (∀ l ∈ as, Inner l) → Spells (as ++ [endMarker]) part → part <+: text →
        (front ++ endMarker).length ≤ part.length := by
  -- line by line; the lines of the part are those of the text as long as there are any
  induction bs generalizing text with
  | nil =>
      rcases of_spells_endMarker h with ⟨back, rfl, hback⟩
      refine ⟨[], back, rfl, hback, fun as part _ hpart _ => ?_⟩
      exact hpart.length_le _ (List.mem_append_right _ (List.mem_singleton_self _))
  | cons b bs ih =>
      have hb := hbs b (List.mem_cons_self ..)
      rcases Spells.of_cons h with ⟨k, rest, rfl, hrest⟩ | ⟨hnil, -⟩
      · rcases ih (fun l hl => hbs l (List.mem_cons_of_mem _ hl)) hrest with
          ⟨front, back, rfl, hback, hleast⟩
        refine ⟨b ++ returns k ++ Ascii.newline :: front, back, ?_, hback, ?_⟩
        · rw [List.append_assoc _ _ (endMarker ++ back), List.cons_append]
        · intro as part has hpart hbegins
          cases as with
          | nil =>
              rcases of_spells_endMarker hpart with ⟨back', rfl, -⟩
              exact absurd ((List.prefix_append _ _).trans hbegins) (hb.not_prefix k)
          | cons a as =>
              have ha := has a (List.mem_cons_self ..)
              rcases Spells.of_cons hpart with ⟨j, left, rfl, hleft⟩ | ⟨hnil, -⟩
              · rcases hbegins with ⟨tail, htail⟩
                rw [List.append_assoc, List.cons_append] at htail
                rcases Buffered.split_inj (newline_notMem_returns (ha.plain.notMem (by decide)) j)
                  (newline_notMem_returns (hb.plain.notMem (by decide)) k) htail with
                  ⟨hline, hsame⟩
                have hle := hleast as left (fun l hl => has l (List.mem_cons_of_mem _ hl)) hleft
                  ⟨tail, hsame⟩
                simp only [hline, List.length_append, List.length_cons] at hle ⊢
                omega
              · exact absurd hnil (List.append_ne_nil_of_right_ne_nil as (by decide))
      · exact absurd hnil (List.append_ne_nil_of_right_ne_nil bs (by decide))

/-! ## The lines of an armored text -/

variable [Base64]

def bodyLines (file : Bytes) : List Bytes :=
  (file.chunks bytesPerLine).map Base64.encodePadded ++ [endMarker]

/-- The lines of an armored text. -/
def lines (file : Bytes) : List Bytes :=
  beginMarker :: bodyLines file

theorem bodyLines_nil : bodyLines [] = [endMarker] := by
  rw [bodyLines, Bytes.chunks, if_pos (.inl rfl), List.map_nil, List.nil_append]

/-- The first data line spells as many bytes as a line has room for, and the others the rest. -/
theorem bodyLines_of_ne_nil {file : Bytes} (hne : file ≠ []) :
    bodyLines file =
      Base64.encodePadded (file.take bytesPerLine) :: bodyLines (file.drop bytesPerLine) := by
  rw [bodyLines, Bytes.chunks, if_neg (by simp [hne, bytesPerLine]), List.map_cons,
    List.cons_append, bodyLines]

/-- A line that is cut off where the writer cuts. -/
theorem bodyLines_append {piece file : Bytes} (hne : piece ≠ []) (hlen : piece.length ≤ bytesPerLine)
    (hlast : piece.length < bytesPerLine → file = []) :
    bodyLines (piece ++ file) = Base64.encodePadded piece :: bodyLines file := by
  have hwhole : piece ++ file ≠ [] := List.append_ne_nil_of_left_ne_nil hne file
  rw [bodyLines_of_ne_nil hwhole]
  rcases Nat.lt_or_eq_of_le hlen with hshort | hfull
  · rw [hlast hshort, List.append_nil, List.take_of_length_le hlen, List.drop_of_length_le hlen]
  · rw [List.take_left' hfull, List.drop_left' hfull]

/-- An armored text is its lines with their line feeds. -/
theorem joinLines_lines (file : Bytes) : joinLines (lines file) = text file := by
  simp [joinLines, lines, bodyLines, text, List.flatMap_map, List.flatMap_append]
  rfl

theorem plain_encodePadded (b : Bytes) : Plain (Base64.encodePadded b) := by
  intro x hx
  have hvisible := Base64.isVisible_of_mem_encodePadded hx
  simp only [Ascii.isVisible, Bool.and_eq_true, decide_eq_true_eq] at hvisible
  rcases hvisible with ⟨hlow, hhigh⟩
  exact ⟨UInt8.le_trans (by decide) hlow, UInt8.lt_of_le_of_lt hhigh (by decide)⟩

/-- The end marker has a blank in it, so no data line begins like it. -/
theorem not_endMarker_prefix_encodePadded (b : Bytes) : ¬ endMarker <+: Base64.encodePadded b := by
  intro hbegins
  have hspace : Ascii.space ∈ Base64.encodePadded b := hbegins.subset (by decide)
  exact absurd (Base64.isVisible_of_mem_encodePadded hspace) (by decide)

theorem encodePadded_ne_endMarker (b : Bytes) : Base64.encodePadded b ≠ endMarker :=
  fun heq => not_endMarker_prefix_encodePadded b (heq ▸ List.prefix_rfl)

theorem length_encodePadded_le {piece : Bytes} (hlen : piece.length ≤ bytesPerLine) :
    (Base64.encodePadded piece).length ≤ columnsPerLine := by
  rw [Base64.length_encodePadded]
  simp only [bytesPerLine, columnsPerLine] at hlen ⊢
  omega

theorem encodePadded_ne_nil {piece : Bytes} (hne : piece ≠ []) :
    Base64.encodePadded piece ≠ [] := by
  have hpos := List.length_pos_iff.2 hne
  rw [← List.length_pos_iff, Base64.length_encodePadded]
  omega

theorem plain_of_mem_bodyLines {file line : Bytes} (h : line ∈ bodyLines file) : Plain line := by
  rcases List.mem_append.1 h with h | h
  · rcases List.mem_map.1 h with ⟨piece, -, rfl⟩
    exact plain_encodePadded piece
  · rw [List.mem_singleton.1 h]
    exact plain_endMarker

/-- No line of an armored text holds a line end. -/
theorem plain_of_mem_lines {file line : Bytes} (h : line ∈ lines file) : Plain line := by
  rcases List.mem_cons.1 h with rfl | h
  · exact plain_beginMarker
  · exact plain_of_mem_bodyLines h

/-! ## Texts that spell them -/

/-- Without its last line feed, an armored text ends in a byte that is no white space. -/
theorem exists_text_eq (file : Bytes) :
    ∃ front x, Ascii.isWhitespace x = false ∧ text file = front ++ [x] ++ [Ascii.newline] := by
  refine ⟨beginMarker ++ [Ascii.newline] ++ (file.chunks bytesPerLine).flatMap dataLine
    ++ endMarker.dropLast, endMarker.getLast (by decide), by decide, ?_⟩
  rw [text, List.append_assoc _ endMarker.dropLast, List.dropLast_concat_getLast]

/-- Texts that spell the lines of one file differ in carriage returns and in the white space at
their end only. -/
theorem bare_of_spells {file t : Bytes} (h : Spells (lines file) t) :
    bare t ++ [Ascii.newline] = text file := by
  rcases filter_of_spells h fun l hl => plain_of_mem_lines hl with ⟨space, hspace, hfilter⟩
  rcases exists_text_eq file with ⟨front, x, hx, htext⟩
  rw [joinLines_lines, htext] at hfilter
  rw [htext]
  rcases hfilter with hfilter | hfilter
  · -- the last line feed is among the white space at the end
    rw [List.append_assoc _ [Ascii.newline]] at hfilter
    have hbehind : ∀ y ∈ [Ascii.newline] ++ space, Ascii.isWhitespace y = true := by
      intro y hy
      rcases List.mem_append.1 hy with hy | hy
      · rw [List.mem_singleton.1 hy]
        decide
      · exact hspace y hy
    rw [bare_of_filter hx hbehind hfilter]
  · have hfront := List.append_cancel_right hfilter
    rw [← List.append_nil (front ++ [x])] at hfront
    rw [bare_of_filter hx (fun y hy => by cases hy) hfront]

def innerLines (file : Bytes) : List Bytes :=
  beginMarker :: (file.chunks bytesPerLine).map Base64.encodePadded

theorem lines_eq_innerLines_append (file : Bytes) : lines file = innerLines file ++ [endMarker] :=
  rfl

/-- Only the last line of an armored text is the end marker. -/
theorem inner_of_mem_innerLines {file line : Bytes} (h : line ∈ innerLines file) : Inner line := by
  rcases List.mem_cons.1 h with rfl | h
  · exact ⟨plain_beginMarker, by decide⟩
  · rcases List.mem_map.1 h with ⟨piece, -, rfl⟩
    exact ⟨plain_encodePadded piece, not_endMarker_prefix_encodePadded piece⟩

end Armor
end AgeCrypt
