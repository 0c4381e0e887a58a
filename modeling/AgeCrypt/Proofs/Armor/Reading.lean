import AgeCrypt.Proofs.Armor.Spelling

/-!
# What an armor reader delivers

An armor reader over a text that spells the lines of an armored one is itself a source, and it
delivers the file (`delivers_of_spells`): at most a line at a time, whatever the buffer below it
holds.

`Unread` is the invariant: what the window still holds, followed by the bytes whose lines are still
to be read.  A line that must be the last leaves none.
-/

namespace AgeCrypt

open ByteSource Buffered

namespace Armor

variable [Base64]

/-- A full line neither is short nor ends in padding. -/
theorem not_last_of_full {piece : Bytes} (hlen : piece.length = bytesPerLine) :
    ((Base64.encodePadded piece).length < columnsPerLine ||
      (Base64.encodePadded piece).getLast? == some Base64.padding) = false := by
  have hcolumns : (Base64.encodePadded piece).length = columnsPerLine := by
    rw [Base64.length_encodePadded, hlen]
    rfl
  have hpadding := Base64.padding_notMem_encodePadded (b := piece) (by rw [hlen]; rfl)
  rw [Bool.or_eq_false_iff, hcolumns, beq_eq_false_iff_ne]
  exact ⟨by decide, fun hlast => hpadding (List.mem_of_getLast? hlast)⟩

end Armor

namespace ArmorReader

open Armor

variable {σ : Type} [ByteSource σ] {r : ArmorReader σ} {data : Bytes}

/-! ## One line -/

/-- A line of ASCII is found without its line end. -/
theorem nextLine_of_readLine {got : Bytes} {b : Buffered σ} (hread : r.inner.readLine = (.ok got, b))
    (hne : got ≠ []) (hascii : ∀ x ∈ got, x < 128) :
    r.nextLine = (.ok (some (trimLine got)), { r with inner := b }) := by
  have hutf8 := Text.ofUtf8?_of_ascii hascii
  cases got with
  | nil => exact absurd rfl hne
  | cons x tail =>
      simp only [nextLine, hread, hutf8, Option.isNone_some, Bool.false_eq_true, if_false]

/-- A line is read from where it is spelled, and the others are spelled behind it. -/
theorem nextLine_of_spells {line text : Bytes} {ls : List Bytes} (hplain : Plain line)
    (hne : line ≠ []) (hspells : Spells (line :: ls) text) (h : r.inner.Holds text) :
    ∃ b rest, r.nextLine = (.ok (some line), { r with inner := b }) ∧ b.Holds rest ∧
      Spells ls rest := by
  have hascii : ∀ k, ∀ x ∈ line ++ returns k, x < 128 := by
    intro k x hx
    rcases List.mem_append.1 hx with hx | hx
    · exact (hplain x hx).2
    · rw [List.eq_of_mem_replicate hx]
      decide
  rcases hspells.of_cons with ⟨k, rest, rfl, hrest⟩ | ⟨rfl, k, rfl⟩
  · rcases h.readLine_of_split (newline_notMem_returns (hplain.notMem (by decide)) k) with
      ⟨b, hread, hheld⟩
    refine ⟨b, rest, ?_, hheld, hrest⟩
    rw [nextLine_of_readLine hread (List.append_ne_nil_of_right_ne_nil _ (by decide)),
      trimLine_append_newline, hplain.trimLine_append_returns]
    intro x hx
    rcases List.mem_append.1 hx with hx | hx
    · exact hascii k x hx
    · rw [List.mem_singleton.1 hx]
      decide
  · rcases h.readLine_of_notMem (newline_notMem_returns (hplain.notMem (by decide)) k) with
      ⟨b, hread, hheld⟩
    refine ⟨b, [], ?_, hheld, .nil fun x hx => (by cases hx)⟩
    rw [nextLine_of_readLine hread (List.append_ne_nil_of_left_ne_nil hne _) (hascii k),
      hplain.trimLine_append_returns]

variable [Base64]

/-! ## Data lines and the end marker -/

/-- Where no line is left, the end marker is read. -/
theorem readBody_of_spells_nil {text : Bytes} (hspells : Spells (bodyLines []) text)
    (h : r.inner.Holds text) (sawLast : Bool) :
    ∃ b, r.readBody sawLast = (.ok (), { r with inner := b, progress := .done }) := by
  rw [bodyLines_nil] at hspells
  rcases nextLine_of_spells plain_endMarker (by decide) hspells h with
    ⟨b, space, hline, hheld, hspace⟩
  rcases hheld.readToEnd with ⟨c, hrest⟩
  have hwhite : space.all Ascii.isWhitespace = true := List.all_eq_true.2 hspace.of_nil
  refine ⟨c, ?_⟩
  simp only [readBody, hline, if_true, finish, hrest, gathered, hwhite]

/-- A data line is read into the window.  It is taken for the last only if it is. -/
theorem readBody_of_spells {file text : Bytes} (hne : file ≠ [])
    (hspells : Spells (bodyLines file) text) (h : r.inner.Holds text) :
    ∃ b isLast rest, r.readBody false = (.ok (), { r with
        inner := b, progress := .body isLast, window := .ofBytes (file.take bytesPerLine) }) ∧
      b.Holds rest ∧ Spells (bodyLines (file.drop bytesPerLine)) rest ∧
      (isLast = true → file.drop bytesPerLine = []) := by
  have hpiece_ne : file.take bytesPerLine ≠ [] := by
    simp [List.take_eq_nil_iff, hne, bytesPerLine]
  rw [bodyLines_of_ne_nil hne] at hspells
  rcases nextLine_of_spells (plain_encodePadded _) (encodePadded_ne_nil hpiece_ne) hspells h with
    ⟨b, rest, hline, hheld, hrest⟩
  have hfits : ¬ (false = true ∨ Base64.encodePadded (file.take bytesPerLine) = [] ∨
      columnsPerLine < (Base64.encodePadded (file.take bytesPerLine)).length) := by
    rintro (hno | hnil | hlong)
    · cases hno
    · exact encodePadded_ne_nil hpiece_ne hnil
    · exact Nat.not_lt.2 (length_encodePadded_le (List.length_take_le _ _)) hlong
  refine ⟨b, (Base64.encodePadded (file.take bytesPerLine)).length < columnsPerLine ||
    (Base64.encodePadded (file.take bytesPerLine)).getLast? == some Base64.padding, rest, ?_, hheld,
    hrest, ?_⟩
  · simp only [readBody, hline, if_neg (encodePadded_ne_endMarker _), if_neg hfits,
      Base64.decodePadded?_encodePadded]
  · intro hlast
    -- a line that others follow is full
    by_cases hfull : bytesPerLine ≤ file.length
    · rw [not_last_of_full (List.length_take_of_le hfull)] at hlast
      cases hlast
    · exact List.drop_of_length_le (Nat.le_of_not_le hfull)

/-! ## Reads -/

inductive Unread : ArmorReader σ → Bytes → Prop where
  -- No line has been read.
  | start {r : ArmorReader σ} {file text : Bytes} (hprogress : r.progress = .start)
      (hwindow : r.window.taken ≤ r.window.bytes.size) (hrest : r.window.rest = [])
      (h : r.inner.Holds text) (hspells : Spells (lines file) text) : Unread r file
  -- The lines of `file` are still to be read.
  | body {r : ArmorReader σ} {file text : Bytes} {sawLast : Bool}
      (hprogress : r.progress = .body sawLast)
      (hwindow : r.window.taken ≤ r.window.bytes.size) (hlast : sawLast = true → file = [])
      (h : r.inner.Holds text) (hspells : Spells (bodyLines file) text) :
      Unread r (r.window.rest ++ file)
  | done {r : ArmorReader σ} (hprogress : r.progress = .done)
      (hwindow : r.window.taken ≤ r.window.bytes.size) : Unread r r.window.rest

theorem Unread.taken_le (h : Unread r data) : r.window.taken ≤ r.window.bytes.size := by
  cases h with
  | start _ hwindow _ _ _ => exact hwindow
  | body _ hwindow _ _ _ => exact hwindow
  | done _ hwindow => exact hwindow

/-- Reading a line into a spent window leaves what is unread, and leaves the window empty only
where nothing is. -/
theorem readBody_of_unread {file text : Bytes} {sawLast : Bool} (hrest : r.window.rest = [])
    (hwindow : r.window.taken ≤ r.window.bytes.size) (hlast : sawLast = true → file = [])
    (h : r.inner.Holds text) (hspells : Spells (bodyLines file) text) :
    ∃ s, r.readBody sawLast = (.ok (), s) ∧ Unread s file ∧ (s.window.rest = [] → file = []) := by
  by_cases hfile : file = []
  · subst hfile
    rcases readBody_of_spells_nil hspells h sawLast with ⟨b, hb⟩
    refine ⟨_, hb, ?_, fun _ => rfl⟩
    rw [← hrest]
    exact .done rfl hwindow
  · have hmore : sawLast = false := by
      cases sawLast with
      | false => rfl
      | true => exact absurd (hlast rfl) hfile
    subst hmore
    rcases readBody_of_spells hfile hspells h with ⟨b, isLast, more, hb, hheld, hmore, hend⟩
    refine ⟨_, hb, ?_, ?_⟩
    · have hunread := Unread.body (r := { r with
        inner := b, progress := .body isLast, window := .ofBytes (file.take bytesPerLine) })
        rfl (Nat.zero_le _) hend hheld hmore
      rwa [Window.rest_ofBytes, List.take_append_drop] at hunread
    · intro hnil
      rw [Window.rest_ofBytes] at hnil
      exact absurd ((List.take_eq_nil_iff.1 hnil).resolve_left (by decide)) hfile

/-- Filling a spent window succeeds and changes nothing of what is unread; if the window stays
empty, nothing was. -/
theorem Unread.fill (h : Unread r data) (hrest : r.window.rest = []) :
    ∃ s, r.fill = (.ok (), s) ∧ Unread s data ∧ (s.window.rest = [] → data = []) := by
  have hstored := h
  cases h with
  | done hprogress hwindow =>
      refine ⟨r, ?_, hstored, id⟩
      simp only [ArmorReader.fill, hprogress]
  | @body file text sawLast hprogress hwindow hlast h hspells =>
      rw [hrest, List.nil_append]
      simp only [ArmorReader.fill, hprogress]
      exact readBody_of_unread hrest hwindow hlast h hspells
  | start hprogress hwindow _ h hspells =>
      rcases nextLine_of_spells plain_beginMarker (by decide) hspells h with
        ⟨b, rest, hline, hheld, hbody⟩
      simp only [ArmorReader.fill, hprogress, hline, if_true]
      exact readBody_of_unread (r := { r with inner := b, progress := .body false }) hrest hwindow
        (fun hno => by cases hno) hheld hbody

/-- Handing out of the window leaves the rest unread. -/
theorem Unread.handOut (h : Unread r data) (hspent : r.window.rest = [] → data = []) (n : Nat) :
    Answer Unread data none n
      (.ok (r.window.take n).1, { r with window := (r.window.take n).2 }) := by
  have hwindow := Window.taken_take_snd_le h.taken_le n
  have hrest := Window.rest_take_snd r.window n
  have hend : r.window.rest.take n = [] → n = 0 ∨ data = [] ∧ (none : Option IoError) = none := by
    intro hnil
    rcases List.take_eq_nil_iff.1 hnil with h0 | hnil
    · exact .inl h0
    · exact .inr ⟨hspent hnil, rfl⟩
  rw [Window.take_fst]
  cases h with
  | start hprogress _ hnil h hspells =>
      rw [hnil, List.drop_nil] at hrest
      have hkept : Unread { r with window := (r.window.take n).2 } data :=
        .start hprogress hwindow hrest h hspells
      refine .piece ?_ hend hkept
      rw [hnil, List.take_nil, List.nil_append]
  | @body file text sawLast hprogress _ hlast h hspells =>
      have hkept : Unread { r with window := (r.window.take n).2 }
          (r.window.rest.drop n ++ file) := by
        rw [← hrest]
        exact .body (r := { r with window := (r.window.take n).2 }) hprogress hwindow hlast h
          hspells
      refine .piece ?_ hend hkept
      rw [← List.append_assoc, List.take_append_drop]
  | done hprogress _ =>
      have hkept : Unread { r with window := (r.window.take n).2 } (r.window.rest.drop n) := by
        rw [← hrest]
        exact .done (r := { r with window := (r.window.take n).2 }) hprogress hwindow
      exact .piece (List.take_append_drop n _).symm hend hkept

/-- One read keeps what is unread. -/
theorem Unread.answer (h : Unread r data) (n : Nat) : Answer Unread data none n (r.read n) := by
  have hspent_iff := Window.isSpent_iff h.taken_le
  unfold ArmorReader.read
  cases hspent : r.window.isSpent with
  | true =>
      rcases h.fill (hspent_iff.1 hspent) with ⟨s, hs, hunread, hend⟩
      simp only [if_true, hs]
      exact hunread.handOut hend n
  | false =>
      simp only [Bool.false_eq_true, if_false]
      refine h.handOut (fun hnil => ?_) n
      cases hspent.symm.trans (hspent_iff.2 hnil)

/-- An armor reader over a text that spells the lines of a file delivers the file. -/
theorem delivers_of_spells {input : Buffered σ} {file text : Bytes} (h : input.Holds text)
    (hspells : Spells (lines file) text) : Delivers ({ inner := input } : ArmorReader σ) file :=
  Delivers.of_invariant Unread (fun _ _ n hr => hr.answer n)
    (.start rfl (Nat.zero_le _) rfl h hspells)

/-- An armor reader over the text of a file delivers the file. -/
theorem delivers {input : Buffered σ} {file : Bytes} (h : input.Holds (text file)) :
    Delivers ({ inner := input } : ArmorReader σ) file :=
  delivers_of_spells h (joinLines_lines file ▸ spells_joinLines _)

end ArmorReader
end AgeCrypt
