import AgeCrypt.Armor.Writer
import AgeCrypt.Proofs.Io.Intake

/-!
# What an armor writer passes on

An armor writer that is still to be given `rest` passes on the lines of its pending bytes and
`rest`, and the end marker (`Armor.ending`).  `Armoring` says that the sink below awaits just that;
writes keep it (`Armoring.intake`), whatever their sizes and whatever becomes of the sink below, and
finishing fulfils it (`Armoring.finish`).

So an armor writer over any holding sink that reports success has left the armored text
(`contents_of_armorAll`), and over a sink that does not fail it reports success
(`armorAll_of_steady`).
-/

namespace AgeCrypt

/-! ## Lines to come -/

namespace Armor

theorem length_take_of_full {b : Bytes} (h : ¬ (b.take bytesPerLine).length < bytesPerLine) :
    (b.take bytesPerLine).length = bytesPerLine :=
  Nat.le_antisymm (List.length_take_le _ _) (Nat.le_of_not_lt h)

variable [Base64]

/-- What is left of an armored text when the lines of `b` and the end marker are still to come. -/
def ending (b : Bytes) : Bytes :=
  (b.chunks bytesPerLine).flatMap dataLine ++ (endMarker ++ [Ascii.newline])

/-- An armored text is the begin marker and what is left after it. -/
theorem text_eq (file : Bytes) :
    text file = [beginMarker, [Ascii.newline]].flatten ++ ending file := by
  simp [text, ending]

theorem ending_nil : ending [] = endMarker ++ [Ascii.newline] := by
  rw [ending, Bytes.chunks, if_pos (.inl rfl), List.flatMap_nil, List.nil_append]

/-- The next line takes as many bytes as it has room for. -/
theorem ending_of_ne_nil {b : Bytes} (hne : b ≠ []) :
    ending b = dataLine (b.take bytesPerLine) ++ ending (b.drop bytesPerLine) := by
  rw [ending, Bytes.chunks, if_neg (by simp [hne, bytesPerLine]), List.flatMap_cons,
    List.append_assoc, ending]

/-- A run that fills a line is a line of its own. -/
theorem ending_append {line : Bytes} (hlen : line.length = bytesPerLine) (b : Bytes) :
    ending (line ++ b) = dataLine line ++ ending b := by
  have hne : line ++ b ≠ [] := by
    intro hnil
    rw [(List.append_eq_nil_iff.1 hnil).1] at hlen
    cases hlen
  rw [ending_of_ne_nil hne, List.take_left' hlen, List.drop_left' hlen]

/-- What `ArmorWriter.finish` writes when `b` is pending. -/
theorem ending_of_short {b : Bytes} (hlen : b.length < bytesPerLine) :
    ending b = ((if b = [] then [] else [dataLine b]) ++ [endMarker, [Ascii.newline]]).flatten := by
  by_cases hb : b = []
  · subst hb
    simp [ending_nil]
  · rw [ending_of_ne_nil hb, List.take_of_length_le (Nat.le_of_lt hlen),
      List.drop_of_length_le (Nat.le_of_lt hlen), ending_nil]
    simp [hb]

end Armor

namespace ArmorWriter

open Armor ByteSink HoldingSink

variable {τ : Type} [ByteSink τ] {awaits : τ → Bytes → Prop} {safe : τ → Prop}

/-- Armor can be begun over a sink that takes what it is offered. -/
theorem start_of_steady {stays : τ → Prop} (hsteady : Steady stays) {sink : τ} (h : stays sink) :
    ∃ w, start sink = .ok w ∧ stays w.inner := by
  rcases hsteady.writeEach h [beginMarker, [Ascii.newline]] with ⟨t, ht, hstays⟩
  refine ⟨{ inner := t }, ?_, hstays⟩
  simp only [start, ht]

variable [Base64]

/-- The sink below awaits the lines of the pending bytes and of `rest`, and no line is pending in
full. -/
structure Armoring (awaits : τ → Bytes → Prop) (w : ArmorWriter τ) (rest : Bytes) : Prop where
  length_lt : w.pending.length < bytesPerLine
  awaits_ending : awaits w.inner (ending (w.pending ++ rest))

/-- Starting writes the begin marker. -/
theorem start_of_awaits (I : Taking awaits safe) {sink : τ} {file : Bytes}
    (h : awaits sink (text file)) :
    (∃ w, start sink = .ok w ∧ Armoring awaits w file) ∨
      ∃ e t, start sink = .error (e, t) ∧ safe t := by
  rw [text_eq] at h
  have hmarker := I.writeEach h
  unfold start
  generalize writeEach sink [beginMarker, [Ascii.newline]] = answered at hmarker ⊢
  cases hmarker with
  | all hu => exact .inl ⟨_, rfl, by simp [bytesPerLine], hu⟩
  | failed hu => exact .inr ⟨_, _, rfl, hu⟩

/-- Lines that are full are passed on one by one. -/
theorem drain_of_awaits (I : Taking awaits safe) {w : ArmorWriter τ} {rest : Bytes}
    (h : awaits w.inner (ending (w.pending ++ rest))) :
    (∃ v, w.drain = (.ok (), v) ∧ Armoring awaits v rest) ∨
      ∃ e v, w.drain = (.error e, v) ∧ safe v.inner := by
  fun_induction drain w with
  | case1 w hshort =>
      refine .inl ⟨w, rfl, ?_, h⟩
      rw [List.length_take] at hshort
      omega
  | case2 w hfull t hw ih =>
      have hline := length_take_of_full hfull
      rw [← List.take_append_drop bytesPerLine w.pending, List.append_assoc,
        ending_append hline] at h
      have hgiven := I.writeAll h
      rw [hw] at hgiven
      exact ih hgiven.of_ok
  | case3 w hfull e t hw =>
      have hline := length_take_of_full hfull
      rw [← List.take_append_drop bytesPerLine w.pending, List.append_assoc,
        ending_append hline] at h
      have hgiven := I.writeAll h
      rw [hw] at hgiven
      exact .inr ⟨e, _, rfl, hgiven.of_error⟩

/-- An armor writer over sinks that respect what they await does so itself. -/
theorem Armoring.taking (I : Taking awaits safe) :
    Taking (Armoring awaits) (fun w => safe w.inner) where
  safe_of_awaits := fun h => I.safe_of_awaits h.awaits_ending
  offered := by
    intro w b more h
    change Offered _ _ _ _ (ArmorWriter.write w b)
    have hpending : awaits w.inner (ending ((w.pending ++ b) ++ more)) := by
      rw [List.append_assoc]
      exact h.awaits_ending
    rcases drain_of_awaits I (w := { w with pending := w.pending ++ b }) hpending with
      ⟨v, hv, harmoring⟩ | ⟨e, v, hv, hsafe⟩
    · simp only [ArmorWriter.write, hv]
      refine .taken ?_
      rw [List.drop_length]
      exact harmoring
    · simp only [ArmorWriter.write, hv]
      exact .fault (not_interrupted_of_drain hv) hsafe

/-- Through all writes the sink awaits the lines that are still to come, and a failure leaves it
safe. -/
theorem Armoring.intake (I : Intake awaits safe) :
    Intake (Armoring awaits) (fun w => safe w.inner) where
  toTaking := Armoring.taking I.toTaking
  awaits_flush := fun h => ⟨h.length_lt, I.awaits_flush h.awaits_ending⟩
  safe_flush := fun h => I.safe_flush h

/-- Finishing passes on all that is still to come. -/
theorem Armoring.finish (I : Intake awaits safe) {w : ArmorWriter τ} (h : Armoring awaits w []) :
    Given awaits safe [] w.finish := by
  have hending := h.awaits_ending
  rw [List.append_nil, ending_of_short h.length_lt, ← List.append_nil (List.flatten _)] at hending
  have hgiven := I.writeEach hending
  simp only [ArmorWriter.finish]
  generalize writeEach w.inner _ = answered at hgiven ⊢
  cases hgiven with
  | all hu => exact I.flush hu
  | failed hu => exact .failed hu

/-! ## All at once -/

def armorAll (sink : τ) (pieces : List Bytes) : Except IoError Unit × τ :=
  match start sink with
  | .error (e, t) => (.error e, t)
  | .ok w =>
      match writeEach w pieces with
      | (.error e, w) => (.error e, w.inner)
      | (.ok (), w) => w.finish

/-- A sink that awaits the armored text of the pieces gets no more than its front, and all of it on
success. -/
theorem armorAll_of_awaits (I : Intake awaits safe) {sink : τ} {pieces : List Bytes}
    (h : awaits sink (text pieces.flatten)) : Given awaits safe [] (armorAll sink pieces) := by
  unfold armorAll
  rcases start_of_awaits I.toTaking h with ⟨w, hw, harmoring⟩ | ⟨e, t, ht, hsafe⟩
  · rw [hw]
    rw [← List.append_nil pieces.flatten] at harmoring
    have hgiven := (Armoring.intake I).writeEach harmoring
    dsimp only
    generalize writeEach w pieces = answered at hgiven ⊢
    cases hgiven with
    | all hu => exact hu.finish I
    | failed hu => exact .failed hu
  · rw [ht]
    exact .failed hsafe

section

variable [HoldingSink τ]

/-- Whatever befalls the sink on the way, if armoring reports success it holds the armored text. -/
theorem contents_of_armorAll {sink t : τ} {pieces : List Bytes}
    (h : armorAll sink pieces = (.ok (), t)) :
    contents t = contents sink ++ text pieces.flatten := by
  have hgiven := armorAll_of_awaits (HoldingSink.intake (contents sink ++ text pieces.flatten)) rfl
  rw [h] at hgiven
  simpa using hgiven.of_ok

end

/-! ## Over sinks that do not fail -/

section

variable {stays : τ → Prop}

theorem drain_of_steady (hsteady : Steady stays) {w : ArmorWriter τ} (h : stays w.inner) :
    ∃ v, w.drain = (.ok (), v) ∧ stays v.inner := by
  fun_induction drain w with
  | case1 w hshort => exact ⟨w, rfl, h⟩
  | case2 w hfull t hw ih =>
      rcases hsteady.writeAll h (dataLine (w.pending.take bytesPerLine)) with ⟨u, hu, hstays⟩
      cases hw.symm.trans hu
      exact ih hstays
  | case3 w hfull e t hw =>
      rcases hsteady.writeAll h (dataLine (w.pending.take bytesPerLine)) with ⟨u, hu, -⟩
      cases hw.symm.trans hu

/-- A write takes all that it is offered. -/
theorem write_of_steady (hsteady : Steady stays) {w : ArmorWriter τ} (h : stays w.inner)
    (b : Bytes) : ∃ v, ByteSink.write w b = (.ok b.length, v) ∧ stays v.inner := by
  rcases drain_of_steady hsteady (w := { w with pending := w.pending ++ b }) h with
    ⟨v, hv, hstays⟩
  refine ⟨v, ?_, hstays⟩
  change ArmorWriter.write w b = _
  simp only [ArmorWriter.write, hv]

/-- An armor writer does not fail either. -/
theorem steady (hsteady : Steady stays) : Steady (fun w : ArmorWriter τ => stays w.inner) where
  accepted := by
    intro w b h
    rcases write_of_steady hsteady h b with ⟨v, hv, hstays⟩
    rw [hv]
    exact .taken List.length_pos_iff.2 hstays
  flush_ok := by
    intro w h
    rcases hsteady.flush_ok h with ⟨t, ht, hstays⟩
    refine ⟨{ w with inner := t }, ?_, hstays⟩
    change ArmorWriter.flush w = _
    simp only [ArmorWriter.flush, ht]

/-- Over a sink that does not fail and awaits the text, what is left of it is awaited after the
begin marker. -/
theorem start_of_taking (hsteady : Steady stays) (I : Taking awaits safe) {sink : τ} {file : Bytes}
    (hstays : stays sink) (h : awaits sink (text file)) :
    ∃ w, start sink = .ok w ∧ stays w.inner ∧ Armoring awaits w file := by
  rcases start_of_steady hsteady hstays with ⟨w, hw, hstarted⟩
  rcases start_of_awaits I h with ⟨v, hv, harmoring⟩ | ⟨e, t, ht, -⟩
  · cases hw.symm.trans hv
    exact ⟨w, hw, hstarted, harmoring⟩
  · cases hw.symm.trans ht

/-- Finishing succeeds over a sink that takes what it is offered. -/
theorem finish_of_steady (hsteady : Steady stays) {w : ArmorWriter τ} (h : stays w.inner) :
    ∃ t, w.finish = (.ok (), t) ∧ stays t := by
  rcases hsteady.writeEach h
    ((if w.pending = [] then [] else [dataLine w.pending]) ++ [endMarker, [Ascii.newline]]) with
    ⟨u, hu, hended⟩
  rcases hsteady.flush_ok hended with ⟨t, ht, hstays⟩
  refine ⟨t, ?_, hstays⟩
  simp only [ArmorWriter.finish, hu, ht]

/-- Pieces of any sizes are written in armor to a sink that takes what it is offered. -/
theorem armorAll_of_steady (hsteady : Steady stays) {sink : τ} (h : stays sink)
    (pieces : List Bytes) : ∃ t, armorAll sink pieces = (.ok (), t) ∧ stays t := by
  rcases start_of_steady hsteady h with ⟨w, hw, hstarted⟩
  rcases (steady hsteady).writeEach hstarted pieces with ⟨v, hv, hwritten⟩
  rcases finish_of_steady hsteady hwritten with ⟨t, ht, hstays⟩
  refine ⟨t, ?_, hstays⟩
  simp only [armorAll, hw, hv, ht]

end

end ArmorWriter
end AgeCrypt
