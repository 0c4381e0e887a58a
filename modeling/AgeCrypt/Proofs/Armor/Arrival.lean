import AgeCrypt.Armor.Reader
import AgeCrypt.Proofs.Io.Mirroring

/-!
# Armored input, however it arrives

Armor readers that are as far as each other, over inputs that hold the same bytes, are mirrored
(`ArmorReader.Likewise.mirrored`), whether the bytes are well-formed armor or not.  An error does
not end the reading, so it is not enough to compare what comes before the first one: each step is
shown to answer alike and to keep the readers alike, its errors included.

What does depend on the arrival is whether the input is taken for an armored one, since only the
first filled buffer is looked at (`Armor.isArmored_of_holds`).  Input that is wrongly taken for one
is refused at its first line (`ArmorReader.fill_of_unmarked`).
-/

namespace AgeCrypt

open ByteSource Buffered Armor

variable {σ τ : Type} [ByteSource σ] [ByteSource τ]

namespace ArmorReader

/-- Armor readers that are as far as each other, over inputs that hold the same. -/
inductive Likewise : ArmorReader σ → ArmorReader τ → Prop where
  | intro {a : Buffered σ} {b : Buffered τ} {progress : Progress} {window : Window} {data : Bytes}
      (ha : a.Holds data) (hb : b.Holds data) :
      Likewise { inner := a, progress, window } { inner := b, progress, window }

namespace Likewise

variable {r : ArmorReader σ} {q : ArmorReader τ}

/-- Two readers that are as far as each other find the same line. -/
theorem nextLine (h : Likewise r q) : Paired Likewise r.nextLine q.nextLine := by
  cases h with
  | @intro a b progress window data ha hb =>
      rcases ha.readLine none with ⟨c, ⟨hc, hc_holds⟩ | ⟨e, -, hend, -⟩⟩
      · rcases hb.readLine none with ⟨d, ⟨hd, hd_holds⟩ | ⟨e, -, hend, -⟩⟩
        · generalize (through Ascii.newline (clip none data)).1 = line at *
          cases line with
          | nil =>
              simp only [ArmorReader.nextLine, hc, hd]
              exact .intro (.intro hc_holds hd_holds)
          | cons x tail =>
              simp only [ArmorReader.nextLine, hc, hd]
              split <;> exact .intro (.intro hc_holds hd_holds)
        · cases hend
      · cases hend

theorem finish (h : Likewise r q) : Paired Likewise r.finish q.finish := by
  cases h with
  | @intro a b progress window data ha hb =>
      rcases ha.readToEnd_ok with ⟨c, hc, hc_holds⟩
      rcases hb.readToEnd_ok with ⟨d, hd, hd_holds⟩
      simp only [ArmorReader.finish, hc, hd]
      split <;> exact .intro (.intro hc_holds hd_holds)

variable [Base64]

theorem readBody (h : Likewise r q) (sawLast : Bool) :
    Paired Likewise (r.readBody sawLast) (q.readBody sawLast) := by
  have hline := h.nextLine
  unfold ArmorReader.readBody
  generalize r.nextLine = answered at hline ⊢
  generalize q.nextLine = answered' at hline ⊢
  cases hline with
  | @intro answer r q h =>
      match answer with
      | .error e => exact .intro h
      | .ok none => exact .intro h
      | .ok (some line) =>
          dsimp only
          split
          · exact h.finish
          · split
            · exact .intro h
            · cases Base64.decodePadded? line with
              | none => exact .intro h
              | some bytes =>
                  cases h with
                  | intro ha hb => exact .intro (.intro ha hb)

theorem fill (h : Likewise r q) : Paired Likewise r.fill q.fill := by
  have hprogress : r.progress = q.progress := by
    cases h
    rfl
  unfold ArmorReader.fill
  rw [hprogress]
  cases q.progress with
  | done => exact .intro h
  | body sawLast => exact h.readBody sawLast
  | start =>
      have hline := h.nextLine
      dsimp only
      generalize r.nextLine = answered at hline ⊢
      generalize q.nextLine = answered' at hline ⊢
      cases hline with
      | @intro answer r q h =>
          match answer with
          | .error e => exact .intro h
          | .ok none => exact .intro h
          | .ok (some line) =>
              dsimp only
              split
              · cases h with
                | intro ha hb => exact readBody (.intro ha hb) false
              · exact .intro h

/-- What a read answers does not depend on how the input arrives. -/
theorem read (h : Likewise r q) (n : Nat) : Paired Likewise (r.read n) (q.read n) := by
  have hwindow : r.window = q.window := by
    cases h
    rfl
  have hfill : Paired Likewise (if r.window.isSpent then r.fill else (.ok (), r))
      (if q.window.isSpent then q.fill else (.ok (), q)) := by
    rw [hwindow]
    split
    · exact h.fill
    · exact .intro h
  unfold ArmorReader.read
  generalize (if r.window.isSpent then r.fill else (.ok (), r)) = filled at hfill ⊢
  generalize (if q.window.isSpent then q.fill else (.ok (), q)) = filled' at hfill ⊢
  cases hfill with
  | @intro answer r q h =>
      cases answer with
      | error e => exact .intro h
      | ok =>
          cases h with
          | intro ha hb => exact .intro (.intro ha hb)

/-- Readers that are as far as each other stay so whatever is read. -/
theorem mirrored (h : Likewise r q) : Mirrored r q :=
  .of_invariant Likewise (fun _ _ n h => h.read n) h

end Likewise
end ArmorReader

/-! ## Text without the marker -/

theorem Armor.trimLine_prefix (line : Bytes) : trimLine line <+: line := by
  have hsuffix : (line.reverse.dropWhile (· == Ascii.newline)).dropWhile (· == Ascii.carriageReturn)
      <:+ line.reverse :=
    (List.dropWhile_suffix _).trans (List.dropWhile_suffix _)
  have hprefix := List.reverse_prefix.2 hsuffix
  rwa [List.reverse_reverse] at hprefix

/-- Behind an armor reader, input that does not begin with the marker fails at its first line. -/
theorem ArmorReader.fill_of_unmarked [Base64] {input : Buffered σ} {data : Bytes}
    (hmarker : ¬ Armor.beginMarker <+: data) (h : input.Holds data) :
    ∃ e r, ({ inner := input } : ArmorReader σ).fill = (.error e, r) := by
  rcases h.readLine none with ⟨c, ⟨hc, -⟩ | ⟨e, -, hend, -⟩⟩
  · have hfirst : (through Ascii.newline (clip none data)).1 <+: data :=
      through_prefix Ascii.newline data
    generalize (through Ascii.newline (clip none data)).1 = line at hc hfirst
    cases line with
    | nil =>
        refine ⟨.armor .missingBegin, { inner := c }, ?_⟩
        simp only [fill, nextLine, hc]
    | cons x tail =>
        have hother : Armor.trimLine (x :: tail) ≠ Armor.beginMarker := by
          intro heq
          exact hmarker (heq ▸ (Armor.trimLine_prefix _).trans hfirst)
        by_cases htext : (Text.ofUtf8? (x :: tail)).isNone
        · refine ⟨.armor .malformedLine, { inner := c }, ?_⟩
          simp only [fill, nextLine, hc, htext, if_true]
        · refine ⟨.armor .missingBegin, { inner := c }, ?_⟩
          simp only [fill, nextLine, hc, htext, Bool.false_eq_true, if_false, hother]
  · cases hend

end AgeCrypt
