import AgeCrypt.Armor.Writer
import AgeCrypt.Io.Buffered
import AgeCrypt.Io.Window

/-!
# Armored input

The reader takes the armor off again.  Every data line but the last must be full, carriage returns
before a line feed are ignored, and only white space may follow the end marker.  An error does not
end the reading: a later read goes on with the next line.
-/

namespace AgeCrypt

namespace Armor

open Buffered

variable {σ : Type} [ByteSource σ]

/-- Whether the input begins like an armored text, judged by the bytes of one filled buffer and
without taking any. -/
def isArmored (input : Buffered σ) : Except IoError Bool × Buffered σ :=
  match input.fill with
  | (.error e, b) => (.error e, b)
  | (.ok (), b) =>
      let seen := b.buffer.take beginMarker.length
      (.ok (!seen.isEmpty && seen.isPrefixOf beginMarker), b)

inductive Progress where
  | start
  -- The begin marker has been read, and maybe a line that must be the last.
  | body (sawLast : Bool)
  -- The end marker has been read.
  | done
deriving DecidableEq, Repr

/-- A line without the line feed at its end and the carriage returns before it. -/
def trimLine (line : Bytes) : Bytes :=
  ((line.reverse.dropWhile (· == Ascii.newline)).dropWhile (· == Ascii.carriageReturn)).reverse

theorem length_trimLine_le (line : Bytes) : (trimLine line).length ≤ line.length := by
  have h1 := (List.dropWhile_sublist (· == Ascii.newline) (l := line.reverse)).length_le
  have h2 := (List.dropWhile_sublist (· == Ascii.carriageReturn)
    (l := line.reverse.dropWhile (· == Ascii.newline))).length_le
  simp only [trimLine, List.length_reverse] at *
  omega

end Armor

structure ArmorReader (σ : Type) where
  -- Where the text comes from.
  inner : Buffered σ
  -- How far the text has been read.
  progress : Armor.Progress := .start
  -- The bytes of the latest data line.
  window : Window := {}

namespace ArmorReader

open Armor Buffered

variable {σ : Type} [ByteSource σ]

def weight (r : ArmorReader σ) : Nat :=
  r.window.remaining + r.inner.weight

/-! ## Lines -/

/-- The next line, trimmed; `none` is the end of input. -/
def nextLine (r : ArmorReader σ) : Except IoError (Option Bytes) × ArmorReader σ :=
  match r.inner.readLine with
  | (.error e, b) =>
      (.error (if e.kind = .invalidData then .armor .malformedLine else e), { r with inner := b })
  | (.ok [], b) => (.ok none, { r with inner := b })
  | (.ok (x :: tail), b) =>
      if (Text.ofUtf8? (x :: tail)).isNone then
        (.error (.armor .malformedLine), { r with inner := b })
      else
        (.ok (some (trimLine (x :: tail))), { r with inner := b })

def finish (r : ArmorReader σ) : Except IoError Unit × ArmorReader σ :=
  match r.inner.readToEnd with
  | (.error e, b) => (.error e, { r with inner := b })
  | (.ok rest, b) =>
      if rest.all Ascii.isWhitespace then
        (.ok (), { r with inner := b, progress := .done })
      else
        (.error (.armor .trailingData), { r with inner := b })

/-- The line was in the input, and the window is left alone. -/
theorem nextLine_ok {r s : ArmorReader σ} {line : Option Bytes}
    (h : r.nextLine = (.ok line, s)) :
    s.window = r.window ∧ s.inner.weight + (line.getD []).length ≤ r.inner.weight := by
  unfold nextLine at h
  split at h
  · cases h
  · rename_i hr
    cases h
    have := weight_readLine_ok hr
    exact ⟨rfl, this⟩
  · rename_i x tail b hr
    have h1 := weight_readLine_ok hr
    split at h
    · cases h
    · cases h
      have h2 := length_trimLine_le (x :: tail)
      refine ⟨rfl, ?_⟩
      simp only [Option.getD_some] at h2 ⊢
      omega

/-- An interruption is not passed on, so whoever fails does not try again. -/
theorem nextLine_error {r s : ArmorReader σ} {e : IoError} (h : r.nextLine = (.error e, s)) :
    s.window = r.window ∧ s.inner.weight ≤ r.inner.weight ∧ e.isInterrupted = false := by
  unfold nextLine at h
  split at h
  · rename_i e' b hr
    cases h
    have h1 := weight_readLine_error hr
    refine ⟨rfl, h1.1, ?_⟩
    split
    · rfl
    · exact h1.2
  · cases h
  · rename_i x tail b hr
    have h1 := weight_readLine_ok hr
    split at h
    · cases h
      exact ⟨rfl, by simp only; omega, rfl⟩
    · cases h

theorem finish_ok {r s : ArmorReader σ} (h : r.finish = (.ok (), s)) :
    s.window = r.window ∧ s.inner.weight ≤ r.inner.weight := by
  unfold finish at h
  split at h
  · cases h
  · rename_i rest b hr
    have h1 := weight_readToEnd_ok hr
    split at h
    · cases h
      exact ⟨rfl, by simp only; omega⟩
    · cases h

theorem finish_error {r s : ArmorReader σ} {e : IoError} (h : r.finish = (.error e, s)) :
    s.window = r.window ∧ s.inner.weight ≤ r.inner.weight ∧ e.isInterrupted = false := by
  unfold finish at h
  split at h
  · rename_i e' b hr
    cases h
    have h1 := weight_readToEnd_error hr
    exact ⟨rfl, h1.1, h1.2⟩
  · rename_i rest b hr
    have h1 := weight_readToEnd_ok hr
    split at h
    · cases h
    · cases h
      exact ⟨rfl, by simp only; omega, rfl⟩

/-! ## Reading -/

variable [Base64]

/-- Read the next data line into the window, or the end marker. -/
def readBody (r : ArmorReader σ) (sawLast : Bool) : Except IoError Unit × ArmorReader σ :=
  match r.nextLine with
  | (.error e, r) => (.error e, r)
  | (.ok none, r) => (.error (.armor .missingEnd), r)
  | (.ok (some line), r) =>
      if line = endMarker then
        r.finish
      else if sawLast ∨ line = [] ∨ columnsPerLine < line.length then
        (.error (.armor .malformedLine), r)
      else
        match Base64.decodePadded? line with
        | none => (.error (.armor .malformedLine), r)
        | some b =>
            let isLast := line.length < columnsPerLine || line.getLast? == some Base64.padding
            (.ok (), { r with window := .ofBytes b, progress := .body isLast })

/-- Read on until the window holds bytes or the end marker has been read. -/
def fill (r : ArmorReader σ) : Except IoError Unit × ArmorReader σ :=
  match r.progress with
  | .done => (.ok (), r)
  | .body sawLast => r.readBody sawLast
  | .start =>
      match r.nextLine with
      | (.error e, r) => (.error e, r)
      | (.ok none, r) => (.error (.armor .missingBegin), r)
      | (.ok (some line), r) =>
          if line = beginMarker then
            { r with progress := .body false }.readBody false
          else
            (.error (.armor .missingBegin), r)

/-- Read at most `n` bytes.  A spent window is filled first, even where `n` is zero. -/
def read (r : ArmorReader σ) (n : Nat) : Except IoError Bytes × ArmorReader σ :=
  match (if r.window.isSpent then r.fill else (.ok (), r)) with
  | (.error e, r) => (.error e, r)
  | (.ok (), r) =>
      let piece := r.window.take n
      (.ok piece.1, { r with window := piece.2 })

/-! ## Weight -/

/-- What fills the window was taken out of the input, so refilling comes to an end. -/
theorem readBody_ok {r s : ArmorReader σ} {sawLast : Bool}
    (h : r.readBody sawLast = (.ok (), s)) (hw : r.window.remaining = 0) :
    s.weight ≤ r.inner.weight := by
  unfold readBody at h
  split at h
  · cases h
  · cases h
  · rename_i line r' hn
    obtain ⟨hwin, hle⟩ := nextLine_ok hn
    simp only [Option.getD_some] at hle
    split at h
    · obtain ⟨hwin', hle'⟩ := finish_ok h
      simp only [weight, hwin', hwin, hw]
      omega
    · split at h
      · cases h
      · split at h
        · cases h
        · rename_i b hb
          cases h
          have := Base64.length_of_decodePadded? hb
          simp only [weight, Window.remaining_ofBytes]
          omega

theorem readBody_error {r s : ArmorReader σ} {sawLast : Bool} {e : IoError}
    (h : r.readBody sawLast = (.error e, s)) (hw : r.window.remaining = 0) :
    s.weight ≤ r.inner.weight ∧ e.isInterrupted = false := by
  unfold readBody at h
  split at h
  · rename_i hn
    cases h
    obtain ⟨hwin, hle, hi⟩ := nextLine_error hn
    exact ⟨by simp only [weight, hwin, hw]; omega, hi⟩
  · rename_i hn
    cases h
    obtain ⟨hwin, hle⟩ := nextLine_ok hn
    exact ⟨by simp only [weight, hwin, hw]; omega, rfl⟩
  · rename_i line r' hn
    obtain ⟨hwin, hle⟩ := nextLine_ok hn
    split at h
    · obtain ⟨hwin', hle', hi⟩ := finish_error h
      exact ⟨by simp only [weight, hwin', hwin, hw]; omega, hi⟩
    · split at h
      · cases h
        exact ⟨by simp only [weight, hwin, hw]; omega, rfl⟩
      · split at h
        · cases h
          exact ⟨by simp only [weight, hwin, hw]; omega, rfl⟩
        · cases h

/-- Filling a spent window does not add to what is left. -/
theorem fill_ok {r s : ArmorReader σ} (h : r.fill = (.ok (), s)) (hw : r.window.remaining = 0) :
    s.weight ≤ r.weight := by
  unfold fill at h
  split at h
  · cases h
    exact Nat.le_refl _
  · have := readBody_ok h hw
    simp only [weight] at this ⊢
    omega
  · split at h
    · cases h
    · cases h
    · rename_i line r' hn
      obtain ⟨hwin, hle⟩ := nextLine_ok hn
      split at h
      · have := readBody_ok h (by simp only [hwin, hw])
        simp only [weight] at this ⊢
        omega
      · cases h

/-- A failure to fill is final: it is no interruption. -/
theorem fill_error {r s : ArmorReader σ} {e : IoError} (h : r.fill = (.error e, s))
    (hw : r.window.remaining = 0) : s.weight ≤ r.weight ∧ e.isInterrupted = false := by
  unfold fill at h
  split at h
  · cases h
  · obtain ⟨h1, h2⟩ := readBody_error h hw
    refine ⟨?_, h2⟩
    simp only [weight] at h1 ⊢
    omega
  · split at h
    · rename_i hn
      cases h
      obtain ⟨hwin, hle, hi⟩ := nextLine_error hn
      exact ⟨by simp only [weight, hwin, hw]; omega, hi⟩
    · rename_i hn
      cases h
      obtain ⟨hwin, hle⟩ := nextLine_ok hn
      exact ⟨by simp only [weight, hwin, hw]; omega, rfl⟩
    · rename_i line r' hn
      obtain ⟨hwin, hle⟩ := nextLine_ok hn
      split at h
      · obtain ⟨h1, h2⟩ := readBody_error h (by simp only [hwin, hw])
        refine ⟨?_, h2⟩
        simp only [weight] at h1 ⊢
        omega
      · cases h
        exact ⟨by simp only [weight, hwin, hw]; omega, rfl⟩

instance : ByteSource (ArmorReader σ) where
  read := read
  weight := weight
  length_le := by
    intro r n b s h
    unfold read at h
    split at h
    · cases h
    · cases h
      rw [Window.length_take_fst]
      omega
  weight_of_ok := by
    intro r n b s h
    unfold read at h
    split at h
    · cases h
    · rename_i r' hf
      cases h
      have hle : r'.weight ≤ r.weight := by
        split at hf
        · rename_i hs
          exact fill_ok hf (Window.remaining_of_isSpent hs)
        · cases hf
          exact Nat.le_refl _
      have h1 := Window.length_take_fst r'.window n
      have h2 := Window.remaining_take_snd r'.window n
      simp only [weight] at hle h1 h2 ⊢
      omega
  weight_of_error := by
    intro r n e s h
    unfold read at h
    split at h
    · rename_i hf
      cases h
      split at hf
      · rename_i hs
        obtain ⟨h1, h2⟩ := fill_error hf (Window.remaining_of_isSpent hs)
        simp only [h2, Bool.false_eq_true, if_false]
        omega
      · cases hf
    · cases h

end ArmorReader

end AgeCrypt
