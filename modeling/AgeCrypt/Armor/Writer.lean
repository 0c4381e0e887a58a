import AgeCrypt.Armor.Error
import AgeCrypt.Armor.Text
import AgeCrypt.Io.Sink

/-!
# Armored output

A sink over a sink that armors what is written to it.  It holds back what does not fill a line until
`finish`.
-/

namespace AgeCrypt

structure ArmorWriter (τ : Type) where
  -- Where the text goes.
  inner : τ
  -- The bytes that do not fill a line yet.
  pending : Bytes := []

namespace ArmorWriter

open Armor ByteSink

variable [Base64] {τ : Type} [ByteSink τ]

/-- Write the begin marker and start armoring.  On failure the sink is given back. -/
def start (sink : τ) : Except (IoError × τ) (ArmorWriter τ) :=
  match writeEach sink [beginMarker, [Ascii.newline]] with
  | (.ok (), t) => .ok { inner := t }
  | (.error e, t) => .error (e, t)

/-- Write the pending bytes that fill lines.  The bytes of a line that fails are gone. -/
def drain (w : ArmorWriter τ) : Except IoError Unit × ArmorWriter τ :=
  if _h : (w.pending.take bytesPerLine).length < bytesPerLine then
    (.ok (), w)
  else
    match writeAll w.inner (dataLine (w.pending.take bytesPerLine)) with
    | (.ok (), t) => drain { inner := t, pending := w.pending.drop bytesPerLine }
    | (.error e, t) => (.error e, { inner := t, pending := w.pending.drop bytesPerLine })
termination_by w.pending.length
decreasing_by
  simp only [bytesPerLine, List.length_take, List.length_drop] at *
  omega

/-- Take all of `b`, and write the lines it fills. -/
def write (w : ArmorWriter τ) (b : Bytes) : Except IoError Nat × ArmorWriter τ :=
  match drain { w with pending := w.pending ++ b } with
  | (.ok (), v) => (.ok b.length, v)
  | (.error e, v) => (.error e, v)

def flush (w : ArmorWriter τ) : Except IoError Unit × ArmorWriter τ :=
  let (r, t) := ByteSink.flush w.inner
  (r, { w with inner := t })

/-- Write the last line and the end marker, and give the sink back. -/
def finish (w : ArmorWriter τ) : Except IoError Unit × τ :=
  let last := if w.pending = [] then [] else [dataLine w.pending]
  match writeEach w.inner (last ++ [endMarker, [Ascii.newline]]) with
  | (.ok (), t) => ByteSink.flush t
  | (.error e, t) => (.error e, t)

/-- An error while lines are written is no interruption. -/
theorem not_interrupted_of_drain {w v : ArmorWriter τ} {e : IoError}
    (h : drain w = (.error e, v)) : e.isInterrupted = false := by
  fun_induction drain w with
  | case1 => cases h
  | case2 w hl t hw ih => exact ih h
  | case3 w hl e' t hw =>
      cases h
      exact not_interrupted_of_writeAll hw

instance : ByteSink (ArmorWriter τ) where
  write := write
  flush := flush
  patience _ := 0
  taken_le := by
    intro w b n v h
    unfold write at h
    split at h
    · cases h
      exact Nat.le_refl _
    · cases h
  patience_of_ok := by
    intro _ _ _ _ _
    exact Nat.le_refl _
  patience_of_interrupted := by
    intro w b e v h hi
    unfold write at h
    split at h
    · cases h
    · rename_i hd
      cases h
      rw [not_interrupted_of_drain hd] at hi
      cases hi

end ArmorWriter

end AgeCrypt
