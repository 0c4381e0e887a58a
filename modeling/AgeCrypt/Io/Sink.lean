import AgeCrypt.Bytes
import AgeCrypt.Io.Source

/-!
# Byte sinks

A byte sink is a state that bytes can be written to: a write offers some bytes and the sink takes a
number of them from the front, or fails.  A sink may go on after an error.

`writeAll` offers what is left until all is taken; it tries again after an interruption.  The
`patience` of a sink bounds its interruptions, so the loop ends.
-/

namespace AgeCrypt

/-- A state that bytes can be written to. -/
class ByteSink (τ : Type) where
  -- Offer bytes; the answer is how many were taken.
  write : τ → Bytes → Except IoError Nat × τ
  -- Push on what the sink itself holds back.
  flush : τ → Except IoError Unit × τ
  -- A bound on the interruptions still to come.
  patience : τ → Nat
  -- No more is taken than was offered.
  taken_le : ∀ {t b n u}, write t b = (.ok n, u) → n ≤ b.length
  -- A write that succeeds adds no interruptions.
  patience_of_ok : ∀ {t b n u}, write t b = (.ok n, u) → patience u ≤ patience t
  -- An interruption is paid for.
  patience_of_interrupted : ∀ {t b e u}, write t b = (.error e, u) → e.isInterrupted = true →
    patience u < patience t

namespace ByteSink

variable {τ : Type} [ByteSink τ]

def writeAll (t : τ) (b : Bytes) : Except IoError Unit × τ :=
  if b = [] then
    (.ok (), t)
  else
    match _h : write t b with
    | (.ok 0, u) => (.error .shortWrite, u)
    | (.ok (n + 1), u) => writeAll u (b.drop (n + 1))
    | (.error e, u) =>
        if e.isInterrupted then writeAll u b else (.error e, u)
termination_by patience t + b.length
decreasing_by
  · have h1 := patience_of_ok _h
    have h2 := taken_le _h
    simp only [List.length_drop]
    omega
  · rename_i hi
    have := patience_of_interrupted _h hi
    omega

/-- An error of `writeAll` is no interruption. -/
theorem not_interrupted_of_writeAll {t u : τ} {b : Bytes} {e : IoError}
    (h : writeAll t b = (.error e, u)) : e.isInterrupted = false := by
  fun_induction writeAll t b with
  | case1 => cases h
  | case2 t b _ u' hw =>
      cases h
      rfl
  | case3 t b _ n u' hw ih => exact ih h
  | case4 t b _ e' u' hw hi ih => exact ih h
  | case5 t b _ e' u' hw hi =>
      cases h
      simpa using hi

/-- Write each piece in full, stopping at the first error. -/
def writeEach (t : τ) : List Bytes → Except IoError Unit × τ
  | [] => (.ok (), t)
  | piece :: pieces =>
      match writeAll t piece with
      | (.ok (), u) => writeEach u pieces
      | (.error e, u) => (.error e, u)

def portionSize : Nat := 8192

open ByteSource in
/-- Move all that is left in a source to a sink, a portion at a time. -/
def copy {σ : Type} [ByteSource σ] (s : σ) (t : τ) : Except IoError Unit × σ × τ :=
  match _h : read s portionSize with
  | (.ok [], s') => (.ok (), s', t)
  | (.ok (x :: b), s') =>
      match writeAll t (x :: b) with
      | (.ok (), u) => copy s' u
      | (.error e, u) => (.error e, s', u)
  | (.error e, s') =>
      if e.isInterrupted then copy s' t else (.error e, s', t)
termination_by weight s
decreasing_by
  · have := weight_of_ok _h
    simp only [List.length_cons] at this
    omega
  · rename_i hi
    have := weight_of_error _h
    simp only [hi, if_true] at this
    omega

end ByteSink

end AgeCrypt
