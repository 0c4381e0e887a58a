import AgeCrypt.Io.Source
import AgeCrypt.Text.Ascii

/-!
# Buffered sources

A source with a buffer in front of it.  The buffer is filled by one read of the source when it has
run empty, so bytes can be looked at before they are taken, and lines can be read.
-/

namespace AgeCrypt

/-- A source and the bytes read from it but not yet taken. -/
structure Buffered (σ : Type) where
  inner : σ
  capacity : Nat := 8192
  -- The bytes read but not yet taken.
  buffer : Bytes := []

namespace Buffered

open ByteSource

variable {σ : Type} [ByteSource σ]

def weight (b : Buffered σ) : Nat :=
  b.buffer.length + ByteSource.weight b.inner

/-- Fill an empty buffer by one read of the source; an empty buffer afterwards is the end of
input. -/
def fill (b : Buffered σ) : Except IoError Unit × Buffered σ :=
  if b.buffer = [] then
    match read b.inner b.capacity with
    | (.ok got, t) => (.ok (), { b with inner := t, buffer := got })
    | (.error e, t) => (.error e, { b with inner := t })
  else
    (.ok (), b)

/-- Filling the buffer moves bytes from the source, and adds none. -/
theorem weight_fill_ok {b c : Buffered σ} (h : b.fill = (.ok (), c)) : c.weight ≤ b.weight := by
  unfold fill at h
  split at h
  · rename_i hb
    split at h
    · rename_i got t hr
      cases h
      have := weight_of_ok hr
      simp only [weight, hb, List.length_nil]
      omega
    · cases h
  · cases h
    exact Nat.le_refl _

/-- An interruption is used up by a failed fill. -/
theorem weight_fill_error {b c : Buffered σ} {e : IoError} (h : b.fill = (.error e, c)) :
    c.weight + (if e.isInterrupted then 1 else 0) ≤ b.weight := by
  unfold fill at h
  split at h
  · split at h
    · cases h
    · rename_i t hr
      cases h
      have := weight_of_error hr
      simp only [weight]
      omega
  · cases h

def consume (b : Buffered σ) (n : Nat) : Buffered σ :=
  { b with buffer := b.buffer.drop n }

/-- Read at most `n` bytes.  A read that an empty buffer could not serve at once goes straight to
the source. -/
def read (b : Buffered σ) (n : Nat) : Except IoError Bytes × Buffered σ :=
  if b.buffer = [] ∧ b.capacity ≤ n then
    match ByteSource.read b.inner n with
    | (.ok got, t) => (.ok got, { b with inner := t })
    | (.error e, t) => (.error e, { b with inner := t })
  else
    match b.fill with
    | (.ok (), c) => (.ok (c.buffer.take n), c.consume n)
    | (.error e, c) => (.error e, c)

instance : ByteSource (Buffered σ) where
  read := read
  weight := weight
  length_le := by
    intro b n got c h
    unfold read at h
    split at h
    · split at h
      · rename_i hr
        cases h
        exact length_le hr
      · cases h
    · split at h
      · cases h
        simp only [List.length_take]
        omega
      · cases h
  weight_of_ok := by
    intro b n got c h
    unfold read at h
    split at h
    · split at h
      · rename_i hr
        cases h
        have := weight_of_ok hr
        simp only [weight]
        omega
      · cases h
    · split at h
      · rename_i d hf
        cases h
        have := weight_fill_ok hf
        simp only [weight, consume, List.length_take, List.length_drop] at this ⊢
        omega
      · cases h
  weight_of_error := by
    intro b n e c h
    unfold read at h
    split at h
    · split at h
      · cases h
      · rename_i hr
        cases h
        have := weight_of_error hr
        simp only [weight]
        omega
    · split at h
      · cases h
      · rename_i hf
        cases h
        exact weight_fill_error hf

/-! ## The rest -/

/-- Read all that is left: what is in the buffer, and then the source to its end. -/
def readToEnd (b : Buffered σ) : Except IoError Bytes × Buffered σ :=
  match readToEndFrom b.inner (.start b.buffer.length) b.buffer.toArray with
  | (.ok got, t) => (.ok got.toList, { b with inner := t, buffer := [] })
  | (.error e, t) => (.error e, { b with inner := t, buffer := [] })

/-- All that is read was there. -/
theorem weight_readToEnd_ok {b c : Buffered σ} {got : Bytes} (h : b.readToEnd = (.ok got, c)) :
    c.weight + got.length ≤ b.weight := by
  unfold readToEnd at h
  split at h
  · rename_i hr
    cases h
    have := weight_readToEndFrom_ok hr
    simp only [weight, List.length_nil, Array.length_toList, List.size_toArray] at this ⊢
    omega
  · cases h

theorem weight_readToEnd_error {b c : Buffered σ} {e : IoError}
    (h : b.readToEnd = (.error e, c)) : c.weight ≤ b.weight ∧ e.isInterrupted = false := by
  unfold readToEnd at h
  split at h
  · cases h
  · rename_i hr
    cases h
    have := weight_readToEndFrom_error hr
    simp only [weight, List.length_nil]
    exact ⟨by omega, this.2⟩

/-! ## Lines -/

/-- The bytes up to and including the first `mark`, and whether it occurs. -/
def through (mark : UInt8) : Bytes → Bytes × Bool
  | [] => ([], false)
  | x :: rest =>
      if x = mark then
        ([x], true)
      else
        let (taken, found) := through mark rest
        (x :: taken, found)

theorem length_through_le (mark : UInt8) (b : Bytes) : (through mark b).1.length ≤ b.length := by
  induction b with
  | nil => simp [through]
  | cons x rest ih =>
      simp only [through]
      split
      · simp
      · simpa using ih

/-- Something is taken of any bytes that are there. -/
theorem through_ne_nil {mark : UInt8} {b : Bytes} (h : b ≠ []) : (through mark b).1 ≠ [] := by
  cases b with
  | nil => exact absurd rfl h
  | cons x rest =>
      simp only [through]
      split <;> simp

/-- What may be taken of the buffer when at most `limit` more bytes are wanted. -/
def window (b : Buffered σ) : Option Nat → Bytes
  | none => b.buffer
  | some limit => b.buffer.take limit

omit [ByteSource σ] in
theorem length_window_le (b : Buffered σ) (limit : Option Nat) :
    (b.window limit).length ≤ b.buffer.length := by
  cases limit with
  | none => simp [window]
  | some limit =>
      simp only [window, List.length_take]
      omega

/-- Read through the first `mark`, to the limit, or to the end of input, after what is in `acc`. -/
def readThroughFrom (mark : UInt8) (b : Buffered σ) (limit : Option Nat) (acc : Array UInt8) :
    Except IoError (Array UInt8) × Buffered σ :=
  if limit = some 0 then
    (.ok acc, b)
  else
    match _h : b.fill with
    | (.ok (), c) =>
        if _hw : c.window limit = [] then
          (.ok acc, c)
        else
          let piece := through mark (c.window limit)
          let d := c.consume piece.1.length
          if piece.2 then
            (.ok (acc ++ piece.1), d)
          else
            readThroughFrom mark d (limit.map (· - piece.1.length)) (acc ++ piece.1)
    | (.error e, c) =>
        if e.isInterrupted then readThroughFrom mark c limit acc else (.error e, c)
termination_by b.weight
decreasing_by
  · have h1 := weight_fill_ok _h
    have h2 : 0 < (through mark (c.window limit)).1.length :=
      List.length_pos_iff.2 (through_ne_nil _hw)
    have h3 := length_through_le mark (c.window limit)
    have h4 := length_window_le c limit
    simp only [weight, consume, List.length_drop] at h1 ⊢
    omega
  · rename_i hi
    have := weight_fill_error _h
    simp only [hi, if_true] at this
    omega

/-- Read through the first `mark`; without one, to the limit or to the end of input. -/
def readThrough (mark : UInt8) (b : Buffered σ) (limit : Option Nat) :
    Except IoError Bytes × Buffered σ :=
  match readThroughFrom mark b limit #[] with
  | (.ok got, c) => (.ok got.toList, c)
  | (.error e, c) => (.error e, c)

/-- Read a line with its line feed, which only the last line may lack.  The empty answer is the end
of input. -/
def readLine (b : Buffered σ) (limit : Option Nat := none) : Except IoError Bytes × Buffered σ :=
  readThrough Ascii.newline b limit

/-- A line that was read is paid for. -/
theorem weight_readThroughFrom_ok {mark : UInt8} {b c : Buffered σ} {limit : Option Nat}
    {acc got : Array UInt8} (h : readThroughFrom mark b limit acc = (.ok got, c)) :
    c.weight + got.size ≤ b.weight + acc.size := by
  fun_induction readThroughFrom mark b limit acc with
  | case1 b acc =>
      cases h
      omega
  | case2 b limit acc _ c' hf hw =>
      cases h
      have := weight_fill_ok hf
      omega
  | case3 b limit acc _ c' hf hw piece d hp =>
      simp only [Prod.mk.injEq, Except.ok.injEq] at h
      rw [← h.1, ← h.2]
      have h1 := weight_fill_ok hf
      have h3 := length_through_le mark (c'.window limit)
      have h4 := length_window_le c' limit
      simp only [d, piece, weight, consume, List.length_drop, Bytes.size_append] at h1 ⊢
      omega
  | case4 b limit acc _ c' hf hw piece d hp ih =>
      have h0 := ih h
      have h1 := weight_fill_ok hf
      have h3 := length_through_le mark (c'.window limit)
      have h4 := length_window_le c' limit
      simp only [d, piece, weight, consume, List.length_drop, Bytes.size_append] at h0 h1 ⊢
      omega
  | case5 b limit acc _ e c' hf hi ih =>
      have h0 := ih h
      have h1 := weight_fill_error hf
      omega
  | case6 b limit acc _ e c' hf hi => cases h

/-- An error in the middle of a line is no interruption and costs nothing. -/
theorem weight_readThroughFrom_error {mark : UInt8} {b c : Buffered σ} {limit : Option Nat}
    {acc : Array UInt8} {e : IoError} (h : readThroughFrom mark b limit acc = (.error e, c)) :
    c.weight ≤ b.weight ∧ e.isInterrupted = false := by
  fun_induction readThroughFrom mark b limit acc with
  | case1 b acc => cases h
  | case2 b limit acc _ c' hf hw => cases h
  | case3 b limit acc _ c' hf hw piece d hp => cases h
  | case4 b limit acc _ c' hf hw piece d hp ih =>
      have h0 := ih h
      have h1 := weight_fill_ok hf
      refine ⟨?_, h0.2⟩
      have h3 := h0.1
      simp only [d, weight, consume, List.length_drop] at h1 h3 ⊢
      omega
  | case5 b limit acc _ e' c' hf hi ih =>
      have h0 := ih h
      have h1 := weight_fill_error hf
      exact ⟨by omega, h0.2⟩
  | case6 b limit acc _ e' c' hf hi =>
      cases h
      have h1 := weight_fill_error hf
      exact ⟨by omega, by simpa using hi⟩

/-- A line was in the input before it was read. -/
theorem weight_readLine_ok {b c : Buffered σ} {limit : Option Nat} {line : Bytes}
    (h : b.readLine limit = (.ok line, c)) : c.weight + line.length ≤ b.weight := by
  unfold readLine readThrough at h
  split at h
  · rename_i got c' hr
    cases h
    have := weight_readThroughFrom_ok hr
    simpa using this
  · cases h

/-- An interrupted read of a line goes on, so the error that is left is no interruption. -/
theorem weight_readLine_error {b c : Buffered σ} {limit : Option Nat} {e : IoError}
    (h : b.readLine limit = (.error e, c)) : c.weight ≤ b.weight ∧ e.isInterrupted = false := by
  unfold readLine readThrough at h
  split at h
  · cases h
  · rename_i e' c' hr
    cases h
    exact weight_readThroughFrom_error hr

end Buffered

end AgeCrypt
