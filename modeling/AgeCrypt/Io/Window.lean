import AgeCrypt.Bytes

/-!
# Windows

A block of bytes that is handed out piece by piece.  What has not been handed out yet is `rest`; the
readers that decode a block at a time keep it in a window.
-/

namespace AgeCrypt

/-- A block of bytes and how many of them have been handed out. -/
structure Window where
  bytes : Array UInt8 := #[]
  -- How many of its bytes have been handed out.
  taken : Nat := 0

namespace Window

def ofBytes (b : Bytes) : Window :=
  { bytes := b.toArray }

def rest (w : Window) : Bytes :=
  w.bytes.toList.drop w.taken

def remaining (w : Window) : Nat :=
  w.bytes.size - w.taken

def isSpent (w : Window) : Bool :=
  w.taken == w.bytes.size

def take (w : Window) (n : Nat) : Bytes × Window :=
  let m := min n w.remaining
  ((w.bytes.extract w.taken (w.taken + m)).toList, { w with taken := w.taken + m })

@[simp] theorem remaining_ofBytes (b : Bytes) : (ofBytes b).remaining = b.length := by
  simp [ofBytes, remaining]

theorem remaining_of_isSpent {w : Window} (h : w.isSpent = true) : w.remaining = 0 := by
  simp only [isSpent, beq_iff_eq] at h
  simp only [remaining]
  omega

theorem length_take_fst (w : Window) (n : Nat) : (w.take n).1.length = min n w.remaining := by
  simp only [take, remaining, Array.length_toList, Array.size_extract]
  omega

theorem remaining_take_snd (w : Window) (n : Nat) :
    (w.take n).2.remaining = w.remaining - min n w.remaining := by
  simp only [take, remaining]
  omega

@[simp] theorem rest_ofBytes (b : Bytes) : (ofBytes b).rest = b := by
  simp [ofBytes, rest]

/-- What is handed out is the front of what remains. -/
theorem take_fst (w : Window) (n : Nat) : (w.take n).1 = w.rest.take n := by
  simp only [take, rest, remaining, Array.toList_extract, List.extract_eq_take_drop,
    Nat.add_sub_cancel_left]
  rw [← Array.length_toList, ← List.length_drop, ← List.take_eq_take_min]

/-- What was handed out is gone from what remains. -/
theorem rest_take_snd (w : Window) (n : Nat) : (w.take n).2.rest = w.rest.drop n := by
  simp only [take, rest, remaining, List.drop_drop]
  by_cases h : w.bytes.size - w.taken ≤ n
  · rw [Nat.min_eq_right h, List.drop_of_length_le, List.drop_of_length_le]
    all_goals
      simp only [Array.length_toList]
      omega
  · rw [Nat.min_eq_left (by omega)]

/-- Whether all bytes have been handed out shows in the rest, unless more were than there are. -/
theorem isSpent_iff {w : Window} (h : w.taken ≤ w.bytes.size) : w.isSpent = true ↔ w.rest = [] := by
  simp only [isSpent, beq_iff_eq, rest, List.drop_eq_nil_iff, Array.length_toList]
  omega

theorem taken_take_snd_le {w : Window} (h : w.taken ≤ w.bytes.size) (n : Nat) :
    (w.take n).2.taken ≤ (w.take n).2.bytes.size := by
  simp only [take, remaining]
  omega

end Window

end AgeCrypt
