import AgeCrypt.Crypto.Sha256

/-!
# The schedule of SHA-256

The words of the schedule are made one after another, each from the sixteen before it.  So it is
enough to slide a window of sixteen words over them (`Sha256.schedule_eq_slide`), and the words
behind the window are never looked at again.  Hashes of given messages are evaluated in this form
(`Sha256.compress_eq_slide`).
-/

namespace AgeCrypt
namespace Crypto
namespace Sha256

/-- The word behind a window of sixteen. -/
def next (window : List UInt32) : UInt32 :=
  let w15 := window.getD 1 0
  let w2 := window.getD 14 0
  let s0 := rotateRight w15 7 ^^^ rotateRight w15 18 ^^^ (w15 >>> 3)
  let s1 := rotateRight w2 17 ^^^ rotateRight w2 19 ^^^ (w2 >>> 10)
  window.getD 0 0 + s0 + window.getD 9 0 + s1

/-- A window and the `n` words behind it. -/
def slide : (n : Nat) → (window : List UInt32) → List UInt32
  | 0, window => window
  | n + 1, window => window.getD 0 0 :: slide n (window.drop 1 ++ [next window])

def extend (w : Array UInt32) (t : Nat) : Array UInt32 :=
  let w15 := w.getD (t + 1) 0
  let w2 := w.getD (t + 14) 0
  let s0 := rotateRight w15 7 ^^^ rotateRight w15 18 ^^^ (w15 >>> 3)
  let s1 := rotateRight w2 17 ^^^ rotateRight w2 19 ^^^ (w2 >>> 10)
  w.push (w.getD t 0 + s0 + w.getD (t + 9) 0 + s1)

/-- The next word of the schedule depends on the last sixteen only. -/
theorem extend_eq (before window : List UInt32) :
    extend (before ++ window).toArray before.length =
      (before ++ (window ++ [next window])).toArray := by
  have hword : ∀ k, (before ++ window).toArray.getD (before.length + k) 0 = window.getD k 0 := by
    intro k
    simp [List.getElem?_append_right]
  have hfirst := hword 0
  rw [Nat.add_zero] at hfirst
  simp only [extend, hword, hfirst, List.push_toArray, List.append_assoc]
  rfl

/-- What is before the window stays, and the words behind it come one after another. -/
theorem foldl_extend (n : Nat) (before : List UInt32) {window : List UInt32}
    (hwindow : window.length = 16) :
    ((List.range' before.length n).foldl extend (before ++ window).toArray).toList =
      before ++ slide n window := by
  induction n generalizing before window with
  | zero => rfl
  | succ n ih =>
      rcases window with _ | ⟨x, window⟩
      · cases hwindow
      · have hlength : (window ++ [next (x :: window)]).length = 16 := by
          rw [List.length_append, List.length_singleton]
          exact hwindow
        have hmore := ih (before ++ [x]) hlength
        have hfirst : before ++ (x :: window ++ [next (x :: window)]) =
            before ++ [x] ++ (window ++ [next (x :: window)]) := by
          simp only [List.append_assoc, List.cons_append, List.nil_append]
        rw [List.length_append, List.length_singleton] at hmore
        rw [List.range'_succ, List.foldl_cons, extend_eq, hfirst, hmore, List.append_assoc]
        rfl

/-- The schedule is the window of the words of the block, and the 48 words behind it. -/
theorem schedule_eq_slide {block : Bytes} (h : (wordsBE block).length = 16) :
    schedule block = slide 48 (wordsBE block) := by
  have hfold := foldl_extend 48 [] h
  rw [List.nil_append, List.nil_append, List.length_nil, ← List.range_eq_range'] at hfold
  exact hfold

/-- A block of sixteen words can be compressed with its schedule as a sliding window. -/
theorem compress_eq_slide : compress = fun s block =>
    s.add ((roundConstants.zip
      (if (wordsBE block).length = 16 then slide 48 (wordsBE block) else schedule block)).foldl
        (fun s kw => s.round kw.1 kw.2) s) := by
  funext s block
  unfold compress
  split
  · rename_i h
    rw [schedule_eq_slide h]
  · rfl

end Sha256
end Crypto
end AgeCrypt
