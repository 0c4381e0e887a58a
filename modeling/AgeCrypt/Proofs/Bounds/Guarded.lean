import AgeCrypt.Io.Window
import AgeCrypt.Proofs.Io.Calls

/-!
# Guarded computations

A difference of numbers stops at zero, a slice stops at the end of what it is cut from, and a shift
takes its distance modulo the width of the word.  A computation that relies on none of this can be
written with operations that are guarded: they give `none` where a difference would be negative,
where a slice is out of range, and where a shift is as wide as the word.  If a guarded computation
gives what the unguarded one does, no guard ever stops it.  A guarded loop is told how many rounds
it may take, and `none` also stands for one that goes on after them.

Guarded reads and writes are made one after another, as the unguarded ones are
(`ByteSource.readEachGuarded_eq`, `ByteSink.performEachGuarded_eq`): no guard stops any of them if
none stops a single call made where `inv` holds, and every call keeps `inv`, failed ones too.
-/

namespace AgeCrypt

/-! ## Operations -/

namespace Guarded

def minus (a b : Nat) : Option Nat :=
  if b ≤ a then some (a - b) else none

def upTo (b : Bytes) (n : Nat) : Option Bytes :=
  if n ≤ b.length then some (b.take n) else none

def behind (b : Bytes) (n : Nat) : Option Bytes :=
  if n ≤ b.length then some (b.drop n) else none

def between (b : Array UInt8) (i j : Nat) : Option Bytes :=
  if i ≤ j ∧ j ≤ b.size then some (b.extract i j).toList else none

def shiftLeft (x : UInt32) (n : Nat) : Option UInt32 :=
  if n < 32 then some (x <<< UInt32.ofNat n) else none

def shiftRight (x : UInt32) (n : Nat) : Option UInt32 :=
  if n < 32 then some (x >>> UInt32.ofNat n) else none

def shiftRightByte (x : UInt8) (n : Nat) : Option UInt8 :=
  if n < 8 then some (x >>> UInt8.ofNat n) else none

theorem minus_of_le {a b : Nat} (h : b ≤ a) : minus a b = some (a - b) :=
  if_pos h

theorem upTo_of_le {b : Bytes} {n : Nat} (h : n ≤ b.length) : upTo b n = some (b.take n) :=
  if_pos h

theorem behind_of_le {b : Bytes} {n : Nat} (h : n ≤ b.length) : behind b n = some (b.drop n) :=
  if_pos h

theorem between_of_le {b : Array UInt8} {i j : Nat} (hij : i ≤ j) (hj : j ≤ b.size) :
    between b i j = some (b.extract i j).toList :=
  if_pos ⟨hij, hj⟩

theorem shiftLeft_of_lt {x : UInt32} {n : Nat} (h : n < 32) :
    shiftLeft x n = some (x <<< UInt32.ofNat n) :=
  if_pos h

theorem shiftRight_of_lt {x : UInt32} {n : Nat} (h : n < 32) :
    shiftRight x n = some (x >>> UInt32.ofNat n) :=
  if_pos h

theorem shiftRightByte_of_lt {x : UInt8} {n : Nat} (h : n < 8) :
    shiftRightByte x n = some (x >>> UInt8.ofNat n) :=
  if_pos h

theorem guard_of {p : Prop} [Decidable p] (h : p) : (guard p : Option Unit) = some () :=
  if_pos h

end Guarded

open Guarded

/-! ## Windows -/

namespace Window

/-- No more bytes have been handed out than there are. -/
def Bounded (w : Window) : Prop :=
  w.taken ≤ w.bytes.size

theorem bounded_empty : Bounded {} :=
  Nat.le_refl 0

theorem bounded_ofBytes (b : Bytes) : (ofBytes b).Bounded :=
  Nat.zero_le _

/-- Handing out keeps within the bounds. -/
theorem Bounded.take {w : Window} (h : w.Bounded) (n : Nat) : (w.take n).2.Bounded :=
  taken_take_snd_le h n

theorem take_of_isSpent {w : Window} (h : w.isSpent = true) (n : Nat) : w.take n = ([], w) := by
  have hnone := remaining_of_isSpent h
  have hfst : (w.take n).1 = [] := by
    rw [← List.length_eq_zero_iff, length_take_fst, hnone, Nat.min_zero]
  have hsnd : (w.take n).2 = w := by
    simp only [take, hnone, Nat.min_zero, Nat.add_zero]
  exact Prod.ext hfst hsnd

theorem isSpent_ofBytes {b : Bytes} (h : b ≠ []) : (ofBytes b).isSpent = false := by
  have hpos : b.length ≠ 0 := fun hzero => h (List.length_eq_zero_iff.1 hzero)
  simp only [ofBytes, isSpent, List.size_toArray, beq_eq_false_iff_ne]
  omega

def takeGuarded (w : Window) (n : Nat) : Option (Bytes × Window) := do
  let left ← minus w.bytes.size w.taken
  let m := min n left
  guard (m ≤ n)
  let piece ← between w.bytes w.taken (w.taken + m)
  guard (piece.length = m)
  some (piece, { w with taken := w.taken + m })

/-- Within the bounds, the copy has two sides of one length. -/
theorem takeGuarded_eq {w : Window} (h : w.Bounded) (n : Nat) :
    w.takeGuarded n = some (w.take n) := by
  have hend : w.taken + min n w.remaining ≤ w.bytes.size := by
    simp only [Bounded, remaining] at h ⊢
    omega
  have hlen : (w.bytes.extract w.taken (w.taken + min n w.remaining)).toList.length =
      min n w.remaining :=
    w.length_take_fst n
  rw [takeGuarded, minus_of_le h, ← remaining, Option.bind_eq_bind, Option.bind_some]
  dsimp only
  rw [guard_of (Nat.min_le_left ..), Option.bind_eq_bind, Option.bind_some,
    between_of_le (Nat.le_add_right ..) hend, Option.bind_eq_bind, Option.bind_some, guard_of hlen]
  rfl

/-- Where more has been handed out than there is, the guard of the difference stops. -/
example : takeGuarded { bytes := #[], taken := 1 } 1 = none := by
  decide

end Window

/-! ## Reading -/

namespace ByteSource

variable {σ : Type} [ByteSource σ]

def readFullFromGuarded : (rounds : Nat) → (s : σ) → (size : Nat) → (acc : Array UInt8) →
    Option (Except IoError (Array UInt8) × σ)
  | 0, _, _, _ => none
  | rounds + 1, s, size, acc =>
      if acc.size < size then do
        let room ← minus size acc.size
        match read s room with
        | (.ok [], t) => some (.ok acc, t)
        | (.ok (x :: b), t) => readFullFromGuarded rounds t size (acc ++ (x :: b))
        | (.error e, t) =>
            if e.isInterrupted then readFullFromGuarded rounds t size acc else some (.error e, t)
      else
        some (.ok acc, s)

/-- The buffer never takes more than it has room for, since no read gives more than was asked. -/
theorem readFullFromGuarded_eq (s : σ) (n : Nat) (acc : Array UInt8) {rounds : Nat}
    (hrounds : weight s < rounds) :
    readFullFromGuarded rounds s (n + acc.size) acc = some (readFullFrom s n acc) := by
  -- every round but the last is paid for from the weight of the source
  obtain ⟨rounds, rfl⟩ := Nat.exists_eq_add_one.2 (Nat.zero_lt_of_lt hrounds)
  fun_induction readFullFrom s n acc generalizing rounds with
  | case1 s acc =>
      rw [readFullFromGuarded, if_neg (by omega)]
  | case2 s n acc hn t hr =>
      rw [readFullFromGuarded, if_pos (by omega), minus_of_le (Nat.le_add_left ..),
        Nat.add_sub_cancel]
      simp only [Option.bind_eq_bind, Option.bind_some, hr]
  | case3 s n acc hn x b t hr ih =>
      have hlen := length_le hr
      have hpaid := weight_of_ok hr
      rw [List.length_cons] at hpaid
      obtain ⟨rounds, rfl⟩ : ∃ k, rounds = k + 1 := Nat.exists_eq_add_one.2 (by omega)
      have hsize : n + acc.size = n - (x :: b).length + (acc ++ (x :: b)).size := by
        rw [Bytes.size_append]
        omega
      rw [readFullFromGuarded, if_pos (by omega), minus_of_le (Nat.le_add_left ..),
        Nat.add_sub_cancel]
      simp only [Option.bind_eq_bind, Option.bind_some, hr]
      rw [hsize, ih rounds (by omega)]
  | case4 s n acc hn e t hr hi ih =>
      have hpaid := weight_of_error hr
      rw [if_pos hi] at hpaid
      obtain ⟨rounds, rfl⟩ : ∃ k, rounds = k + 1 := Nat.exists_eq_add_one.2 (by omega)
      rw [readFullFromGuarded, if_pos (by omega), minus_of_le (Nat.le_add_left ..),
        Nat.add_sub_cancel]
      simp only [Option.bind_eq_bind, Option.bind_some, hr, if_pos hi]
      exact ih rounds (by omega)
  | case5 s n acc hn e t hr hi =>
      rw [readFullFromGuarded, if_pos (by omega), minus_of_le (Nat.le_add_left ..),
        Nat.add_sub_cancel]
      simp only [Option.bind_eq_bind, Option.bind_some, hr, if_neg hi]

def readFullGuarded (s : σ) (size : Nat) : Option (Except IoError (Array UInt8) × σ) :=
  readFullFromGuarded (weight s + 1) s size #[]

/-- What a source gives has room in the buffer, so no guard stops a full read. -/
theorem readFullGuarded_eq (s : σ) (size : Nat) :
    readFullGuarded s size = some (readFull s size) :=
  readFullFromGuarded_eq s size #[] (Nat.lt_add_one _)

def readEachGuarded (readGuarded : σ → Nat → Option (Except IoError Bytes × σ)) (s : σ) :
    List Nat → Option (List (Except IoError Bytes) × σ)
  | [] => some ([], s)
  | n :: sizes => do
      let (r, t) ← readGuarded s n
      let (rs, u) ← readEachGuarded readGuarded t sizes
      some (r :: rs, u)

section

variable (inv : σ → Prop)

/-- What every read keeps holds after any reads. -/
theorem keeps_readEach (hkeeps : ∀ {s : σ}, inv s → ∀ n, inv (read s n).2) {s : σ} (hs : inv s)
    (sizes : List Nat) : inv (readEach s sizes).2 := by
  induction sizes generalizing s with
  | nil => exact hs
  | cons n sizes ih => exact ih (hkeeps hs n)

/-- If no guard stops a read made where `inv` holds, and reads keep it, no guard stops any of them.
-/
theorem readEachGuarded_eq {readGuarded : σ → Nat → Option (Except IoError Bytes × σ)}
    (hkeeps : ∀ {s : σ}, inv s → ∀ n, inv (read s n).2)
    (hread : ∀ {s : σ}, inv s → ∀ n, readGuarded s n = some (read s n)) {s : σ} (hs : inv s)
    (sizes : List Nat) : readEachGuarded readGuarded s sizes = some (readEach s sizes) := by
  induction sizes generalizing s with
  | nil => rfl
  | cons n sizes ih =>
      rw [readEachGuarded, hread hs n, Option.bind_eq_bind, Option.bind_some]
      dsimp only
      rw [ih (hkeeps hs n)]
      rfl

end

end ByteSource

def refillGuarded {ρ : Type} (isSpent isDone : ρ → Bool)
    (next : ρ → Option (Except IoError Unit × ρ)) :
    (rounds : Nat) → ρ → Option (Except IoError Unit × ρ)
  | 0, _ => none
  | rounds + 1, r =>
      if isSpent r ∧ ¬ isDone r then do
        match ← next r with
        | (.ok (), v) => refillGuarded isSpent isDone next rounds v
        | (.error e, v) => some (.error e, v)
      else
        some (.ok (), r)

/-- If a refill leaves something to hand out, or nothing to come, one is enough, and a second round
finds that. -/
theorem refillGuarded_eq {ρ : Type} {isSpent isDone : ρ → Bool}
    {next : ρ → Option (Except IoError Unit × ρ)} {r : ρ} {answer : Except IoError Unit × ρ}
    (hnext : next r = some answer)
    (honce : ∀ v, answer = (.ok (), v) → ¬ (isSpent v = true ∧ ¬ isDone v = true)) :
    refillGuarded isSpent isDone next 2 r =
      some (if isSpent r ∧ ¬ isDone r then answer else (.ok (), r)) := by
  rw [refillGuarded]
  by_cases hrefill : isSpent r = true ∧ ¬ isDone r = true
  · rw [if_pos hrefill, if_pos hrefill, hnext, Option.bind_eq_bind, Option.bind_some]
    rcases answer with ⟨e | ⟨⟩, v⟩
    · rfl
    · dsimp only
      rw [refillGuarded, if_neg (honce v rfl)]
  · rw [if_neg hrefill, if_neg hrefill]

def handOutGuarded {ρ : Type} (window : ρ → Window) (put : ρ → Window → ρ) (isDone : ρ → Bool)
    (next : ρ → Option (Except IoError Unit × ρ)) (r : ρ) (n : Nat) :
    Option (Except IoError Bytes × ρ) := do
  match ← refillGuarded (fun r => (window r).isSpent) isDone next 2 r with
  | (.error e, v) => some (.error e, v)
  | (.ok (), v) =>
      if (window v).isSpent then
        some (.ok [], v)
      else do
        let piece ← (window v).takeGuarded n
        some (.ok piece.1, put v piece.2)

/-- What is handed out of a window that was refilled at most once. -/
def handOutOf {ρ : Type} (window : ρ → Window) (put : ρ → Window → ρ) (n : Nat) :
    Except IoError Unit × ρ → Except IoError Bytes × ρ
  | (.error e, v) => (.error e, v)
  | (.ok (), v) => (.ok ((window v).take n).1, put v ((window v).take n).2)

/-- One refill is enough, and the copy after it is in range. -/
theorem handOutGuarded_eq {ρ : Type} {window : ρ → Window} {put : ρ → Window → ρ} {isDone : ρ → Bool}
    {next : ρ → Option (Except IoError Unit × ρ)} {r : ρ} {answer : Except IoError Unit × ρ}
    (hput : ∀ v, put v (window v) = v) (hnext : next r = some answer)
    (honce : ∀ v, answer = (.ok (), v) → ¬ ((window v).isSpent = true ∧ ¬ isDone v = true))
    (hr : (window r).Bounded) (hanswer : (window answer.2).Bounded) (n : Nat) :
    handOutGuarded window put isDone next r n =
      some (handOutOf window put n
        (if (window r).isSpent ∧ ¬ isDone r then answer else (.ok (), r))) := by
  have hfilled : (window (if (window r).isSpent ∧ ¬ isDone r then answer
      else (.ok (), r)).2).Bounded := by
    split
    · exact hanswer
    · exact hr
  rw [handOutGuarded, refillGuarded_eq hnext honce, Option.bind_eq_bind, Option.bind_some]
  rcases hf : (if (window r).isSpent ∧ ¬ isDone r then answer else (.ok (), r)) with ⟨e | ⟨⟩, v⟩
  · rfl
  · rw [hf] at hfilled
    dsimp only [handOutOf]
    by_cases hspent : (window v).isSpent = true
    · rw [if_pos hspent, Window.take_of_isSpent hspent, hput]
    · rw [if_neg hspent, Window.takeGuarded_eq hfilled]
      rfl

/-- Handing out keeps to the window. -/
theorem bounded_handOutOf {ρ : Type} {window : ρ → Window} {put : ρ → Window → ρ}
    (hput : ∀ v w, window (put v w) = w) {filled : Except IoError Unit × ρ}
    (h : (window filled.2).Bounded) (n : Nat) :
    (window (handOutOf window put n filled).2).Bounded := by
  rcases filled with ⟨e | ⟨⟩, v⟩
  · exact h
  · rw [handOutOf, hput]
    exact h.take n

/-! ## Writing -/

namespace ByteSink

variable {τ : Type} [ByteSink τ]

def writeAllGuarded (writeGuarded : τ → Bytes → Option (Except IoError Nat × τ)) :
    (rounds : Nat) → τ → Bytes → Option (Except IoError Unit × τ)
  | 0, _, _ => none
  | rounds + 1, t, b =>
      if b = [] then
        some (.ok (), t)
      else do
        match ← writeGuarded t b with
        | (.ok 0, u) => some (.error .shortWrite, u)
        | (.ok (n + 1), u) => do
            let rest ← behind b (n + 1)
            writeAllGuarded writeGuarded rounds u rest
        | (.error e, u) =>
            if e.isInterrupted then writeAllGuarded writeGuarded rounds u b
            else some (.error e, u)

def performGuarded (writeGuarded : τ → Bytes → Option (Except IoError Nat × τ)) (t : τ) :
    Call → Option (Except IoError Nat × τ)
  | .write b => writeGuarded t b
  | .writeAll b => do
      match ← writeAllGuarded writeGuarded (patience t + b.length + 1) t b with
      | (.ok (), u) => some (.ok b.length, u)
      | (.error e, u) => some (.error e, u)
  | .flush => some (perform t .flush)

def performEachGuarded (writeGuarded : τ → Bytes → Option (Except IoError Nat × τ)) (t : τ) :
    List Call → Option (List (Except IoError Nat) × τ)
  | [] => some ([], t)
  | call :: calls => do
      let (r, u) ← performGuarded writeGuarded t call
      let (rs, v) ← performEachGuarded writeGuarded u calls
      some (r :: rs, v)

section

variable (inv : τ → Prop) {writeGuarded : τ → Bytes → Option (Except IoError Nat × τ)}

/-- What every write keeps is kept by writing in full, however many writes that takes. -/
theorem keeps_writeAll (hkeeps : ∀ {t : τ}, inv t → ∀ b, inv (write t b).2) {t : τ} (ht : inv t)
    (b : Bytes) : inv (writeAll t b).2 := by
  fun_induction writeAll t b with
  | case1 => exact ht
  | case2 t b _ u hw =>
      have hu := hkeeps ht b
      rw [hw] at hu
      exact hu
  | case3 t b _ n u hw ih =>
      have hu := hkeeps ht b
      rw [hw] at hu
      exact ih hu
  | case4 t b _ e u hw _ ih =>
      have hu := hkeeps ht b
      rw [hw] at hu
      exact ih hu
  | case5 t b _ e u hw _ =>
      have hu := hkeeps ht b
      rw [hw] at hu
      exact hu

/-- Writing in full takes no more rounds than there are bytes and interruptions. -/
theorem writeAllGuarded_eq (hkeeps : ∀ {t : τ}, inv t → ∀ b, inv (write t b).2)
    (hwrite : ∀ {t : τ}, inv t → ∀ b, writeGuarded t b = some (write t b)) {t : τ} (ht : inv t)
    (b : Bytes) {rounds : Nat} (hrounds : patience t + b.length < rounds) :
    writeAllGuarded writeGuarded rounds t b = some (writeAll t b) := by
  have hstep : ∀ {t u : τ} {b : Bytes} {r : Except IoError Nat}, inv t → write t b = (r, u) →
      inv u ∧ writeGuarded t b = some (r, u) := by
    intro t u b r ht hw
    have hu := hkeeps ht b
    rw [hw] at hu
    exact ⟨hu, (hwrite ht b).trans (congrArg some hw)⟩
  -- every round but the last takes a byte or is paid for from the patience of the sink
  obtain ⟨rounds, rfl⟩ := Nat.exists_eq_add_one.2 (Nat.zero_lt_of_lt hrounds)
  fun_induction writeAll t b generalizing rounds with
  | case1 t => rw [writeAllGuarded, if_pos rfl]
  | case2 t b hb u hw =>
      rw [writeAllGuarded, if_neg hb, (hstep ht hw).2]
      rfl
  | case3 t b hb n u hw ih =>
      rcases hstep ht hw with ⟨hu, hguarded⟩
      have hless : patience u + (b.drop (n + 1)).length < rounds := by
        have hpaid := patience_of_ok hw
        have htaken := taken_le hw
        rw [List.length_drop]
        omega
      obtain ⟨rounds, rfl⟩ : ∃ k, rounds = k + 1 :=
        Nat.exists_eq_add_one.2 (Nat.zero_lt_of_lt hless)
      rw [writeAllGuarded, if_neg hb, hguarded]
      simp only [Option.bind_eq_bind, Option.bind_some, behind_of_le (taken_le hw)]
      exact ih hu rounds hless
  | case4 t b hb e u hw hi ih =>
      rcases hstep ht hw with ⟨hu, hguarded⟩
      have hpaid := patience_of_interrupted hw hi
      obtain ⟨rounds, rfl⟩ : ∃ k, rounds = k + 1 := Nat.exists_eq_add_one.2 (by omega)
      rw [writeAllGuarded, if_neg hb, hguarded]
      simp only [Option.bind_eq_bind, Option.bind_some, if_pos hi]
      exact ih hu rounds (by omega)
  | case5 t b hb e u hw hi =>
      rw [writeAllGuarded, if_neg hb, (hstep ht hw).2]
      simp only [Option.bind_eq_bind, Option.bind_some, if_neg hi]

/-- What every write and every flush keeps is kept by every call. -/
theorem keeps_perform (hkeeps : ∀ {t : τ}, inv t → ∀ b, inv (write t b).2)
    (hflush : ∀ {t : τ}, inv t → inv (flush t).2) {t : τ} (ht : inv t) (call : Call) :
    inv (perform t call).2 := by
  cases call with
  | write b => exact hkeeps ht b
  | writeAll b =>
      have hu := keeps_writeAll inv hkeeps ht b
      rcases hw : writeAll t b with ⟨e | ⟨⟩, u⟩ <;> simpa only [perform, hw] using hu
  | flush =>
      have hu := hflush ht
      rcases hf : flush t with ⟨e | ⟨⟩, u⟩ <;> rw [hf] at hu <;> simpa only [perform, hf] using hu

/-- What every write and flush keeps is kept by all calls. -/
theorem keeps_performEach (hkeeps : ∀ {t : τ}, inv t → ∀ b, inv (write t b).2)
    (hflush : ∀ {t : τ}, inv t → inv (flush t).2) {t : τ} (ht : inv t) (calls : List Call) :
    inv (performEach t calls).2 := by
  induction calls generalizing t with
  | nil => exact ht
  | cons call calls ih => exact ih (keeps_perform inv hkeeps hflush ht call)

/-- No guard stops a call made where `inv` holds. -/
theorem performGuarded_eq (hkeeps : ∀ {t : τ}, inv t → ∀ b, inv (write t b).2)
    (hwrite : ∀ {t : τ}, inv t → ∀ b, writeGuarded t b = some (write t b)) {t : τ} (ht : inv t)
    (call : Call) : performGuarded writeGuarded t call = some (perform t call) := by
  cases call with
  | write b => exact hwrite ht b
  | writeAll b =>
      rw [performGuarded, writeAllGuarded_eq inv hkeeps hwrite ht b (Nat.lt_add_one _), perform]
      rcases writeAll t b with ⟨e | ⟨⟩, u⟩ <;> rfl
  | flush => rfl

/-- If no guard stops a write made where `inv` holds, and calls keep it, no guard stops any of them.
-/
theorem performEachGuarded_eq (hkeeps : ∀ {t : τ}, inv t → ∀ b, inv (write t b).2)
    (hflush : ∀ {t : τ}, inv t → inv (flush t).2)
    (hwrite : ∀ {t : τ}, inv t → ∀ b, writeGuarded t b = some (write t b)) {t : τ} (ht : inv t)
    (calls : List Call) :
    performEachGuarded writeGuarded t calls = some (performEach t calls) := by
  induction calls generalizing t with
  | nil => rfl
  | cons call calls ih =>
      rw [performEachGuarded, performGuarded_eq inv hkeeps hwrite ht call, Option.bind_eq_bind,
        Option.bind_some]
      dsimp only
      rw [ih (keeps_perform inv hkeeps hflush ht call)]
      rfl

end

end ByteSink
end AgeCrypt
