import AgeCrypt.Proofs.Payload.Replies

/-!
# What becomes of a payload reader after an error

A read of a payload fails in one of two ways.  Either the payload is at fault, or the source below
failed.  A fault of the payload is kept, and every later read reports it again; nothing is handed
out any more, and the end of the payload is not reported.  An error of the source is passed on and
not kept: the reader is the same reader as before, over the source as it was left, and the next read
goes on from there (`readEach_after_error`).

In `Broke` the error is tied to the source: it is what the source itself answered to the last of the
reads that were made of it.
-/

namespace AgeCrypt
namespace ByteSource

variable {σ : Type} [ByteSource σ]

/-- Reads lead from `s` to `t`. -/
def Reaches (s t : σ) : Prop :=
  ∃ sizes, (readEach s sizes).2 = t

/-- Reads lead from `s` on, and `e` is what the last of them was answered, which left `t`. -/
def Broke (s : σ) (e : IoError) (t : σ) : Prop :=
  ∃ u n, Reaches s u ∧ read u n = (.error e, t)

theorem Reaches.refl (s : σ) : Reaches s s :=
  ⟨[], rfl⟩

theorem Reaches.of_read {s t u : σ} {n : Nat} {r : Except IoError Bytes}
    (hread : read s n = (r, t)) (h : Reaches t u) : Reaches s u := by
  rcases h with ⟨sizes, hsizes⟩
  refine ⟨n :: sizes, ?_⟩
  rw [readEach, hread]
  exact hsizes

/-- Reads may be followed by reads. -/
theorem Reaches.trans {s t u : σ} (hst : Reaches s t) (htu : Reaches t u) : Reaches s u := by
  rcases hst with ⟨sizes, hsizes⟩
  induction sizes generalizing s with
  | nil =>
      cases hsizes
      exact htu
  | cons n sizes ih => exact .of_read rfl (ih hsizes)

theorem Broke.of_reaches {s t u : σ} {e : IoError} (hst : Reaches s t) (h : Broke t e u) :
    Broke s e u := by
  rcases h with ⟨v, n, hreaches, hread⟩
  exact ⟨v, n, hst.trans hreaches, hread⟩

/-- Reading as much as is asked for is reading again and again. -/
theorem reaches_of_readFullFrom {s t : σ} {n : Nat} {acc got : Array UInt8}
    (h : readFullFrom s n acc = (.ok got, t)) : Reaches s t := by
  fun_induction readFullFrom s n acc with
  | case1 s acc =>
      cases h
      exact .refl _
  | case2 s n acc hn u hread =>
      cases h
      exact .of_read hread (.refl _)
  | case3 s n acc hn x b u hread ih => exact .of_read hread (ih h)
  | case4 s n acc hn e u hread hi ih => exact .of_read hread (ih h)
  | case5 s n acc hn e u hread hi => cases h

/-- It fails only where the source does. -/
theorem broke_of_readFullFrom {s t : σ} {n : Nat} {acc : Array UInt8} {e : IoError}
    (h : readFullFrom s n acc = (.error e, t)) : Broke s e t := by
  fun_induction readFullFrom s n acc with
  | case1 s acc => cases h
  | case2 s n acc hn u hread => cases h
  | case3 s n acc hn x b u hread ih => exact (ih h).of_reaches (.of_read hread (.refl u))
  | case4 s n acc hn e' u hread hi ih => exact (ih h).of_reaches (.of_read hread (.refl u))
  | case5 s n acc hn e' u hread hi =>
      cases h
      exact ⟨s, n, .refl s, hread⟩

end ByteSource

namespace PayloadReader

open Crypto Payload ByteSource

variable {S : Suite} {σ : Type} [ByteSource σ]

inductive Failure (r : PayloadReader S σ) : IoError → PayloadReader S σ → Prop where
  -- The payload is at fault, and the fault is kept.
  | payload {c : PayloadError} {t : PayloadReader S σ} (hkept : t.failed = some c) :
      Failure r (.payload c) t
  -- The source failed; what had been read of a chunk is lost, and nothing else has changed.
  | source {e : IoError} {u : σ} (hworks : r.failed = none) (hbroke : Broke r.inner e u)
      (hi : e.isInterrupted = false) : Failure r e { r with inner := u }

/-- The two places where the source is read, for a chunk and for what stands behind the last one,
and the four kinds of fault that a payload can have. -/
theorem failure_of_nextChunk {r t : PayloadReader S σ} {e : IoError} (hworks : r.failed = none)
    (h : r.nextChunk = (.error e, t)) : Failure r e t := by
  simp only [nextChunk, fail] at h
  split at h
  · rename_i hchunk
    cases h
    exact .source hworks (broke_of_readFullFrom hchunk) (weight_readFullFrom_error hchunk).2
  · rename_i chunk u hchunk
    split at h
    · cases h
      exact .payload rfl
    · split at h
      · cases h
        exact .payload rfl
      · split at h
        · cases h
          exact .payload rfl
        · cases h
        · split at h
          · rename_i hprobe
            cases h
            have hbroke := (broke_of_readFullFrom hprobe).of_reaches
              (reaches_of_readFullFrom hchunk)
            exact .source hworks hbroke (weight_readFullFrom_error hprobe).2
          · split at h
            · cases h
              exact .payload rfl
            · cases h

/-- A read that fails leaves the reader failed for good, or its source has failed. -/
theorem failure_of_read {r t : PayloadReader S σ} {n : Nat} {e : IoError}
    (h : ByteSource.read r n = (.error e, t)) : Failure r e t := by
  change r.read n = _ at h
  cases hworks : r.failed with
  | some c =>
      rw [read_of_failed hworks] at h
      cases h
      exact .payload hworks
  | none =>
      by_cases hn : n = 0
      · rw [hn, read_zero hworks] at h
        cases h
      by_cases hheld : r.window.isSpent = false ∨ r.done = true
      · rw [read_of_held hworks hn hheld] at h
        cases h
      have hmoves : r.window.isSpent = true ∧ r.done = false := by
        simpa [not_or] using hheld
      rw [read_of_spent hworks hn hmoves.1 hmoves.2] at h
      split at h
      · rename_i hnext
        cases h
        exact failure_of_nextChunk hworks hnext
      · cases h

/-- After a fault of the payload nothing changes any more. -/
theorem readEach_of_failed_snd {r : PayloadReader S σ} {c : PayloadError}
    (hfailed : r.failed = some c) (sizes : List Nat) : (readEach r sizes).2 = r := by
  induction sizes with
  | nil => rfl
  | cons n sizes ih =>
      have hread : ByteSource.read r n = (.error (.payload c), r) := read_of_failed hfailed n
      simp only [readEach, hread, ih]

/-- Wherever a read fails in a run, either the payload is at fault, and every later read of any size
reports the same error and leaves the reader as it is, or the error is one that the source answered,
and then nothing of it is kept.

An error that the source did not answer is final. -/
theorem readEach_after_error (source : σ) (key : Block 32) (sizes : List Nat) {n : Nat}
    {e : IoError} (later : List Nat)
    (herror : (ByteSource.read (readEach (start S key source) sizes).2 n).1 = .error e) :
    let r := (readEach (start S key source) sizes).2
    let t := (ByteSource.read r n).2
    ((∃ c, e = .payload c) ∧ readEach t later = (later.map fun _ => .error e, t)) ∨
      (Broke r.inner e t.inner ∧ e.isInterrupted = false ∧ r.failed = none ∧
        t = { r with inner := t.inner }) := by
  intro r t
  have hfailure : Failure r e t := failure_of_read (Prod.ext herror rfl)
  generalize t = t at hfailure
  cases hfailure with
  | @payload c t hkept =>
      have hanswers := readEach_of_failed hkept later
      have hstate := readEach_of_failed_snd hkept later
      exact .inl ⟨⟨c, rfl⟩, Prod.ext hanswers hstate⟩
  | source hworks hbroke hi => exact .inr ⟨hbroke, hi, hworks, rfl⟩

/-- A payload of three bytes without the end of its only chunk, and one whose source fails at the
first read and then goes on: the first reader reports the fault again, the second hands out the
payload and reports its end. -/
theorem readEach_after_error_three_bytes :
    let payload := Suite.transparent.encrypt (Block.zeros 32) (nonce 0 true) [1, 2, 3]
    let cut := start .transparent (Block.zeros 32) (ScriptedSource.ofBytes (payload.take 18))
    let shaken : PayloadReader .transparent ScriptedSource := start .transparent (Block.zeros 32)
      { data := payload, faults := [(0, .device .other "injected")] }
    (ByteSource.read cut 10).1 = .error (.payload .unauthentic) ∧
      (readEach (ByteSource.read cut 10).2 [10, 0]).1 =
        [.error (.payload .unauthentic), .error (.payload .unauthentic)] ∧
      (ByteSource.read shaken 10).1 = .error (.device .other "injected") ∧
      (ByteSource.read shaken 10).2.failed = none ∧
      (readEach (ByteSource.read shaken 10).2 [10, 10]).1 = [.ok [1, 2, 3], .ok []] := by
  intro payload cut shaken
  have hcut : (ByteSource.read cut 10).1 = .error (.payload .unauthentic) := by
    decide +kernel
  have hshaken : (ByteSource.read shaken 10).1 = .error (.device .other "injected") := by
    decide +kernel
  refine ⟨hcut, ?_, hshaken, ?_, by decide +kernel⟩
  · rcases readEach_after_error _ _ [] [10, 0] hcut with ⟨-, hlater⟩ | ⟨-, -, -, hsame⟩
    · exact congrArg Prod.fst hlater
    · have hkept : (ByteSource.read cut 10).2.failed = some .unauthentic := by
        decide +kernel
      cases hkept.symm.trans (congrArg PayloadReader.failed hsame)
  · rcases readEach_after_error _ _ [] [10, 10] hshaken with ⟨⟨c, hc⟩, -⟩ | ⟨-, -, -, hsame⟩
    · cases hc
    · exact congrArg PayloadReader.failed hsame

end PayloadReader
end AgeCrypt
