import AgeCrypt.Payload.Draft

/-!
# Payload output

A sink over a sink that seals what is written to it: a draft of the payload, whose chunks are sealed
under a key as it asks for them.
-/

namespace AgeCrypt

open Crypto Payload

/-- What a suite answers to whoever asks for a chunk to be sealed. -/
def Crypto.Suite.sealing (S : Suite) (key : Block 32) (q : Seal) : Bytes :=
  S.encrypt key q.nonce q.chunk

/-- A sink that seals what is written to it. -/
structure PayloadWriter (S : Suite) (τ : Type) extends Draft τ where
  key : Block 32

/-- The writer of a draft that seals under `key`. -/
def Draft.under {τ : Type} (S : Suite) (key : Block 32) (d : Draft τ) : PayloadWriter S τ :=
  { d with key }

/-- A result that leaves a draft is one that leaves a writer. -/
def Draft.resultUnder {τ α : Type} (S : Suite) (key : Block 32) (result : α × Draft τ) :
    α × PayloadWriter S τ :=
  (result.1, result.2.under S key)

namespace PayloadWriter

open ByteSink

variable {S : Suite} {τ : Type} [ByteSink τ]

def start (S : Suite) (key : Block 32) (sink : τ) : PayloadWriter S τ :=
  { inner := sink, key }

/-- What comes of a draft that is written to, under the key of the writer. -/
def performed {α : Type} (w : PayloadWriter S τ) (p : Seals (α × Draft τ)) :
    α × PayloadWriter S τ :=
  Draft.resultUnder S w.key (p.run (S.sealing w.key))

def flushChunk (w : PayloadWriter S τ) (last : Bool) : Except IoError Unit × PayloadWriter S τ :=
  w.performed (w.toDraft.flushChunk last)

def writeFrom (w : PayloadWriter S τ) (b : Bytes) (taken : Nat) :
    Except IoError Nat × PayloadWriter S τ :=
  w.performed (w.toDraft.writeFrom b taken)

def write (w : PayloadWriter S τ) (b : Bytes) : Except IoError Nat × PayloadWriter S τ :=
  w.performed (w.toDraft.write b)

def flush (w : PayloadWriter S τ) : Except IoError Unit × PayloadWriter S τ :=
  Draft.resultUnder S w.key w.toDraft.flush

def finish (w : PayloadWriter S τ) : Except IoError Unit × τ :=
  w.toDraft.finish.run (S.sealing w.key)

/-! ## Equations -/

/-- With the key at hand, the chunk held back is sealed under the number that is due and written in
full; the number moves on only if that succeeds. -/
theorem flushChunk_eq (w : PayloadWriter S τ) (last : Bool) :
    w.flushChunk last =
      if w.failed then
        (.error (.payload .writerFailed), w)
      else
        match writeAll w.inner (S.encrypt w.key (nonce w.counter last) w.chunk.toList) with
        | (.ok (), t) => (.ok (), { w with inner := t, counter := w.counter + 1, chunk := #[] })
        | (.error e, t) => (.error e, { w with inner := t, failed := true }) := by
  rw [flushChunk, performed, Draft.flushChunk, Draft.sealThen]
  split
  · rfl
  · dsimp only [Asking.run, Crypto.Suite.sealing]
    rcases writeAll w.inner (S.encrypt w.key (nonce w.counter last) w.chunk.toList) with ⟨_ | u, t⟩
    · rfl
    · rfl

/-- Whoever has a chunk sealed goes on as the writing of the chunk ends. -/
theorem run_sealThen {α : Type} (w : PayloadWriter S τ) (last : Bool) (written : τ → Seals α)
    (stopped : IoError → Draft τ → Seals α) :
    (w.toDraft.sealThen last written stopped).run (S.sealing w.key) =
      match w.flushChunk last with
      | (.ok (), v) => (written v.inner).run (S.sealing w.key)
      | (.error e, v) => (stopped e v.toDraft).run (S.sealing w.key) := by
  rw [flushChunk_eq, Draft.sealThen]
  split
  · rfl
  · dsimp only [Asking.run, Crypto.Suite.sealing]
    rcases writeAll w.inner (S.encrypt w.key (nonce w.counter last) w.chunk.toList) with ⟨_ | u, t⟩
    · rfl
    · rfl

/-- A writer that has failed refuses a write before it looks at the bytes. -/
theorem write_eq (w : PayloadWriter S τ) (b : Bytes) :
    w.write b = if w.failed then (.error (.payload .writerFailed), w) else w.writeFrom b 0 := by
  rw [write, Draft.write]
  split <;> rfl

/-- Flushing reaches the sink even when the writer has failed. -/
theorem flush_eq (w : PayloadWriter S τ) :
    w.flush = ((ByteSink.flush w.inner).1, { w with inner := (ByteSink.flush w.inner).2 }) := rfl

/-- Finishing seals what is held back as the last chunk, and then flushes the sink. -/
theorem finish_eq (w : PayloadWriter S τ) :
    w.finish = match w.flushChunk true with
      | (.ok (), v) => ByteSink.flush v.inner
      | (.error e, v) => (.error e, v.inner) := by
  rw [finish, Draft.finish, run_sealThen]
  rcases w.flushChunk true with ⟨_ | u, v⟩ <;> rfl

/-! ## The rounds of a write -/

theorem after_of_flushChunk {w v : PayloadWriter S τ} {last : Bool}
    (h : w.flushChunk last = (.ok (), v)) : v = (w.toDraft.after v.inner).under S w.key := by
  rw [flushChunk_eq] at h
  split at h
  · cases h
  · split at h
    · cases h
      rfl
    · cases h

theorem chunk_of_flushChunk {w v : PayloadWriter S τ} {last : Bool}
    (h : w.flushChunk last = (.ok (), v)) : v.chunk = #[] := by
  rw [after_of_flushChunk h]
  rfl

theorem key_of_flushChunk {w v : PayloadWriter S τ} {last : Bool} {r : Except IoError Unit}
    (h : w.flushChunk last = (r, v)) : v.key = w.key := by
  cases h
  rfl

/-- A write goes in rounds: it makes room by sealing the chunk held back, if that is full, or fills
it up.  A failure ends it. -/
inductive Rounds : PayloadWriter S τ → Bytes → Nat → Except IoError Nat × PayloadWriter S τ → Prop
    where
  | done (w : PayloadWriter S τ) (taken : Nat) : Rounds w [] taken (.ok taken, w)
  | flushed {w v : PayloadWriter S τ} {b : Bytes} {taken : Nat}
      {r : Except IoError Nat × PayloadWriter S τ} (hne : b ≠ [])
      (hfull : chunkSize ≤ w.chunk.size) (hflush : w.flushChunk false = (.ok (), v))
      (h : Rounds v b taken r) : Rounds w b taken r
  -- What was taken before a failure is reported first.
  | late {w v : PayloadWriter S τ} {b : Bytes} {taken : Nat} {e : IoError} (hne : b ≠ [])
      (hfull : chunkSize ≤ w.chunk.size) (hflush : w.flushChunk false = (.error e, v))
      (htaken : 0 < taken) : Rounds w b taken (.ok taken, v)
  | lost {w v : PayloadWriter S τ} {b : Bytes} {taken : Nat} {e : IoError} (hne : b ≠ [])
      (hfull : chunkSize ≤ w.chunk.size) (hflush : w.flushChunk false = (.error e, v))
      (htaken : ¬ 0 < taken) : Rounds w b taken (.error e, v)
  | filled {w : PayloadWriter S τ} {b : Bytes} {taken : Nat}
      {r : Except IoError Nat × PayloadWriter S τ} (hne : b ≠ [])
      (hroom : ¬ chunkSize ≤ w.chunk.size)
      (h : Rounds { w with chunk := w.chunk ++ b.take (chunkSize - w.chunk.size) }
        (b.drop (chunkSize - w.chunk.size))
        (taken + (b.take (chunkSize - w.chunk.size)).length) r) :
      Rounds w b taken r

/-- Every write goes in rounds, so what is proved of rounds by induction holds of writes. -/
theorem rounds_writeFrom (w : PayloadWriter S τ) (b : Bytes) (taken : Nat) :
    Rounds w b taken (w.writeFrom b taken) := by
  rcases w with ⟨d, key⟩
  fun_induction Draft.writeFrom d b taken with
  | case1 d taken =>
      rw [writeFrom, Draft.writeFrom, if_pos rfl]
      exact .done _ _
  | case2 d b taken hne hfull ih =>
      rw [writeFrom, Draft.writeFrom, if_neg hne, if_pos hfull, performed]
      have hrun := run_sealThen (⟨d, key⟩ : PayloadWriter S τ) false
        (fun t => (d.after t).writeFrom b taken)
        fun e v => .done (if 0 < taken then .ok taken else .error e, v)
      dsimp only at hrun ⊢
      rw [hrun]
      rcases hflush : (⟨d, key⟩ : PayloadWriter S τ).flushChunk false with ⟨e | u, v⟩
      · have hkey : v.key = key := key_of_flushChunk hflush
        subst hkey
        dsimp only [Asking.run, Draft.resultUnder]
        split
        · exact .late hne hfull hflush ‹_›
        · exact .lost hne hfull hflush ‹_›
      · refine .flushed hne hfull hflush ?_
        rw [after_of_flushChunk hflush]
        exact ih v.inner
  | case3 d b taken hne hroom room piece ih =>
      refine .filled hne hroom ?_
      rw [writeFrom, Draft.writeFrom, if_neg hne, if_neg hroom]
      exact ih

/-- The rounds are made in one way only. -/
theorem Rounds.unique {w : PayloadWriter S τ} {b : Bytes} {taken : Nat}
    {r r' : Except IoError Nat × PayloadWriter S τ} (h : Rounds w b taken r)
    (h' : Rounds w b taken r') : r = r' := by
  induction h with
  | done w taken =>
      cases h' with
      | done => rfl
      | flushed hne | late hne | lost hne | filled hne => exact absurd rfl hne
  | flushed hne hfull hflush _ ih =>
      cases h' with
      | done => exact absurd rfl hne
      | flushed _ _ hflush' h' =>
          cases hflush.symm.trans hflush'
          exact ih h'
      | late _ _ hflush' | lost _ _ hflush' => cases hflush.symm.trans hflush'
      | filled _ hroom => exact absurd hfull hroom
  | late hne hfull hflush htaken =>
      cases h' with
      | done => exact absurd rfl hne
      | flushed _ _ hflush' => cases hflush.symm.trans hflush'
      | late _ _ hflush' =>
          cases hflush.symm.trans hflush'
          rfl
      | lost _ _ _ hnone => exact absurd htaken hnone
      | filled _ hroom => exact absurd hfull hroom
  | lost hne hfull hflush hnone =>
      cases h' with
      | done => exact absurd rfl hne
      | flushed _ _ hflush' => cases hflush.symm.trans hflush'
      | late _ _ _ htaken => exact absurd htaken hnone
      | lost _ _ hflush' =>
          cases hflush.symm.trans hflush'
          rfl
      | filled _ hroom => exact absurd hfull hroom
  | filled hne hroom _ ih =>
      cases h' with
      | done => exact absurd rfl hne
      | flushed _ hfull | late _ hfull | lost _ hfull => exact absurd hfull hroom
      | filled _ _ h' => exact ih h'

/-- A write does not take more bytes than it is given. -/
theorem taken_of_writeFrom {w v : PayloadWriter S τ} {b : Bytes} {taken n : Nat}
    (h : w.writeFrom b taken = (.ok n, v)) : n ≤ taken + b.length := by
  have hrounds := w.rounds_writeFrom b taken
  generalize w.writeFrom b taken = r at h hrounds
  induction hrounds with
  | done w taken =>
      cases h
      exact Nat.le_add_right _ _
  | flushed hne hfull hflush _ ih => exact ih h
  | late hne hfull hflush htaken =>
      cases h
      exact Nat.le_add_right _ _
  | lost hne hfull hflush htaken => cases h
  | filled hne hroom _ ih =>
      have := ih h
      simp only [List.length_take, List.length_drop] at this
      omega

/-- An error while a chunk is written is no interruption. -/
theorem not_interrupted_of_flushChunk {w v : PayloadWriter S τ} {last : Bool} {e : IoError}
    (h : w.flushChunk last = (.error e, v)) : e.isInterrupted = false := by
  rw [flushChunk_eq] at h
  split at h
  · cases h
    rfl
  · split at h
    · cases h
    · rename_i hw
      cases h
      exact not_interrupted_of_writeAll hw

/-- An error of a write is not an interruption, so writing all of the bytes stops at it. -/
theorem not_interrupted_of_writeFrom {w v : PayloadWriter S τ} {b : Bytes} {taken : Nat}
    {e : IoError} (h : w.writeFrom b taken = (.error e, v)) : e.isInterrupted = false := by
  have hrounds := w.rounds_writeFrom b taken
  generalize w.writeFrom b taken = r at h hrounds
  induction hrounds with
  | done w taken => cases h
  | flushed hne hfull hflush _ ih => exact ih h
  | late hne hfull hflush htaken => cases h
  | lost hne hfull hflush htaken =>
      cases h
      exact not_interrupted_of_flushChunk hflush
  | filled hne hroom _ ih => exact ih h

instance : ByteSink (PayloadWriter S τ) where
  write := write
  flush := flush
  patience _ := 0
  taken_le := by
    intro w b n v h
    rw [write_eq] at h
    split at h
    · cases h
    · simpa using taken_of_writeFrom h
  patience_of_ok := by
    intro _ _ _ _ _
    exact Nat.le_refl _
  patience_of_interrupted := by
    intro w b e v h hi
    rw [write_eq] at h
    split at h
    · cases h
      cases hi
    · rw [not_interrupted_of_writeFrom h] at hi
      cases hi

end PayloadWriter
end AgeCrypt
