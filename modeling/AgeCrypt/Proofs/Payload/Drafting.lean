import AgeCrypt.Payload.Writer
import AgeCrypt.Proofs.Asking
import AgeCrypt.Proofs.Io.Watching
import AgeCrypt.Proofs.Payload.Calls

/-!
# What a payload writer seals

The output of a payload writer does not show under which nonces it was sealed, or whether a chunk
was sealed whose bytes were lost.  But a payload writer is a draft that asks for its chunks to be
sealed, so all seals that it makes are among its questions.

Calls are made on a draft as they are made on a sink (`Draft.performEach`), and a run of them asks
for what the same run on a writer seals, whatever its suite and key (`Draft.performEach_under`).
-/

namespace AgeCrypt

open Crypto Payload

namespace Draft

open ByteSink Asking

variable {S : Suite} {key : Block 32} {τ : Type} [ByteSink τ]

/-! ## Calls by asking -/

def writeAll (d : Draft τ) (b : Bytes) : Seals (Except IoError Unit × Draft τ) :=
  if b = [] then
    pure (.ok (), d)
  else do
    match ← d.write b with
    | (.ok 0, v) => pure (.error .shortWrite, v)
    | (.ok (n + 1), v) => v.writeAll (b.drop (n + 1))
    | (.error e, v) => pure (.error e, v)
termination_by b.length
decreasing_by
  rename_i hb
  have : b.length ≠ 0 := fun hl => hb (List.length_eq_zero_iff.1 hl)
  simp only [List.length_drop]
  omega

def perform (d : Draft τ) : Call → Seals (Except IoError Nat × Draft τ)
  | .write b => d.write b
  | .writeAll b => do
      match ← d.writeAll b with
      | (.ok (), v) => pure (.ok b.length, v)
      | (.error e, v) => pure (.error e, v)
  | .flush =>
      match d.flush with
      | (.ok (), v) => pure (.ok 0, v)
      | (.error e, v) => pure (.error e, v)

def performEach (d : Draft τ) : List Call → Seals (List (Except IoError Nat) × Draft τ)
  | [] => pure ([], d)
  | call :: calls => do
      let first ← d.perform call
      let rest ← first.2.performEach calls
      pure (first.1 :: rest.1, rest.2)

/-- All that is done with a payload writer: calls, and then the end. -/
def session (d : Draft τ) (calls : List Call) : Seals (Except IoError Unit × τ) := do
  let result ← d.performEach calls
  result.2.finish

/-- A first write that is longer than a chunk seals that chunk. -/
theorem write_of_more (sink : τ) {b : Bytes} (hmore : chunkSize < b.length) :
    ({ inner := sink } : Draft τ).write b =
      .ask ⟨nonce 0 false, b.take chunkSize⟩ fun piece =>
        match ByteSink.writeAll sink piece with
        | (.ok (), t) =>
            ({ inner := t, counter := 1 } : Draft τ).writeFrom (b.drop chunkSize) chunkSize
        | (.error _, t) =>
            .done (.ok chunkSize,
              { inner := t, chunk := (#[] : Array UInt8) ++ b.take chunkSize, failed := true }) := by
  let full : Draft τ := { inner := sink, chunk := (#[] : Array UInt8) ++ b.take chunkSize }
  have hlen : (b.take chunkSize).length = chunkSize := List.length_take_of_le (Nat.le_of_lt hmore)
  have hfull : chunkSize ≤ full.chunk.size := by
    rw [Bytes.size_append, hlen]
    exact Nat.le_add_left ..
  have hchunk : full.chunk.toList = b.take chunkSize := by
    simp only [full, Array.toList_appendList, List.nil_append]
  have hne : b ≠ [] := by
    rintro rfl
    exact Nat.not_lt_zero _ hmore
  have hrest : b.drop chunkSize ≠ [] := by
    rw [← List.length_pos_iff, List.length_drop]
    omega
  have hsome : 0 < chunkSize := by
    decide
  have hroom : ¬ chunkSize ≤ ({ inner := sink } : Draft τ).chunk.size := Nat.not_le.2 hsome
  have hworks : ¬ full.failed = true := Bool.false_ne_true
  rw [write, if_neg (by simp), writeFrom, if_neg hne, if_neg hroom]
  change full.writeFrom (b.drop chunkSize) (0 + (b.take chunkSize).length) = _
  rw [writeFrom, if_neg hrest, if_pos hfull, sealThen, if_neg hworks, hchunk, hlen]
  simp only [Nat.zero_add, if_pos hsome]
  rfl

/-! ## The same runs -/

/-- A writer writes all of its bytes as its draft does. -/
theorem writeAll_under (d : Draft τ) (b : Bytes) :
    ByteSink.writeAll (d.under S key) b =
      resultUnder S key ((d.writeAll b).run (S.sealing key)) := by
  fun_induction writeAll d b with
  | case1 d =>
      rw [ByteSink.writeAll, if_pos rfl]
      rfl
  | case2 d b hne ih =>
      have hwrite : ByteSink.write (d.under S key) b =
          resultUnder S key ((d.write b).run (S.sealing key)) := rfl
      rw [run_bind]
      generalize (d.write b).run (S.sealing key) = answered at hwrite ⊢
      rcases answered with ⟨e | _ | n, v⟩
      · have hi : ¬ e.isInterrupted = true := by
          intro hi
          have hless := patience_of_interrupted hwrite hi
          exact Nat.lt_irrefl 0 hless
        rw [writeAll_of_error hne hwrite, if_neg hi]
        rfl
      · rw [writeAll_of_nothing hne hwrite]
        rfl
      · rw [writeAll_of_taken hne hwrite]
        exact ih n v

theorem perform_under (d : Draft τ) (call : Call) :
    ByteSink.perform (d.under S key) call =
      resultUnder S key ((d.perform call).run (S.sealing key)) := by
  cases call with
  | write b => rfl
  | writeAll b =>
      rw [ByteSink.perform, writeAll_under, perform, run_bind]
      rcases (d.writeAll b).run (S.sealing key) with ⟨e | u, v⟩ <;> rfl
  | flush =>
      have hflush : ByteSink.flush (d.under S key) = resultUnder S key d.flush := rfl
      rw [ByteSink.perform, hflush, perform]
      rcases d.flush with ⟨e | u, v⟩ <;> rfl

/-- A run on a writer is the run on its draft, with the chunks sealed as it asks for them. -/
theorem performEach_under (d : Draft τ) (calls : List Call) :
    ByteSink.performEach (d.under S key) calls =
      resultUnder S key ((d.performEach calls).run (S.sealing key)) := by
  induction calls generalizing d with
  | nil => rfl
  | cons call calls ih =>
      rw [ByteSink.performEach, perform_under, performEach, run_bind, run_bind]
      exact congrArg (fun rest => (_ :: rest.1, rest.2)) (ih _)

end Draft

end AgeCrypt
