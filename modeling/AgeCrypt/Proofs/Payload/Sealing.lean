import AgeCrypt.File.Encryptor
import AgeCrypt.Proofs.Io.Intake
import AgeCrypt.Proofs.Payload.Opening

/-!
# What a payload writer passes on

A payload writer that is still to be given `rest` passes on the sealed form of the chunk it holds
back and of `rest`.  `Sealing` says that the sink below awaits just that, or that the writer has
failed and the sink is safe; in the second case nothing reaches the sink any more.

Writes keep it, whatever their sizes and whatever becomes of the sink below (`Sealing.intake`).  A
write that fails in the middle may still report the bytes taken before, so success of a write does
not mean that all is well; but finishing succeeds only in the first case (`Sealing.finish`).
-/

namespace AgeCrypt
namespace PayloadWriter

open Crypto Payload ByteSink

variable {S : Suite} {τ : Type} [ByteSink τ] {awaits : τ → Bytes → Prop} {safe : τ → Prop}

/-- Where a payload writer stands that is still to be given `rest`. -/
inductive Sealing (awaits : τ → Bytes → Prop) (safe : τ → Prop) (w : PayloadWriter S τ)
    (rest : Bytes) : Prop where
  -- The sink awaits the chunk held back and what follows it, in sealed form.
  | working (hfailed : w.failed = false) (hsize : w.chunk.size ≤ chunkSize)
      (hawaits : awaits w.inner (sealFrom S w.key w.counter (w.chunk.toList ++ rest))) :
      Sealing awaits safe w rest
  -- A chunk was lost.
  | failed (hfailed : w.failed = true) (hsafe : safe w.inner) : Sealing awaits safe w rest

omit [ByteSink τ] in
theorem Sealing.start {sink : τ} {key : Block 32} {plaintext : Bytes}
    (h : awaits sink (sealAll S key plaintext)) :
    Sealing awaits safe (PayloadWriter.start S key sink) plaintext :=
  .working rfl (Nat.zero_le _) h

theorem Sealing.safe_inner (I : Intake awaits safe) {w : PayloadWriter S τ} {rest : Bytes}
    (h : Sealing awaits safe w rest) : safe w.inner := by
  cases h with
  | working _ _ hawaits => exact I.safe_of_awaits hawaits
  | failed _ hsafe => exact hsafe

/-- Writing the chunk held back, when `more` is to follow it. -/
theorem flushChunk_of_awaits (I : Intake awaits safe) {w : PayloadWriter S τ} {last : Bool}
    {more : Bytes} (hfailed : w.failed = false)
    (h : awaits w.inner (S.encrypt w.key (nonce w.counter last) w.chunk.toList ++ more)) :
    (∃ t, w.flushChunk last =
        (.ok (), { w with inner := t, counter := w.counter + 1, chunk := #[] }) ∧ awaits t more) ∨
      ∃ e v, w.flushChunk last = (.error e, v) ∧ v.failed = true ∧ safe v.inner := by
  have hgiven := I.writeAll h
  simp only [flushChunk_eq, hfailed, Bool.false_eq_true, if_false]
  generalize writeAll w.inner _ = answered at hgiven ⊢
  cases hgiven with
  | all hu => exact .inl ⟨_, rfl, hu⟩
  | failed hu => exact .inr ⟨_, _, rfl, rfl, hu⟩

/-- A full chunk is written when more follows it, and then the rest is still to come. -/
theorem flushChunk_of_sealing (I : Intake awaits safe) {w : PayloadWriter S τ} {rest : Bytes}
    (hfailed : w.failed = false) (h : Sealing awaits safe w rest) (hne : rest ≠ [])
    (hfull : chunkSize ≤ w.chunk.size) :
    (∃ v, w.flushChunk false = (.ok (), v) ∧ v.failed = false ∧ Sealing awaits safe v rest) ∨
      ∃ e v, w.flushChunk false = (.error e, v) ∧ v.failed = true ∧ safe v.inner := by
  cases h with
  | failed hlost _ => cases hfailed.symm.trans hlost
  | working _ hsize hawaits =>
      have hlen : w.chunk.toList.length = chunkSize := by
        rw [Array.length_toList]
        exact Nat.le_antisymm hsize hfull
      rw [sealFrom_append hlen hne] at hawaits
      rcases flushChunk_of_awaits I hfailed hawaits with ⟨t, ht, hnext⟩ | hlost
      · exact .inl ⟨_, ht, hfailed, .working hfailed (Nat.zero_le _) hnext⟩
      · exact .inr hlost

/-- A write takes all it is given, unless a chunk was lost on the way. -/
theorem writeFrom_of_sealing (I : Intake awaits safe) {w : PayloadWriter S τ} {b more : Bytes}
    (taken : Nat) (hfailed : w.failed = false) (h : Sealing awaits safe w (b ++ more)) :
    (∃ n v, w.writeFrom b taken = (.ok n, v) ∧
        (n = taken + b.length ∧ Sealing awaits safe v more ∨ v.failed = true ∧ safe v.inner)) ∨
      ∃ e v, w.writeFrom b taken = (.error e, v) ∧ safe v.inner := by
  -- one case for each way a round can go, as in the proof over sinks that do not fail
  have hrounds := w.rounds_writeFrom b taken
  generalize w.writeFrom b taken = r at hrounds ⊢
  induction hrounds with
  | done w taken =>
      exact .inl ⟨taken, w, rfl, .inl ⟨rfl, h⟩⟩
  | flushed hne hfull hflush _ ih =>
      rcases flushChunk_of_sealing I hfailed h (by simp [hne]) hfull with
        ⟨u, hu, hgoes, hkept⟩ | ⟨e, u, hu, -, -⟩
      · cases hflush.symm.trans hu
        exact ih hgoes hkept
      · cases hflush.symm.trans hu
  | @late w v b taken e hne hfull hflush htaken =>
      rcases flushChunk_of_sealing I hfailed h (by simp [hne]) hfull with
        ⟨u, hu, -⟩ | ⟨e', u, hu, hlost, hsafe⟩
      · cases hflush.symm.trans hu
      · cases hflush.symm.trans hu
        exact .inl ⟨taken, _, rfl, .inr ⟨hlost, hsafe⟩⟩
  | lost hne hfull hflush htaken =>
      rcases flushChunk_of_sealing I hfailed h (by simp [hne]) hfull with
        ⟨u, hu, -⟩ | ⟨e', u, hu, -, hsafe⟩
      · cases hflush.symm.trans hu
      · cases hflush.symm.trans hu
        exact .inr ⟨_, _, rfl, hsafe⟩
  | @filled w b taken r hne hfull _ ih =>
      let room := chunkSize - w.chunk.size
      let piece := b.take room
      cases h with
      | failed hf _ => cases hfailed.symm.trans hf
      | working _ hsize hawaits =>
          have hroom : (w.chunk ++ piece).size ≤ chunkSize := by
            simp only [Bytes.size_append, piece, room, List.length_take]
            omega
          have hsplit : (w.chunk ++ piece).toList ++ (b.drop room ++ more) =
              w.chunk.toList ++ (b ++ more) := by
            simp only [Array.toList_appendList, List.append_assoc, piece]
            rw [← List.append_assoc (b.take room), List.take_append_drop]
          have hkept : Sealing awaits safe
              ({ w with chunk := w.chunk ++ piece } : PayloadWriter S τ) (b.drop room ++ more) := by
            refine .working hfailed hroom ?_
            rw [hsplit]
            exact hawaits
          have htotal : taken + piece.length + (b.drop room).length = taken + b.length := by
            simp only [piece, List.length_take, List.length_drop]
            omega
          have hrest := ih hfailed hkept
          rwa [htotal] at hrest

/-- A payload writer over sinks that respect what they await does so itself. -/
theorem Sealing.intake (I : Intake awaits safe) :
    Intake (Sealing (S := S) awaits safe) (fun w => safe w.inner) where
  safe_of_awaits := fun h => h.safe_inner I
  offered := by
    intro w b more h
    change Offered _ _ _ _ (PayloadWriter.write w b)
    cases hfailed : w.failed with
    | true =>
        simp only [write_eq, hfailed, if_true]
        exact .fault rfl (h.safe_inner I)
    | false =>
        simp only [write_eq, hfailed, Bool.false_eq_true, if_false]
        rcases writeFrom_of_sealing I 0 hfailed h with
          ⟨n, v, hv, ⟨hn, hkept⟩ | ⟨hlost, hsafe⟩⟩ | ⟨e, v, hv, hsafe⟩
        · rw [hv]
          refine .taken ?_
          rw [hn, Nat.zero_add, List.drop_length]
          exact hkept
        · rw [hv]
          exact .taken (.failed hlost hsafe)
        · rw [hv]
          exact .fault (not_interrupted_of_writeFrom hv) hsafe
  awaits_flush := by
    intro w rest h
    cases h with
    | working hfailed hsize hawaits => exact .working hfailed hsize (I.awaits_flush hawaits)
    | failed hfailed hsafe => exact .failed hfailed (I.safe_flush hsafe)
  safe_flush := fun h => I.safe_flush h

/-- Sealing the last chunk passes on all that is still to come. -/
theorem Sealing.finish (I : Intake awaits safe) {w : PayloadWriter S τ}
    (h : Sealing awaits safe w []) : Given awaits safe [] w.finish := by
  cases h with
  | failed hfailed hsafe =>
      simp only [finish_eq, flushChunk_eq, hfailed, if_true]
      exact .failed hsafe
  | working hfailed hsize hawaits =>
      have hlast : (w.chunk.toList ++ []).length ≤ chunkSize := by
        simpa using hsize
      rw [sealFrom, if_pos hlast, List.append_nil, ← List.append_nil (S.encrypt _ _ _)] at hawaits
      rcases flushChunk_of_awaits I hfailed hawaits with ⟨t, ht, hdone⟩ | ⟨e, v, hv, -, hsafe⟩
      · simp only [finish_eq, ht]
        exact I.flush hdone
      · simp only [finish_eq, hv]
        exact .failed hsafe

/-- A payload written to a sink that awaits its sealed form. -/
theorem writePayload_of_awaits (I : Intake awaits safe) {sink : τ} {key : Block 32}
    {pieces : List Bytes} (h : awaits sink (sealAll S key pieces.flatten)) :
    Given awaits safe [] (Encryptor.writePayload (start S key sink) pieces) := by
  have hstart : Sealing awaits safe (start S key sink) (pieces.flatten ++ []) := by
    rw [List.append_nil]
    exact .start h
  have hgiven := (Sealing.intake I).writeEach hstart
  unfold Encryptor.writePayload
  generalize writeEach (start S key sink) pieces = answered at hgiven ⊢
  cases hgiven with
  | failed hu => exact .failed hu
  | @all w hw =>
      have hfinish := hw.finish I
      dsimp only
      generalize w.finish = answered at hfinish ⊢
      cases hfinish with
      | all hu => exact .all hu
      | failed hu => exact .failed hu

end PayloadWriter
end AgeCrypt
