import AgeCrypt.Proofs.Payload.Sealing

/-!
# What a payload writer leaves

A writer that has taken some pieces and is finished leaves the sealed form of the pieces put
together (`contents_of_writePayload`), and over an unfailing sink it comes to that
(`writePayload_of_steady`).  `Leaves` says this of a writer over memory, and `leaves_iff` decides
it.
-/

namespace AgeCrypt
namespace PayloadWriter

open Crypto Payload ByteSink HoldingSink

variable {S : Suite} {τ : Type} [ByteSink τ]

section

variable {stays : τ → Prop}

/-- A writer that has not failed, over a sink that does not fail. -/
structure Ready (stays : τ → Prop) (w : PayloadWriter S τ) : Prop where
  failed_eq : w.failed = false
  stays_inner : stays w.inner

theorem Ready.flushChunk (hsteady : Steady stays) {w : PayloadWriter S τ} (h : w.Ready stays)
    (last : Bool) : ∃ v, w.flushChunk last = (.ok (), v) ∧ v.Ready stays := by
  rcases hsteady.writeAll h.stays_inner
    (S.encrypt w.key (nonce w.counter last) w.chunk.toList) with ⟨t, ht, hstays⟩
  refine ⟨{ w with inner := t, counter := w.counter + 1, chunk := #[] }, ?_, h.failed_eq, hstays⟩
  simp only [flushChunk_eq, h.failed_eq, ht, Bool.false_eq_true, if_false]

/-- A write takes all it is given. -/
theorem writeFrom_of_ready (hsteady : Steady stays) {w : PayloadWriter S τ} (h : w.Ready stays)
    (b : Bytes) (taken : Nat) :
    ∃ v, w.writeFrom b taken = (.ok (taken + b.length), v) ∧ v.Ready stays := by
  have hrounds := w.rounds_writeFrom b taken
  generalize w.writeFrom b taken = r at hrounds ⊢
  induction hrounds with
  | done w taken => exact ⟨w, rfl, h⟩
  | flushed hne hfull hflush _ ih =>
      rcases h.flushChunk hsteady false with ⟨u, hu, hready⟩
      cases hflush.symm.trans hu
      exact ih hready
  | late hne hfull hflush _ =>
      rcases h.flushChunk hsteady false with ⟨u, hu, -⟩
      cases hflush.symm.trans hu
  | lost hne hfull hflush _ =>
      rcases h.flushChunk hsteady false with ⟨u, hu, -⟩
      cases hflush.symm.trans hu
  | filled hne hroom _ ih =>
      rcases ih ⟨h.failed_eq, h.stays_inner⟩ with ⟨v, hv, hready⟩
      refine ⟨v, ?_, hready⟩
      rw [hv]
      simp only [List.length_take, List.length_drop]
      congr 2
      omega

/-- A writer over a sink that takes what it is offered takes every write in full. -/
theorem write_of_ready (hsteady : Steady stays) {w : PayloadWriter S τ} (h : w.Ready stays)
    (b : Bytes) : ∃ v, ByteSink.write w b = (.ok b.length, v) ∧ v.Ready stays := by
  rcases writeFrom_of_ready hsteady h b 0 with ⟨v, hv, hready⟩
  refine ⟨v, ?_, hready⟩
  change PayloadWriter.write w b = _
  rw [write_eq, h.failed_eq, if_neg (by decide), hv, Nat.zero_add]

/-- A payload writer does not fail either. -/
theorem steady (hsteady : Steady stays) : Steady (Ready (S := S) stays) where
  accepted := by
    intro w b h
    rcases write_of_ready hsteady h b with ⟨v, hv, hready⟩
    rw [hv]
    exact .taken List.length_pos_iff.2 hready
  flush_ok := by
    intro w h
    rcases hsteady.flush_ok h.stays_inner with ⟨t, ht, hstays⟩
    refine ⟨{ w with inner := t }, ?_, h.failed_eq, hstays⟩
    change PayloadWriter.flush w = _
    simp only [flush_eq, ht]

/-- The last chunk is sealed, and the sink given back. -/
theorem Ready.finish (hsteady : Steady stays) {w : PayloadWriter S τ} (h : w.Ready stays) :
    ∃ t, w.finish = (.ok (), t) ∧ stays t := by
  rcases h.flushChunk hsteady true with ⟨v, hv, hsealed⟩
  rcases hsteady.flush_ok hsealed.stays_inner with ⟨t, ht, hstays⟩
  refine ⟨t, ?_, hstays⟩
  simp only [finish_eq, hv, ht]

/-- A payload is written, in whatever pieces. -/
theorem writePayload_of_steady (hsteady : Steady stays) {sink : τ} (h : stays sink)
    (key : Block 32) (pieces : List Bytes) :
    ∃ t, Encryptor.writePayload (start S key sink) pieces = (.ok (), t) ∧ stays t := by
  have hready : (start S key sink).Ready stays := ⟨rfl, h⟩
  rcases (steady hsteady).writeEach hready pieces with ⟨w, hw, hwritten⟩
  rcases hwritten.finish hsteady with ⟨t, ht, hstays⟩
  refine ⟨t, ?_, hstays⟩
  simp only [Encryptor.writePayload, hw, ht]

end

/-- A payload that was written is there in sealed form. -/
theorem contents_of_writePayload [HoldingSink τ] {sink t : τ} {key : Block 32}
    {pieces : List Bytes} (h : Encryptor.writePayload (start S key sink) pieces = (.ok (), t)) :
    contents t = contents sink ++ sealAll S key pieces.flatten := by
  have hgiven : Given _ _ _ (Encryptor.writePayload (start S key sink) pieces) :=
    writePayload_of_awaits (HoldingSink.intake (contents sink ++ sealAll S key pieces.flatten)) rfl
  rw [h] at hgiven
  simpa using hgiven.of_ok

/-! ## In memory -/

/-- A payload writer over memory takes the pieces, is finished, and leaves `out`. -/
def Leaves (S : Suite) (key : Block 32) (pieces : List Bytes) (out : Bytes) : Prop :=
  ∃ t, Encryptor.writePayload (start S key ({} : ScriptedSink)) pieces = (.ok (), t) ∧
    t.contents.toList = out

/-- What is left is the sealed form, and nothing else. -/
theorem leaves_iff {key : Block 32} {pieces : List Bytes} {out : Bytes} :
    Leaves S key pieces out ↔ out = sealAll S key pieces.flatten := by
  rcases writePayload_of_steady (S := S) steady_unfailing ScriptedSink.unfailing_empty key pieces
    with ⟨t, ht, -⟩
  have hsealed : t.contents.toList = sealAll S key pieces.flatten := by
    simpa using contents_of_writePayload ht
  constructor
  · rintro ⟨u, hu, rfl⟩
    cases ht.symm.trans hu
    exact hsealed
  · rintro rfl
    exact ⟨t, ht, hsealed⟩

end PayloadWriter
end AgeCrypt
