import AgeCrypt.Proofs.Io.Intake

/-!
# Watched sinks

A sink that is watched keeps what it held after each call, so that something can be said about every
moment of a run and not only about its end.  Watching does not change a run: a `SinkMap` takes sinks
of one type to sinks of another that answer alike, and whatever is written to the one might as well
have been written to the other (`SinkMap.writeAll`, `SinkMap.writeEach`).

* `Watched.sinkMap` — the watched sink answers like the sink that watches it;
* `Watched.intake` — what is to be held in the end begins with what was held at any moment.
-/

namespace AgeCrypt
namespace ByteSink

/-- Sinks that answer as their images under `f` do. -/
structure SinkMap {υ τ : Type} [ByteSink υ] [ByteSink τ] (f : υ → τ) : Prop where
  write_eq : ∀ t b, write (f t) b = ((write t b).1, f (write t b).2)
  flush_eq : ∀ t, flush (f t) = ((flush t).1, f (flush t).2)

section

variable {τ : Type} [ByteSink τ] {t u : τ} {b : Bytes}

/-- After a write that took something, the rest is offered. -/
theorem writeAll_of_taken {n : Nat} (hne : b ≠ []) (h : write t b = (.ok (n + 1), u)) :
    writeAll t b = writeAll u (b.drop (n + 1)) := by
  rw [writeAll, if_neg hne]
  split
  all_goals
    rename_i heq
    cases h.symm.trans heq
  rfl

theorem writeAll_of_all (hne : b ≠ []) (h : write t b = (.ok b.length, u)) :
    writeAll t b = (.ok (), u) := by
  rcases Nat.exists_eq_succ_of_ne_zero (mt List.length_eq_zero_iff.1 hne) with ⟨n, hn⟩
  rw [hn] at h
  rw [writeAll_of_taken hne h, ← Nat.succ_eq_add_one, ← hn, List.drop_length, writeAll, if_pos rfl]

/-- A sink that takes nothing of something is at its end. -/
theorem writeAll_of_nothing (hne : b ≠ []) (h : write t b = (.ok 0, u)) :
    writeAll t b = (.error .shortWrite, u) := by
  rw [writeAll, if_neg hne]
  split
  all_goals
    rename_i heq
    cases h.symm.trans heq
  rfl

/-- An interrupted write is tried again, and any other error is passed on. -/
theorem writeAll_of_error {e : IoError} (hne : b ≠ []) (h : write t b = (.error e, u)) :
    writeAll t b = if e.isInterrupted then writeAll u b else (.error e, u) := by
  rw [writeAll, if_neg hne]
  split
  all_goals
    rename_i heq
    cases h.symm.trans heq
  rfl

end

namespace SinkMap

variable {υ τ : Type} [ByteSink υ] [ByteSink τ] {f : υ → τ}

/-- Writing in full goes on alike under any view of the sink. -/
theorem writeAll (F : SinkMap f) (t : υ) (b : Bytes) :
    ByteSink.writeAll (f t) b = ((ByteSink.writeAll t b).1, f (ByteSink.writeAll t b).2) := by
  have himage : ∀ {t u : υ} {b : Bytes} {r : Except IoError Nat}, write t b = (r, u) →
      write (f t) b = (r, f u) := by
    intro t u b r h
    rw [F.write_eq, h]
  fun_induction ByteSink.writeAll t b with
  | case1 t => rw [ByteSink.writeAll, if_pos rfl]
  | case2 t b hne u hw => rw [writeAll_of_nothing hne (himage hw)]
  | case3 t b hne n u hw ih => rw [writeAll_of_taken hne (himage hw), ih]
  | case4 t b hne e u hw hi ih => rw [writeAll_of_error hne (himage hw), if_pos hi, ih]
  | case5 t b hne e u hw hi => rw [writeAll_of_error hne (himage hw), if_neg hi]

theorem writeEach (F : SinkMap f) (t : υ) (pieces : List Bytes) :
    ByteSink.writeEach (f t) pieces =
      ((ByteSink.writeEach t pieces).1, f (ByteSink.writeEach t pieces).2) := by
  induction pieces generalizing t with
  | nil => rfl
  | cons piece pieces ih =>
      rw [ByteSink.writeEach, ByteSink.writeEach, F.writeAll]
      rcases ByteSink.writeAll t piece with ⟨_ | u, t⟩
      · rfl
      · exact ih t

end SinkMap

end ByteSink

open ByteSink HoldingSink

/-- A sink, and what it held at every moment so far. -/
structure Watched (τ : Type) where
  inner : τ
  -- What the sink held at first and after each call, the latest first.
  moments : List Bytes

namespace Watched

variable {τ : Type} [ByteSink τ] [HoldingSink τ]

def start (sink : τ) : Watched τ :=
  { inner := sink, moments := [contents sink] }

def follow (w : Watched τ) (t : τ) : Watched τ :=
  { inner := t, moments := contents t :: w.moments }

instance : ByteSink (Watched τ) where
  write w b := ((write w.inner b).1, w.follow (write w.inner b).2)
  flush w := ((flush w.inner).1, w.follow (flush w.inner).2)
  patience w := patience w.inner
  taken_le := by
    intro w b n v h
    obtain ⟨hr, rfl⟩ := Prod.mk.inj h
    exact taken_le (Prod.ext hr rfl)
  patience_of_ok := by
    intro w b n v h
    obtain ⟨hr, rfl⟩ := Prod.mk.inj h
    exact patience_of_ok (Prod.ext hr rfl)
  patience_of_interrupted := by
    intro w b e v h hi
    obtain ⟨hr, rfl⟩ := Prod.mk.inj h
    exact patience_of_interrupted (Prod.ext hr rfl) hi

/-- A watched sink answers as the sink does that is watched. -/
theorem sinkMap : SinkMap (Watched.inner : Watched τ → τ) where
  write_eq := fun _ _ => rfl
  flush_eq := fun _ => rfl

/-- Everything held so far, now and before, is a prefix of `whole`. -/
def Within (whole : Bytes) (w : Watched τ) : Prop :=
  contents w.inner <+: whole ∧ ∀ moment ∈ w.moments, moment <+: whole

theorem Within.follow {whole : Bytes} {w : Watched τ} (h : w.Within whole) {t : τ}
    (ht : contents t <+: whole) : (w.follow t).Within whole := by
  refine ⟨ht, fun moment hmem => ?_⟩
  rcases List.mem_cons.1 hmem with rfl | hmem
  · exact ht
  · exact h.2 moment hmem

/-- A watched sink that is to hold `whole` in the end held prefixes of it all along. -/
theorem intake (whole : Bytes) :
    Intake (fun (w : Watched τ) rest => contents w.inner ++ rest = whole ∧ w.Within whole)
      (Within whole) where
  safe_of_awaits := fun h => h.2
  offered := by
    rintro w b more ⟨h, hwithin⟩
    have hoffered := (HoldingSink.intake (τ := τ) whole).offered h
    change Offered _ _ _ _ ((write w.inner b).1, w.follow (write w.inner b).2)
    generalize write w.inner b = answered at hoffered ⊢
    cases hoffered with
    | taken hu => exact .taken ⟨hu, hwithin.follow ⟨_, hu⟩⟩
    | pause he hu => exact .pause he ⟨hu, hwithin.follow ⟨_, hu⟩⟩
    | fault he hu => exact .fault he (hwithin.follow hu)
  awaits_flush := by
    rintro w rest ⟨h, hwithin⟩
    have hflushed := (HoldingSink.intake (τ := τ) whole).awaits_flush h
    exact ⟨hflushed, hwithin.follow ⟨_, hflushed⟩⟩
  safe_flush := fun {w} h => h.follow ((HoldingSink.intake (τ := τ) whole).safe_flush h.1)

/-- Watching begins with what the sink holds. -/
theorem within_start {whole : Bytes} {sink : τ} (h : contents sink <+: whole) :
    (start sink).Within whole := by
  refine ⟨h, fun moment hmem => ?_⟩
  rw [List.mem_singleton.1 hmem]
  exact h

end Watched

end AgeCrypt
