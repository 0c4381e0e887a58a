import AgeCrypt.Io.Scripted

/-!
# Collection

The counterpart of delivery for sinks, in two parts that do not need each other:

* a `HoldingSink` has contents, which grow by what a write says it took and by nothing else;
* an `Unfailing` sink takes something of whatever it is offered, and its flushes succeed.  It may
  take little at a time, and it may be interrupted.

Being unfailing is `Steady`: writes and flushes keep it, and writing all of a byte string succeeds
(`Steady.writeAll`).  A sink in memory is both holding and unfailing (`ScriptedSink.unfailing`).
-/

namespace AgeCrypt

/-- A sink that holds what it has said it took. -/
class HoldingSink (τ : Type) [ByteSink τ] where
  contents : τ → Bytes
  -- A write adds the bytes it took.
  contents_of_ok : ∀ {t b n u}, ByteSink.write t b = (.ok n, u) →
    contents u = contents t ++ b.take n
  -- A write that fails adds nothing.
  contents_of_error : ∀ {t b e u}, ByteSink.write t b = (.error e, u) → contents u = contents t
  contents_flush : ∀ t, contents (ByteSink.flush t).2 = contents t

namespace ByteSink

variable {τ : Type} [ByteSink τ]

/-- What an unfailing sink answers to a write of `b`; `stays` says that it goes on so. -/
inductive Accepted (stays : τ → Prop) (b : Bytes) : Except IoError Nat × τ → Prop where
  -- Something was taken, if there was something to take.
  | taken {n : Nat} {u : τ} (hpos : b ≠ [] → 0 < n) (hu : stays u) : Accepted stays b (.ok n, u)
  | pause {e : IoError} {u : τ} (he : e.isInterrupted = true) (hu : stays u) :
      Accepted stays b (.error e, u)

/-- The sink takes whatever it is offered, piece by piece, and its flushes succeed. -/
def Unfailing (t : τ) : Prop :=
  ∃ stays : τ → Prop, stays t ∧ ∀ u, stays u →
    (∀ b, Accepted stays b (write u b)) ∧ ∃ v, flush u = (.ok (), v) ∧ stays v

namespace Unfailing

variable {t u : τ}

/-- A property that writes and flushes keep shows that a sink is unfailing. -/
theorem of_invariant (stays : τ → Prop)
    (hwrite : ∀ u b, stays u → Accepted stays b (write u b))
    (hflush : ∀ u, stays u → ∃ v, flush u = (.ok (), v) ∧ stays v) (ht : stays t) :
    Unfailing t :=
  ⟨stays, ht, fun u hu => ⟨fun b => hwrite u b hu, hflush u hu⟩⟩

/-- An unfailing sink takes something of what it is offered, and stays unfailing. -/
theorem of_write_ok (h : Unfailing t) {b : Bytes} {n : Nat} (hw : write t b = (.ok n, u)) :
    (b ≠ [] → 0 < n) ∧ Unfailing u := by
  rcases h with ⟨stays, ht, hstep⟩
  have haccepted := (hstep t ht).1 b
  rw [hw] at haccepted
  cases haccepted with
  | taken hpos hu => exact ⟨hpos, stays, hu, hstep⟩

/-- The only error of an unfailing sink is an interruption. -/
theorem of_write_error (h : Unfailing t) {b : Bytes} {e : IoError}
    (hw : write t b = (.error e, u)) : e.isInterrupted = true ∧ Unfailing u := by
  rcases h with ⟨stays, ht, hstep⟩
  have haccepted := (hstep t ht).1 b
  rw [hw] at haccepted
  cases haccepted with
  | pause he hu => exact ⟨he, stays, hu, hstep⟩

theorem flush_ok (h : Unfailing t) : ∃ v, flush t = (.ok (), v) ∧ Unfailing v := by
  rcases h with ⟨stays, ht, hstep⟩
  rcases (hstep t ht).2 with ⟨v, hv, hstays⟩
  exact ⟨v, hv, stays, hstays, hstep⟩

/-- One write to an unfailing sink. -/
theorem accepted (h : Unfailing t) (b : Bytes) : Accepted Unfailing b (write t b) := by
  cases hw : write t b with
  | mk answered u =>
      cases answered with
      | ok n => exact .taken (h.of_write_ok hw).1 (h.of_write_ok hw).2
      | error e => exact .pause (h.of_write_error hw).1 (h.of_write_error hw).2

end Unfailing

/-- A property that writes and flushes keep, of sinks that take whatever they are offered. -/
structure Steady (stays : τ → Prop) : Prop where
  accepted : ∀ {u} b, stays u → Accepted stays b (write u b)
  flush_ok : ∀ {u}, stays u → ∃ v, flush u = (.ok (), v) ∧ stays v

theorem steady_unfailing : Steady (Unfailing (τ := τ)) where
  accepted := fun b h => h.accepted b
  flush_ok := fun h => h.flush_ok

namespace Steady

variable {stays : τ → Prop}

/-- Such a sink takes all of a byte string. -/
theorem writeAll (hsteady : Steady stays) {t : τ} (h : stays t) (b : Bytes) :
    ∃ u, ByteSink.writeAll t b = (.ok (), u) ∧ stays u := by
  fun_induction ByteSink.writeAll t b with
  | case1 t => exact ⟨t, rfl, h⟩
  | case2 t b hne u hw =>
      have haccepted := hsteady.accepted b h
      rw [hw] at haccepted
      cases haccepted with
      | taken hpos _ => exact absurd (hpos hne) (Nat.lt_irrefl 0)
  | case3 t b hne n u hw ih =>
      have haccepted := hsteady.accepted b h
      rw [hw] at haccepted
      cases haccepted with
      | taken _ hu => exact ih hu
  | case4 t b hne e u hw hi ih =>
      have haccepted := hsteady.accepted b h
      rw [hw] at haccepted
      cases haccepted with
      | pause _ hu => exact ih hu
  | case5 t b hne e u hw hi =>
      have haccepted := hsteady.accepted b h
      rw [hw] at haccepted
      cases haccepted with
      | pause he _ => exact absurd he hi

/-- Pieces are written in full, one after another. -/
theorem writeEach (hsteady : Steady stays) {t : τ} (h : stays t) (pieces : List Bytes) :
    ∃ u, ByteSink.writeEach t pieces = (.ok (), u) ∧ stays u := by
  induction pieces generalizing t with
  | nil => exact ⟨t, rfl, h⟩
  | cons piece pieces ih =>
      rcases hsteady.writeAll h piece with ⟨u, hu, hafter⟩
      rw [ByteSink.writeEach, hu]
      exact ih hafter

end Steady

end ByteSink

/-! ## Scripted sinks -/

namespace ScriptedSink

open ByteSink

/-- What a sink takes is a prefix of what it is offered. -/
theorem fitting_eq_take (t : ScriptedSink) (b : Bytes) :
    t.fitting b = b.take (t.fitting b).length := by
  unfold fitting
  split
  · simp
  · rw [List.length_take, List.take_eq_take_min]

instance : HoldingSink ScriptedSink where
  contents t := t.contents.toList
  contents_of_ok := by
    intro t b n u h
    have htake : (t.take b).2.contents.toList = t.contents.toList ++ b.take (t.take b).1 := by
      simp only [take, Array.toList_appendList]
      rw [← fitting_eq_take]
    change ScriptedSink.write t b = (.ok n, u) at h
    unfold ScriptedSink.write at h
    split at h
    · split at h
      · split at h
        · cases h
        · cases h
          simp
      · cases h
        exact htake
    · cases h
      exact htake
  contents_of_error := by
    intro t b e u h
    change ScriptedSink.write t b = (.error e, u) at h
    unfold ScriptedSink.write at h
    split at h
    · split at h
      · split at h
        · cases h
          rfl
        · cases h
      · cases h
    · cases h
  contents_flush := by
    intro t
    change ((ScriptedSink.flush t).2).contents.toList = _
    unfold ScriptedSink.flush
    split <;> rfl

@[simp] theorem contents_eq (t : ScriptedSink) : HoldingSink.contents t = t.contents.toList := rfl

/-- A scripted sink without faults that takes something at a time never fails. -/
theorem unfailing {t : ScriptedSink} (hportion : t.portion ≠ some 0) (hfaults : t.faults = [])
    (hflush : t.flushFaults = []) : Unfailing t := by
  refine Unfailing.of_invariant
    (fun u => u.portion ≠ some 0 ∧ u.faults = [] ∧ u.flushFaults = []) ?_ ?_
    ⟨hportion, hfaults, hflush⟩
  · rintro u b ⟨hportion, hfaults, hflush⟩
    have hwrite : ByteSink.write u b = (.ok (u.take b).1, (u.take b).2) := by
      change ScriptedSink.write u b = _
      unfold ScriptedSink.write
      rw [hfaults]
    rw [hwrite]
    refine .taken ?_ ⟨hportion, hfaults, hflush⟩
    intro hne
    have hpos : 0 < b.length := List.length_pos_iff.2 hne
    simp only [take, fitting, room, hfaults]
    rcases hp : u.portion with _ | portion
    · exact hpos
    · have hportion_pos : 0 < portion := by
        refine Nat.pos_of_ne_zero ?_
        rintro rfl
        exact hportion hp
      simp only [List.length_take]
      omega
  · rintro u ⟨hportion, hfaults, hflush⟩
    refine ⟨u, ?_, hportion, hfaults, hflush⟩
    change ScriptedSink.flush u = _
    unfold ScriptedSink.flush
    rw [hflush]

/-- A sink in memory never fails. -/
theorem unfailing_empty : Unfailing ({} : ScriptedSink) :=
  unfailing (by simp) rfl rfl

end ScriptedSink

end AgeCrypt
