import AgeCrypt.Proofs.Io.Watching

/-!
# Sinks that keep a log

A sink that keeps a log notes every write that is offered to it, with the answer and with what it
held after it.  Where a watched sink shows what was held at each moment, a log shows also how the
sink took each write, and so whether anything was offered to it after it had refused.

A write is refused if it fails and was not merely interrupted, or if nothing is taken
(`Refused`).  Writing all of a byte string ends with the first refusal: if it succeeds there was
none, and if it fails the latest write was the only one (`Logged.writeAll_of_clear`).
-/

namespace AgeCrypt
namespace ByteSink

/-- The answer to a write that leaves no way on. -/
def Refused : Except IoError Nat → Prop
  | .ok n => n = 0
  | .error e => e.isInterrupted = false

/-- What writes keep, whatever the sink answers, writing all of a byte string keeps. -/
theorem writeAll_keeps {τ : Type} [ByteSink τ] {holds : τ → Prop}
    (hwrite : ∀ {t} b, holds t → holds (write t b).2) {t : τ} (h : holds t) (b : Bytes) :
    holds (writeAll t b).2 := by
  have hafter : ∀ {t u : τ} {b : Bytes} {r : Except IoError Nat}, holds t → write t b = (r, u) →
      holds u := by
    intro t u b r ht hw
    have hu := hwrite b ht
    rwa [hw] at hu
  fun_induction writeAll t b with
  | case1 t => exact h
  | case2 t b hne u hw => exact hafter h hw
  | case3 t b hne n u hw ih => exact ih (hafter h hw)
  | case4 t b hne e u hw hi ih => exact ih (hafter h hw)
  | case5 t b hne e u hw hi => exact hafter h hw

end ByteSink

open ByteSink HoldingSink

structure LogEntry where
  answer : Except IoError Nat
  -- What the sink held after it.
  held : Bytes

/-- A sink, and the writes that were offered to it. -/
structure Logged (τ : Type) where
  inner : τ
  -- The latest write first.
  log : List LogEntry

namespace Logged

variable {τ : Type} [ByteSink τ] [HoldingSink τ]

def start (sink : τ) : Logged τ :=
  { inner := sink, log := [] }

def note (t : Logged τ) (answered : Except IoError Nat × τ) : Logged τ :=
  { inner := answered.2, log := ⟨answered.1, contents answered.2⟩ :: t.log }

instance : ByteSink (Logged τ) where
  write t b := ((write t.inner b).1, t.note (write t.inner b))
  flush t := ((flush t.inner).1, { t with inner := (flush t.inner).2 })
  patience t := patience t.inner
  taken_le := by
    intro t b n u h
    obtain ⟨hr, rfl⟩ := Prod.mk.inj h
    exact taken_le (Prod.ext hr rfl)
  patience_of_ok := by
    intro t b n u h
    obtain ⟨hr, rfl⟩ := Prod.mk.inj h
    exact patience_of_ok (Prod.ext hr rfl)
  patience_of_interrupted := by
    intro t b e u h hi
    obtain ⟨hr, rfl⟩ := Prod.mk.inj h
    exact patience_of_interrupted (Prod.ext hr rfl) hi

instance : HoldingSink (Logged τ) where
  contents t := contents t.inner
  contents_of_ok := by
    intro t b n u h
    obtain ⟨hr, rfl⟩ := Prod.mk.inj h
    exact contents_of_ok (Prod.ext hr rfl)
  contents_of_error := by
    intro t b e u h
    obtain ⟨hr, rfl⟩ := Prod.mk.inj h
    exact contents_of_error (Prod.ext hr rfl)
  contents_flush t := contents_flush t.inner

/-- Keeping a log changes no answer. -/
theorem sinkMap : SinkMap (Logged.inner : Logged τ → τ) where
  write_eq := fun _ _ => rfl
  flush_eq := fun _ => rfl

/-- What the sink held after each write, and what it holds now. -/
def moments (t : Logged τ) : List Bytes :=
  contents t.inner :: t.log.map LogEntry.held

/-- No write was refused. -/
def Clear (t : Logged τ) : Prop :=
  ∀ entry ∈ t.log, ¬ Refused entry.answer

/-- The latest write was refused, and none before it. -/
def Stuck (t : Logged τ) : Prop :=
  ∃ entry earlier, t.log = entry :: earlier ∧ Refused entry.answer ∧
    ∀ other ∈ earlier, ¬ Refused other.answer

/-- Each write adds its answer and what the sink held after it. -/
theorem log_of_write {t u : Logged τ} {b : Bytes} {r : Except IoError Nat}
    (h : write t b = (r, u)) : u.log = ⟨r, contents u⟩ :: t.log := by
  obtain ⟨rfl, rfl⟩ := Prod.mk.inj h
  rfl

theorem Clear.of_write {t u : Logged τ} {b : Bytes} {r : Except IoError Nat} (ht : t.Clear)
    (h : write t b = (r, u)) (hr : ¬ Refused r) : u.Clear := by
  intro entry hmem
  rw [log_of_write h] at hmem
  rcases List.mem_cons.1 hmem with rfl | hmem
  · exact hr
  · exact ht entry hmem

/-- The first write that is refused leaves the sink stuck. -/
theorem Clear.stuck_of_write {t u : Logged τ} {b : Bytes} {r : Except IoError Nat} (ht : t.Clear)
    (h : write t b = (r, u)) (hr : Refused r) : u.Stuck :=
  ⟨_, _, log_of_write h, hr, ht⟩

/-- Writing all of a byte string ends with the first refusal. -/
theorem writeAll_of_clear {t : Logged τ} (h : t.Clear) (b : Bytes) :
    Given (fun u _ => u.Clear) Stuck [] (writeAll t b) := by
  fun_induction writeAll t b with
  | case1 t => exact .all h
  | case2 t b hne u hw => exact .failed (h.stuck_of_write hw rfl)
  | case3 t b hne n u hw ih => exact ih (h.of_write hw (Nat.succ_ne_zero n))
  | case4 t b hne e u hw hi ih =>
      refine ih (h.of_write hw ?_)
      intro hrefused
      cases hi.symm.trans hrefused
  | case5 t b hne e u hw hi =>
      have hrefused : e.isInterrupted = false := by
        simpa using hi
      exact .failed (h.stuck_of_write hw hrefused)

omit [ByteSink τ] [HoldingSink τ] in
/-- No write came after one that was refused. -/
theorem eq_nil_of_refused {t : Logged τ} (h : t.Clear ∨ t.Stuck) {later earlier : List LogEntry}
    {entry : LogEntry} (hlog : t.log = later ++ entry :: earlier)
    (hrefused : Refused entry.answer) : later = [] := by
  rcases h with hclear | ⟨latest, others, hothers, -, hnone⟩
  · have hmem : entry ∈ t.log := by
      rw [hlog]
      exact List.mem_append_right later (List.mem_cons_self ..)
    exact absurd hrefused (hclear entry hmem)
  · rw [hothers] at hlog
    cases later with
    | nil => rfl
    | cons first later =>
        -- then the refused write is among those before the latest
        rw [List.cons_append, List.cons.injEq] at hlog
        have hmem : entry ∈ others := by
          rw [hlog.2]
          exact List.mem_append_right later (List.mem_cons_self ..)
        exact absurd hrefused (hnone entry hmem)

/-- Everything held so far, now and before, is a prefix of `whole`. -/
def Within (whole : Bytes) (t : Logged τ) : Prop :=
  ∀ moment ∈ t.moments, moment <+: whole

/-- `rest` is missing to `whole`, and everything held so far is a prefix of it. -/
def Awaits (whole : Bytes) (t : Logged τ) (rest : Bytes) : Prop :=
  contents t ++ rest = whole ∧ t.Within whole

theorem awaits_start (sink : τ) (rest : Bytes) :
    (start sink).Awaits (contents sink ++ rest) rest := by
  refine ⟨rfl, fun moment hmem => ?_⟩
  rw [List.mem_singleton.1 hmem]
  exact List.prefix_append ..

/-- A prefix at every moment stays so, if the sink holds a prefix after the write. -/
theorem Within.note {whole : Bytes} {t : Logged τ} (h : t.Within whole)
    {answered : Except IoError Nat × τ} (hheld : contents answered.2 <+: whole) :
    (t.note answered).Within whole := by
  intro moment hmem
  simp only [Within, moments, Logged.note, List.map_cons, List.mem_cons] at hmem h
  rcases hmem with rfl | rfl | hmem
  · exact hheld
  · exact hheld
  · exact h moment (.inr hmem)

theorem moments_flush (t : Logged τ) : (flush t).2.moments = t.moments :=
  congrArg (· :: t.log.map LogEntry.held) (contents_flush t.inner)

/-- A sink that keeps a log and is to hold `whole` in the end held prefixes of it all along. -/
theorem intake (whole : Bytes) : Intake (Awaits (τ := τ) whole) (Within whole) where
  safe_of_awaits := fun h => h.2
  offered := by
    rintro t b more ⟨h, hwithin⟩
    have hoffered := (HoldingSink.intake (τ := τ) whole).offered h
    change Offered _ _ _ _ ((write t.inner b).1, t.note (write t.inner b))
    generalize write t.inner b = answered at hoffered ⊢
    cases hoffered with
    | taken hu => exact .taken ⟨hu, hwithin.note ⟨_, hu⟩⟩
    | pause he hu => exact .pause he ⟨hu, hwithin.note ⟨_, hu⟩⟩
    | fault he hu => exact .fault he (hwithin.note hu)
  awaits_flush := by
    rintro t rest ⟨h, hwithin⟩
    refine ⟨?_, ?_⟩
    · rw [contents_flush t]
      exact h
    · rwa [Within, moments_flush]
  safe_flush := by
    intro t h
    rwa [Within, moments_flush]

end Logged

end AgeCrypt
