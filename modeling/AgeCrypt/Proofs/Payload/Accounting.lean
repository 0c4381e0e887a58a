import AgeCrypt.Proofs.File.Watching
import AgeCrypt.Proofs.Payload.Losing

/-!
# What a payload writer has accepted

A write may take less than it was offered, or fail, and the sink below may fail at any byte.  Yet a
payload writer says at every call how many bytes it has taken, and those bytes are what it stands
for: the sink holds the beginning of the sealed form of them and of anything that may follow, and if
the writer can be finished, the sink holds the sealed form of them alone (`accounts_for_calls`).

The invariant is `Accounts`.  It speaks of every continuation at once, so the bytes that a write has
taken move from the continuation to what was accepted.  Between two rounds of a write it holds only
of continuations that are not empty, since a full chunk that has been sealed as one that others
follow must be followed (`writeFrom_accounts`); a chunk that is lost leaves the writer there.
-/

namespace AgeCrypt
namespace ByteSink

/-- Whether the answer tells what was taken even where the call fails. -/
def Call.isSingle : Call → Bool
  | write _ => true
  | writeAll _ => false
  | flush => true

/-- A call is answered alike under any view of the sink. -/
theorem SinkMap.perform {υ τ : Type} [ByteSink υ] [ByteSink τ] {f : υ → τ} (F : SinkMap f) (t : υ)
    (call : Call) :
    ByteSink.perform (f t) call = ((ByteSink.perform t call).1, f (ByteSink.perform t call).2) := by
  cases call with
  | write b => exact F.write_eq t b
  | writeAll b =>
      rw [ByteSink.perform, ByteSink.perform, F.writeAll]
      rcases ByteSink.writeAll t b with ⟨_ | u, t⟩ <;> rfl
  | flush =>
      rw [ByteSink.perform, ByteSink.perform, F.flush_eq]
      rcases ByteSink.flush t with ⟨_ | u, t⟩ <;> rfl

theorem SinkMap.performEach {υ τ : Type} [ByteSink υ] [ByteSink τ] {f : υ → τ} (F : SinkMap f)
    (t : υ) (calls : List Call) :
    ByteSink.performEach (f t) calls =
      ((ByteSink.performEach t calls).1, f (ByteSink.performEach t calls).2) := by
  induction calls generalizing t with
  | nil => rfl
  | cons call calls ih =>
      rw [ByteSink.performEach, ByteSink.performEach, F.perform]
      exact congrArg (fun rest => (_ :: rest.1, rest.2)) (ih _)

end ByteSink

namespace PayloadWriter

open Crypto Payload ByteSink HoldingSink

variable {S : Suite} {τ : Type} [ByteSink τ]

section

variable {awaits : Bytes → τ → Bytes → Prop} {safe : Bytes → τ → Prop}

/-- Whatever is to follow what was accepted, the writer is on its way to the sealed form of the
whole.  If a chunk was lost, something must follow. -/
def Accounts (awaits : Bytes → τ → Bytes → Prop) (safe : Bytes → τ → Prop) (w : PayloadWriter S τ)
    (accepted : Bytes) : Prop :=
  ∀ x, (w.failed = true → x ≠ []) → Sealing (awaits (accepted ++ x)) (safe (accepted ++ x)) w x

/-- What a write of `b` comes to, where `accepted` and `taken` bytes of it were taken before. -/
inductive Took (awaits : Bytes → τ → Bytes → Prop) (safe : Bytes → τ → Prop) (accepted b : Bytes)
    (taken : Nat) : Except IoError Nat × PayloadWriter S τ → Prop where
  | some {n : Nat} {v : PayloadWriter S τ} (h : Accounts awaits safe v (accepted ++ b.take n)) :
      Took awaits safe accepted b taken (.ok (taken + n), v)
  -- An error is reported only where nothing was taken.
  | none {e : IoError} {v : PayloadWriter S τ} (htaken : taken = 0)
      (h : Accounts awaits safe v accepted) : Took awaits safe accepted b taken (.error e, v)

omit [ByteSink τ] in
/-- A round that takes `piece` leaves the rest to the rounds after it. -/
theorem Took.append {accepted piece rest : Bytes} {taken : Nat} (hne : piece ≠ [])
    {result : Except IoError Nat × PayloadWriter S τ}
    (h : Took awaits safe (accepted ++ piece) rest (taken + piece.length) result) :
    Took awaits safe accepted (piece ++ rest) taken result := by
  cases h with
  | @some n v h =>
      rw [Nat.add_assoc]
      refine .some ?_
      rw [List.take_length_add_append, ← List.append_assoc]
      exact h
  | none htaken h =>
      have hpos : 0 < piece.length := List.length_pos_iff.2 hne
      omega

/-- A full chunk that is held back while more follows: what becomes of it. -/
theorem flushChunk_accounts (I : ∀ p, Intake (awaits p) (safe p)) {w v : PayloadWriter S τ}
    {accepted : Bytes} {r : Except IoError Unit} (hfailed : w.failed = false)
    (hfull : chunkSize ≤ w.chunk.size)
    (h : ∀ x, x ≠ [] → Sealing (awaits (accepted ++ x)) (safe (accepted ++ x)) w x)
    (hflush : w.flushChunk false = (r, v)) :
    (v.failed = !r.isOk) ∧
      ∀ x, x ≠ [] → Sealing (awaits (accepted ++ x)) (safe (accepted ++ x)) v x := by
  have heach : ∀ x, x ≠ [] →
      (v.failed = !r.isOk) ∧ Sealing (awaits (accepted ++ x)) (safe (accepted ++ x)) v x := by
    intro x hx
    rcases flushChunk_of_sealing (I _) hfailed (h x hx) hx hfull with
      ⟨u, hu, hgoes, hkept⟩ | ⟨e, u, hu, hlost, hsafe⟩
    · cases hflush.symm.trans hu
      exact ⟨hgoes, hkept⟩
    · cases hflush.symm.trans hu
      exact ⟨hlost, .failed hlost hsafe⟩
  exact ⟨(heach [0] (by simp)).1, fun x hx => (heach x hx).2⟩

/-- A write accounts for what it takes.  While bytes are left, something follows. -/
theorem writeFrom_accounts (I : ∀ p, Intake (awaits p) (safe p)) {w : PayloadWriter S τ}
    {accepted b : Bytes} (taken : Nat) (hfailed : w.failed = false)
    (h : ∀ x, (b ≠ [] → x ≠ []) → Sealing (awaits (accepted ++ x)) (safe (accepted ++ x)) w x) :
    Took awaits safe accepted b taken (w.writeFrom b taken) := by
  have hrounds := w.rounds_writeFrom b taken
  generalize w.writeFrom b taken = r at hrounds ⊢
  induction hrounds generalizing accepted with
  | done w taken =>
      refine Took.some (n := 0) fun x _ => ?_
      rw [List.take_nil, List.append_nil]
      exact h x fun hne => absurd rfl hne
  | flushed hne hfull hflush _ ih =>
      rcases flushChunk_accounts I hfailed hfull (fun x hx => h x fun _ => hx) hflush with
        ⟨hgoes, hkept⟩
      exact ih hgoes fun x hx => hkept x (hx hne)
  | late hne hfull hflush htaken =>
      rcases flushChunk_accounts I hfailed hfull (fun x hx => h x fun _ => hx) hflush with
        ⟨hlost, hkept⟩
      refine Took.some (n := 0) fun x hx => ?_
      rw [List.take_zero, List.append_nil]
      exact hkept x (hx hlost)
  | lost hne hfull hflush htaken =>
      rcases flushChunk_accounts I hfailed hfull (fun x hx => h x fun _ => hx) hflush with
        ⟨hlost, hkept⟩
      exact .none (Nat.eq_zero_of_not_pos htaken) fun x hx => hkept x (hx hlost)
  | @filled w b taken r hne hfull _ ih =>
      let room := chunkSize - w.chunk.size
      let piece := b.take room
      have hpiece : piece ≠ [] := by
        rw [← List.length_pos_iff, List.length_take]
        have hpos : 0 < b.length := List.length_pos_iff.2 hne
        omega
      have hrest : Took awaits safe accepted (piece ++ b.drop room) taken r := by
        refine Took.append hpiece (ih hfailed fun x _ => ?_)
        -- the piece moves from what may follow to what was accepted
        have hmoved := h (piece ++ x) fun _ => by simp [hpiece]
        rw [List.append_assoc]
        cases hmoved with
        | failed hlost _ => cases hfailed.symm.trans hlost
        | working _ hsize hawaits =>
            refine .working hfailed ?_ ?_
            · simp only [Bytes.size_append, List.length_take]
              omega
            · rw [Array.toList_appendList, List.append_assoc]
              exact hawaits
      rwa [List.take_append_drop] at hrest

/-! ## Calls -/

/-- A write adds to what was accepted as many bytes as it says, on the way to their sealed form. -/
theorem Accounts.write (I : ∀ p, Intake (awaits p) (safe p)) {w : PayloadWriter S τ}
    {accepted : Bytes} (h : Accounts awaits safe w accepted) (b : Bytes) :
    Took awaits safe accepted b 0 (ByteSink.write w b) := by
  change Took _ _ _ _ _ (PayloadWriter.write w b)
  cases hfailed : w.failed with
  | true =>
      simp only [write_eq, hfailed, if_true]
      exact .none rfl h
  | false =>
      simp only [write_eq, hfailed, Bool.false_eq_true, if_false]
      refine writeFrom_accounts I 0 hfailed fun x _ => h x fun hlost => ?_
      cases hfailed.symm.trans hlost

/-- A call accounts for the bytes that it says were taken. -/
theorem Accounts.perform (I : ∀ p, Intake (awaits p) (safe p)) {w : PayloadWriter S τ}
    {accepted : Bytes} (h : Accounts awaits safe w accepted) {call : Call}
    (hsingle : call.isSingle = true) :
    Accounts awaits safe (ByteSink.perform w call).2
      (accepted ++ call.accepted (ByteSink.perform w call).1) := by
  cases call with
  | write b =>
      have htook := h.write I b
      simp only [ByteSink.perform]
      generalize ByteSink.write w b = result at htook ⊢
      cases htook with
      | some hv =>
          rw [Nat.zero_add]
          exact hv
      | none _ hv =>
          simp only [Call.accepted, List.append_nil]
          exact hv
  | writeAll b => cases hsingle
  | flush =>
      have hkept : Accounts awaits safe (ByteSink.flush w).2 accepted :=
        fun x hx => (Sealing.intake (I _)).awaits_flush (h x hx)
      simp only [ByteSink.perform]
      generalize ByteSink.flush w = result at hkept ⊢
      rcases result with ⟨_ | u, v⟩
      · simpa only [Call.accepted, List.append_nil] using hkept
      · simpa only [Call.accepted, Call.bytes, List.take_nil, List.append_nil] using hkept

/-- So do all calls, one after another. -/
theorem Accounts.performEach (I : ∀ p, Intake (awaits p) (safe p)) {w : PayloadWriter S τ}
    {accepted : Bytes} (h : Accounts awaits safe w accepted) {calls : List Call}
    (hsingle : ∀ call ∈ calls, call.isSingle = true) :
    Accounts awaits safe (ByteSink.performEach w calls).2
      (accepted ++ acceptedBy calls (ByteSink.performEach w calls).1) := by
  induction calls generalizing w accepted with
  | nil =>
      simpa only [ByteSink.performEach, acceptedBy, List.zipWith_nil_left, List.flatten_nil,
        List.append_nil] using h
  | cons call calls ih =>
      have hfirst := h.perform I (hsingle call (List.mem_cons_self ..))
      have hrest := ih hfirst fun c hc => hsingle c (List.mem_cons_of_mem _ hc)
      rw [List.append_assoc] at hrest
      exact hrest

/-- What was accepted is all there is, once the writer has been finished. -/
theorem Accounts.finish (I : ∀ p, Intake (awaits p) (safe p)) {w : PayloadWriter S τ}
    {accepted : Bytes} (h : Accounts awaits safe w accepted) {t : τ}
    (hfinish : w.finish = (.ok (), t)) : awaits accepted t [] := by
  cases hfailed : w.failed with
  | true =>
      rw [finish_of_failed hfailed] at hfinish
      cases hfinish
  | false =>
      have hwhole := h [] fun hlost => by cases hfailed.symm.trans hlost
      rw [List.append_nil] at hwhole
      have hgiven := hwhole.finish (I accepted)
      rw [hfinish] at hgiven
      exact hgiven.of_ok

end

/-- Over any sink, and with calls going on after errors, a payload writer stands for the bytes that
its answers say were taken.  At every moment of the run the sink holds the beginning of the sealed
form of those bytes and of whatever may follow them; if the writer is finished with success, the
sink holds the sealed form of those bytes and no others.  Nothing is offered to the sink after it
has refused a write, during the run or at its end.

Keeping the log changes nothing: the run is that over the sink itself. -/
theorem accounts_for_calls [HoldingSink τ] (sink : τ) (key : Block 32) {calls : List Call}
    (hsingle : ∀ call ∈ calls, call.isSingle = true) :
    let run := performEach (start S key (Logged.start sink)) calls
    let accepted := acceptedBy calls run.1
    (∀ x, x ≠ [] → ∀ moment ∈ run.2.inner.moments,
        moment <+: contents sink ++ sealAll S key (accepted ++ x)) ∧
      (∀ t, run.2.finish = (.ok (), t) →
        contents t.inner = contents sink ++ sealAll S key accepted) ∧
      (∀ t ∈ [run.2.inner, run.2.finish.2], ∀ later entry earlier,
        t.log = later ++ entry :: earlier → Refused entry.answer → later = []) ∧
      performEach (start S key sink) calls = (run.1, run.2.mapInner Logged.inner) ∧
      (run.2.mapInner Logged.inner).finish = (run.2.finish.1, run.2.finish.2.inner) := by
  intro run accepted
  let whole (p : Bytes) : Bytes := contents sink ++ sealAll S key p
  have I : ∀ p, Intake (Logged.Awaits (τ := τ) (whole p)) (Logged.Within (whole p)) :=
    fun p => Logged.intake (whole p)
  have hstart : Accounts (fun p => Logged.Awaits (whole p)) (fun p => Logged.Within (whole p))
      (start S key (Logged.start sink)) [] :=
    fun x _ => Sealing.start (Logged.awaits_start sink _)
  have haccounts := hstart.performEach I hsingle
  have hclear : (Logged.start sink).Clear := fun entry hmem => by cases hmem
  have hbound : Bound Logged.Clear Logged.Stuck run.2 :=
    (bound_start (S := S) _ key hclear).performEach Logged.breaking calls
  refine ⟨?_, ?_, ?_, ?_, ?_⟩
  · intro x hx
    exact (haccounts x fun _ => hx).safe_inner (I _)
  · intro t hfinish
    have hheld : contents t ++ [] = whole accepted := (haccounts.finish I hfinish).1
    rwa [List.append_nil] at hheld
  · intro t hmem later entry earlier hlog hrefused
    refine Logged.eq_nil_of_refused ?_ hlog hrefused
    rcases List.mem_cons.1 hmem with rfl | hmem
    · cases hbound with
      | working _ hgood => exact .inl hgood
      | lost _ hspent => exact .inr hspent
    · rw [List.mem_singleton.1 hmem]
      exact hbound.finish Logged.breaking
  · exact (sinkMap Logged.sinkMap).performEach (start S key (Logged.start sink)) calls
  · exact finish_map Logged.sinkMap run.2

/-- A chunk is lost in a write of one byte more: the chunk was accepted, and the sink holds the
beginning of its sealed form whatever follows. -/
theorem accounts_for_calls_lost :
    let calls : List Call := [.write overlong, .flush, .write [1]]
    let run := performEach (start .transparent (Block.zeros 32) (Logged.start recoveringSink)) calls
    (∀ call ∈ calls, call.isSingle = true) ∧
      acceptedBy calls run.1 = overlong.take chunkSize ∧
      ∀ x, x ≠ [] → ∀ moment ∈ run.2.inner.moments,
        moment <+: sealAll .transparent (Block.zeros 32) (overlong.take chunkSize ++ x) := by
  intro calls run
  have hsingle : ∀ call ∈ calls, call.isSingle = true :=
    List.forall_mem_cons.2 ⟨rfl, by decide⟩
  have hanswers : run.1 = [.ok chunkSize, .ok 0, .error (.payload .writerFailed)] := by
    simp only [run, calls, performEach, perform,
      write_recoveringSink (S := .transparent) (Block.zeros 32) lt_length_overlong]
    rfl
  have haccepted : acceptedBy calls run.1 = overlong.take chunkSize := by
    rw [hanswers]
    exact List.append_nil _
  refine ⟨hsingle, haccepted, fun x hx moment hmem => ?_⟩
  have hmoment := (accounts_for_calls (S := .transparent) recoveringSink (Block.zeros 32)
    hsingle).1 x hx moment hmem
  have hempty : contents recoveringSink = [] := rfl
  rwa [haccepted, hempty, List.nil_append] at hmoment

end PayloadWriter
end AgeCrypt
