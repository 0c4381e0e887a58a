import AgeCrypt.Proofs.Io.Logging
import AgeCrypt.Proofs.Payload.Drafting

/-!
# A payload writer that has lost a chunk

A chunk that could not be written in full is lost: the part of it that has reached the sink cannot
be taken back, and it cannot be sealed once more under the same number.  From then on a payload
writer refuses every write and will not finish, and nothing is written to the sink any more.

The sink below is good as long as each chunk is written in full, and spent once one was not;
`Bound` ties that to the writer, and every call keeps it (`Bound.performEach`).  Over a sink that
keeps a log it says that a chunk is lost just if the latest write was refused (`Logged.breaking`).

Flushes are another matter.  They are passed on to the sink whatever has become of the writer, and
answer what the sink answers: `calls_after_refusal` says all that still happens.
-/

namespace AgeCrypt
namespace ByteSink

variable {τ : Type} [ByteSink τ]

/-- Sinks that stay good as long as what they are given is written in full, and are spent once it is
not. -/
structure Breaking (good spent : τ → Prop) : Prop where
  given : ∀ {t} b, good t → Given (fun u _ => good u) spent [] (writeAll t b)
  good_flush : ∀ {t}, good t → good (flush t).2
  spent_flush : ∀ {t}, spent t → spent (flush t).2

/-- What writes and flushes keep, whatever the sink answers, every call keeps. -/
theorem perform_keeps {holds : τ → Prop} (hwrite : ∀ {t} b, holds t → holds (write t b).2)
    (hflush : ∀ {t}, holds t → holds (flush t).2) {t : τ} (h : holds t) (call : Call) :
    holds (perform t call).2 := by
  cases call with
  | write b => exact hwrite b h
  | writeAll b =>
      have hall := writeAll_keeps hwrite h b
      simp only [perform]
      split
      all_goals
        rename_i heq
        rw [heq] at hall
        exact hall
  | flush =>
      have hflushed := hflush h
      simp only [perform]
      split
      all_goals
        rename_i heq
        rw [heq] at hflushed
        exact hflushed

/-- What every write and flush keeps is kept by all calls. -/
theorem performEach_keeps {holds : τ → Prop} (hwrite : ∀ {t} b, holds t → holds (write t b).2)
    (hflush : ∀ {t}, holds t → holds (flush t).2) {t : τ} (h : holds t) (calls : List Call) :
    holds (performEach t calls).2 := by
  induction calls generalizing t with
  | nil => exact h
  | cons call calls ih => exact ih (perform_keeps hwrite hflush h call)

/-- The sink after those of the calls that are flushes. -/
def flushedBy (t : τ) : List Call → τ
  | [] => t
  | .flush :: calls => flushedBy (flush t).2 calls
  | _ :: calls => flushedBy t calls

end ByteSink

/-- A sealed message holds its tag at least. -/
theorem Crypto.Suite.encrypt_ne_nil (S : Crypto.Suite) (key : Block 32) (nonce : Block 12)
    (message : Bytes) : S.encrypt key nonce message ≠ [] := by
  have hlen := S.length_encrypt key nonce message
  rw [← List.length_pos_iff, hlen]
  exact Nat.add_pos_right _ (by decide)

open ByteSink HoldingSink

/-- Flushes move nothing. -/
theorem HoldingSink.contents_flushedBy {τ : Type} [ByteSink τ] [HoldingSink τ] (t : τ)
    (calls : List Call) : contents (flushedBy t calls) = contents t := by
  induction calls generalizing t with
  | nil => rfl
  | cons call calls ih =>
      cases call with
      | write b => exact ih t
      | writeAll b => exact ih t
      | flush => exact (ih _).trans (contents_flush t)

namespace Logged

variable {τ : Type} [ByteSink τ] [HoldingSink τ]

/-- Flushes are not noted. -/
theorem log_flushedBy (t : Logged τ) (calls : List Call) : (flushedBy t calls).log = t.log := by
  induction calls generalizing t with
  | nil => rfl
  | cons call calls ih =>
      cases call with
      | write b => exact ih t
      | writeAll b => exact ih t
      | flush => exact ih _

/-- A sink that keeps a log is good while it is clear, and then stuck. -/
theorem breaking : Breaking (Clear (τ := τ)) Stuck where
  given := fun b h => writeAll_of_clear h b
  good_flush := fun h => h
  spent_flush := fun h => h

end Logged

namespace PayloadWriter

open Crypto Payload

variable {S : Suite} {τ : Type} [ByteSink τ] {good spent : τ → Prop}

/-- The sink is good, or a chunk was lost and the sink is spent. -/
inductive Bound (good spent : τ → Prop) (w : PayloadWriter S τ) : Prop where
  | working (hfailed : w.failed = false) (hgood : good w.inner) : Bound good spent w
  | lost (hfailed : w.failed = true) (hspent : spent w.inner) : Bound good spent w

namespace Bound

variable {w : PayloadWriter S τ}

/-- A chunk is written in full, or it is lost and the sink is spent. -/
theorem flushChunk (B : Breaking good spent) (h : Bound good spent w) (last : Bool) :
    Bound good spent (w.flushChunk last).2 := by
  rw [flushChunk_eq]
  cases h with
  | lost hfailed hspent =>
      rw [if_pos hfailed]
      exact .lost hfailed hspent
  | working hfailed hgood =>
      have hgiven := B.given (S.encrypt w.key (nonce w.counter last) w.chunk.toList) hgood
      rw [if_neg (by simp [hfailed])]
      generalize writeAll w.inner _ = answered at hgiven ⊢
      cases hgiven with
      | all hu => exact .working hfailed hu
      | failed hu => exact .lost rfl hu

theorem writeFrom (B : Breaking good spent) (h : Bound good spent w) (b : Bytes) (taken : Nat) :
    Bound good spent (w.writeFrom b taken).2 := by
  have hflushed : ∀ {w v : PayloadWriter S τ} {r : Except IoError Unit}, Bound good spent w →
      w.flushChunk false = (r, v) → Bound good spent v := by
    intro w v r hw hflush
    have hv := hw.flushChunk B false
    rwa [hflush] at hv
  have hrounds := w.rounds_writeFrom b taken
  generalize w.writeFrom b taken = r at hrounds ⊢
  induction hrounds with
  | done w taken => exact h
  | flushed _ _ hflush _ ih => exact ih (hflushed h hflush)
  | late _ _ hflush _ => exact hflushed h hflush
  | lost _ _ hflush _ => exact hflushed h hflush
  | filled _ _ _ ih =>
      refine ih ?_
      cases h with
      | working hfailed hgood => exact .working hfailed hgood
      | lost hfailed hspent => exact .lost hfailed hspent

theorem write (B : Breaking good spent) (h : Bound good spent w) (b : Bytes) :
    Bound good spent (ByteSink.write w b).2 := by
  change Bound good spent (PayloadWriter.write w b).2
  rw [write_eq]
  split
  · exact h
  · exact h.writeFrom B b 0

theorem flush (B : Breaking good spent) (h : Bound good spent w) :
    Bound good spent (ByteSink.flush w).2 := by
  cases h with
  | working hfailed hgood => exact .working hfailed (B.good_flush hgood)
  | lost hfailed hspent => exact .lost hfailed (B.spent_flush hspent)

/-- Every run of calls keeps the writer and its sink bound to each other. -/
theorem performEach (B : Breaking good spent) (h : Bound good spent w) (calls : List Call) :
    Bound good spent (ByteSink.performEach w calls).2 :=
  performEach_keeps (fun b hw => hw.write B b) (fun hw => hw.flush B) h calls

/-- Finishing leaves the sink good or spent. -/
theorem finish (B : Breaking good spent) (h : Bound good spent w) :
    good w.finish.2 ∨ spent w.finish.2 := by
  have hlast := h.flushChunk B true
  rw [finish_eq]
  split
  · rename_i v hv
    rw [hv] at hlast
    have hflushed := hlast.flush B
    cases hflushed with
    | working _ hgood => exact .inl hgood
    | lost _ hspent => exact .inr hspent
  · rename_i e v hv
    rw [hv] at hlast
    cases hlast with
    | working _ hgood => exact .inl hgood
    | lost _ hspent => exact .inr hspent

end Bound

/-! ## Calls after a loss -/

/-- What a call on a writer that has lost a chunk answers, where `t` is the sink below. -/
def answerLost (t : τ) : Call → Except IoError Nat
  | .write _ => .error (.payload .writerFailed)
  -- To write all of nothing asks nothing of the writer.
  | .writeAll b => if b = [] then .ok 0 else .error (.payload .writerFailed)
  | .flush => (perform t .flush).1

theorem write_of_failed {w : PayloadWriter S τ} (hfailed : w.failed = true) (b : Bytes) :
    ByteSink.write w b = (.error (.payload .writerFailed), w) := by
  change PayloadWriter.write w b = _
  rw [write_eq, if_pos hfailed]

theorem finish_of_failed {w : PayloadWriter S τ} (hfailed : w.failed = true) :
    w.finish = (.error (.payload .writerFailed), w.inner) := by
  simp only [finish_eq, flushChunk_eq, hfailed, if_true]

/-- One call on a writer that has lost a chunk. -/
theorem perform_of_failed {w : PayloadWriter S τ} (hfailed : w.failed = true) (call : Call) :
    perform w call = (answerLost w.inner call, { w with inner := flushedBy w.inner [call] }) := by
  cases call with
  | write b => exact write_of_failed hfailed b
  | writeAll b =>
      by_cases hnil : b = []
      · have hall : ByteSink.writeAll w b = (.ok (), w) := by
          rw [ByteSink.writeAll, if_pos hnil]
        rw [perform, hall, answerLost, if_pos hnil, hnil]
        rfl
      · have hall : ByteSink.writeAll w b = (.error (.payload .writerFailed), w) :=
          writeAll_of_error hnil (write_of_failed hfailed b)
        rw [perform, hall, answerLost, if_neg hnil]
        rfl
  | flush =>
      have hflush : ByteSink.flush w =
          ((ByteSink.flush w.inner).1, { w with inner := (ByteSink.flush w.inner).2 }) := rfl
      simp only [perform, answerLost, flushedBy, hflush]
      rcases ByteSink.flush w.inner with ⟨_ | u, t⟩ <;> rfl

/-- Once a chunk was lost, only flushes reach the sink. -/
theorem performEach_of_failed {w : PayloadWriter S τ} (hfailed : w.failed = true)
    (later : List Call) :
    (performEach w later).2 = { w with inner := flushedBy w.inner later } ∧
      ∀ i call, later[i]? = some call →
        (performEach w later).1[i]? = some (answerLost (flushedBy w.inner (later.take i)) call) := by
  induction later generalizing w with
  | nil => exact ⟨rfl, fun i call h => by simp at h⟩
  | cons first later ih =>
      have hafter : ∀ calls, flushedBy (flushedBy w.inner [first]) calls =
          flushedBy w.inner (first :: calls) := by
        intro calls
        cases first <;> rfl
      rcases ih (w := { w with inner := flushedBy w.inner [first] }) hfailed with ⟨hstate, hanswers⟩
      simp only [performEach, perform_of_failed hfailed]
      refine ⟨?_, ?_⟩
      · rw [hstate, hafter]
      · intro i call hcall
        cases i with
        | zero =>
            cases hcall
            rfl
        | succ i =>
            have hi := hanswers i call hcall
            rw [hafter] at hi
            exact hi

omit [ByteSink τ] in
theorem bound_start (sink : τ) (key : Block 32) (h : good sink) :
    Bound good spent (start S key sink) :=
  .working rfl h

/-- Once a write of sealed bytes has been refused, each later write fails as it should, of whatever
bytes and whether or not the sink has recovered, and so does finishing; nothing is offered to the
sink any more, and it holds what it held.

A flush is passed on to the sink all the same, and answers what the sink answers to it. -/
theorem calls_after_refusal [HoldingSink τ] (sink : τ) (key : Block 32) {calls : List Call}
    (hrefused : ∃ entry ∈ (performEach (start S key (Logged.start sink)) calls).2.inner.log,
      Refused entry.answer) (later : List Call) :
    let w := (performEach (start S key (Logged.start sink)) calls).2
    let after := performEach w later
    (∀ i call, later[i]? = some call →
        after.1[i]? = some (answerLost (flushedBy w.inner (later.take i)) call)) ∧
      after.2 = { w with inner := flushedBy w.inner later } ∧
      after.2.inner.log = w.inner.log ∧
      contents after.2.inner = contents w.inner ∧
      after.2.finish = (.error (.payload .writerFailed), after.2.inner) := by
  intro w after
  have hclear : (Logged.start sink).Clear := fun entry hmem => by cases hmem
  have hbound : Bound Logged.Clear Logged.Stuck w :=
    (bound_start _ key hclear).performEach Logged.breaking calls
  have hfailed : w.failed = true := by
    cases hbound with
    | lost hfailed _ => exact hfailed
    | working _ hclear =>
        rcases hrefused with ⟨entry, hmem, hentry⟩
        exact absurd hentry (hclear entry hmem)
  rcases performEach_of_failed hfailed later with ⟨hstate, hanswers⟩
  refine ⟨hanswers, hstate, ?_, ?_, ?_⟩
  · rw [hstate]
    exact Logged.log_flushedBy _ _
  · rw [hstate]
    exact contents_flushedBy _ _
  · refine finish_of_failed ?_
    rw [hstate]
    exact hfailed

/-- The first chunk of a payload is lost in a write that holds more than it.  The bytes of the chunk
are reported as taken all the same. -/
theorem write_of_first_lost {sink t : τ} {key : Block 32} {b : Bytes} {e : IoError}
    (hmore : chunkSize < b.length)
    (h : writeAll sink (S.encrypt key (nonce 0 false) (b.take chunkSize)) = (.error e, t)) :
    ByteSink.write (start S key sink) b =
      (.ok chunkSize,
        { start S key t with chunk := (#[] : Array UInt8) ++ b.take chunkSize, failed := true }) := by
  change (start S key sink).performed (({ inner := sink } : Draft τ).write b) = _
  have hanswer : writeAll sink (S.sealing key ⟨nonce 0 false, b.take chunkSize⟩) = (.error e, t) := h
  rw [Draft.write_of_more sink hmore, performed, start, Asking.run_ask, hanswer]
  rfl

/-- A sink that refuses one write and then takes everything. -/
def recoveringSink : ScriptedSink where
  faults := [(0, .fails (.device .other "full"))]

def overlong : Bytes :=
  List.replicate 65537 8

theorem lt_length_overlong : chunkSize < overlong.length := by
  rw [overlong, List.length_replicate, chunkSize]
  omega

theorem drop_overlong : overlong.drop chunkSize = [8] := by
  rw [overlong, List.drop_replicate, chunkSize]
  rfl

/-- The first chunk of a payload is lost on it. -/
theorem write_recoveringSink (key : Block 32) {b : Bytes} (hmore : chunkSize < b.length) :
    ByteSink.write (start S key (Logged.start recoveringSink)) b =
      (.ok chunkSize,
        { start S key
            ({ inner := {}, log := [⟨.error (.device .other "full"), []⟩] } : Logged _) with
          chunk := (#[] : Array UInt8) ++ b.take chunkSize, failed := true }) := by
  refine write_of_first_lost (e := .device .other "full") hmore ?_
  have hfirst : ByteSink.write (Logged.start recoveringSink)
      (S.encrypt key (nonce 0 false) (b.take chunkSize)) =
      (.error (.device .other "full"),
        { inner := {}, log := [⟨.error (.device .other "full"), []⟩] }) := rfl
  exact writeAll_of_error (Suite.encrypt_ne_nil _ _ _ _) hfirst

/-- A chunk is lost in a write; then the sink has recovered, and a flush succeeds on it. -/
theorem calls_after_refusal_recovered :
    let w := (performEach (start .transparent (Block.zeros 32) (Logged.start recoveringSink))
      [.write overlong]).2
    let after := performEach w [.flush, .write [], .write [1]]
    (∃ entry ∈ w.inner.log, Refused entry.answer) ∧
      after.1[0]? = some (.ok 0) ∧
      after.1[1]? = some (.error (.payload .writerFailed)) ∧
      after.1[2]? = some (.error (.payload .writerFailed)) ∧
      after.2.finish.1 = .error (.payload .writerFailed) := by
  have hw : (performEach (start .transparent (Block.zeros 32) (Logged.start recoveringSink))
      [.write overlong]).2.inner =
      { inner := {}, log := [⟨.error (.device .other "full"), []⟩] } := by
    simp only [performEach, perform,
      write_recoveringSink (S := .transparent) (Block.zeros 32) lt_length_overlong]
    rfl
  have hlog : ∃ entry ∈ (performEach (start .transparent (Block.zeros 32)
      (Logged.start recoveringSink)) [.write overlong]).2.inner.log, Refused entry.answer := by
    rw [hw]
    exact ⟨_, List.mem_singleton_self _, rfl⟩
  rcases calls_after_refusal recoveringSink (Block.zeros 32) hlog [.flush, .write [], .write [1]]
    with ⟨hanswers, -, -, -, hfinish⟩
  intro w after
  refine ⟨hlog, ?_, hanswers 1 _ rfl, hanswers 2 _ rfl, congrArg Prod.fst hfinish⟩
  refine (hanswers 0 .flush rfl).trans ?_
  simp only [List.take_zero, flushedBy, hw]
  rfl

end PayloadWriter
end AgeCrypt
