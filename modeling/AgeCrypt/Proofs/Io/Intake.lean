import AgeCrypt.Proofs.Io.Collection

/-!
# Intake

What sinks that may fail make of the bytes they are to be given.  The counterpart of delivery: for
sinks of one type, `awaits t rest` says that all has gone well so far and that `rest` is what `t` is
still to be given, and `safe t` says what is left of that once something has gone wrong.  An
`Intake` is a pair of such properties that writes and flushes respect; where no flush comes in
between, those of writes are enough (`Taking`).

The loops over a sink respect it as well (`Taking.writeAll`, `Taking.writeEach`), and so do sinks
over a sink, so what holds of the lowest sink is carried up through every layer above it.  The
lowest one is a holding sink: what it holds is a prefix of what it is to hold in the end
(`HoldingSink.intake`).

Nothing is said about the sizes of writes, about the offsets of errors, or about what a sink does
after one.
-/

namespace AgeCrypt
namespace ByteSink

variable {τ : Type} [ByteSink τ]

/-- What a sink that is still to be given `b ++ more` answers when `b` is offered. -/
inductive Offered (awaits : τ → Bytes → Prop) (safe : τ → Prop) (b more : Bytes) :
    Except IoError Nat × τ → Prop where
  | taken {n : Nat} {u : τ} (hu : awaits u (b.drop n ++ more)) :
      Offered awaits safe b more (.ok n, u)
  -- An interruption, which changes nothing.
  | pause {e : IoError} {u : τ} (he : e.isInterrupted = true) (hu : awaits u (b ++ more)) :
      Offered awaits safe b more (.error e, u)
  | fault {e : IoError} {u : τ} (he : e.isInterrupted = false) (hu : safe u) :
      Offered awaits safe b more (.error e, u)

/-- How a sink stands after it was given bytes, when `more` is to follow. -/
inductive Given {ε : Type} (awaits : τ → Bytes → Prop) (safe : τ → Prop) (more : Bytes) :
    Except ε Unit × τ → Prop where
  | all {u : τ} (hu : awaits u more) : Given awaits safe more (.ok (), u)
  | failed {e : ε} {u : τ} (hu : safe u) : Given awaits safe more (.error e, u)

/-- Writes respect what sinks await, and leave them safe when they fail. -/
structure Taking (awaits : τ → Bytes → Prop) (safe : τ → Prop) : Prop where
  safe_of_awaits : ∀ {t rest}, awaits t rest → safe t
  offered : ∀ {t b more}, awaits t (b ++ more) → Offered awaits safe b more (write t b)

/-- Writes and flushes respect what sinks await, and leave them safe when they fail. -/
structure Intake (awaits : τ → Bytes → Prop) (safe : τ → Prop) : Prop
    extends Taking awaits safe where
  -- A flush moves nothing, whether it succeeds or not.
  awaits_flush : ∀ {t rest}, awaits t rest → awaits (flush t).2 rest
  safe_flush : ∀ {t}, safe t → safe (flush t).2

namespace Given

variable {ε : Type} {awaits : τ → Bytes → Prop} {safe : τ → Prop} {more : Bytes} {u : τ}

omit [ByteSink τ] in
theorem of_ok (h : Given (ε := ε) awaits safe more (.ok (), u)) : awaits u more := by
  cases h with
  | all hu => exact hu

omit [ByteSink τ] in
theorem of_fst_ok {answered : Except ε Unit × τ} (h : Given awaits safe more answered)
    (hok : answered.1 = .ok ()) : awaits answered.2 more := by
  cases h with
  | all hu => exact hu
  | failed _ => cases hok

omit [ByteSink τ] in
theorem of_error {e : ε} (h : Given awaits safe more (.error e, u)) : safe u := by
  cases h with
  | failed hu => exact hu

end Given

namespace Taking

variable {awaits : τ → Bytes → Prop} {safe : τ → Prop}

/-- A sink that was given bytes is safe, whether or not it took them all. -/
theorem safe_of_given {ε : Type} (I : Taking awaits safe) {more : Bytes}
    {answered : Except ε Unit × τ} (h : Given awaits safe more answered) : safe answered.2 := by
  cases h with
  | all hu => exact I.safe_of_awaits hu
  | failed hu => exact hu

/-- Writing all of `b` gives the sink `b`, or fails and leaves it safe. -/
theorem writeAll (I : Taking awaits safe) {t : τ} {b more : Bytes} (h : awaits t (b ++ more)) :
    Given awaits safe more (ByteSink.writeAll t b) := by
  fun_induction ByteSink.writeAll t b with
  | case1 t =>
      exact .all h
  | case2 t b hne u hw =>
      -- nothing was taken, which is an error but changes nothing
      have hoffered := I.offered h
      rw [hw] at hoffered
      cases hoffered with
      | taken hu => exact .failed (I.safe_of_awaits hu)
  | case3 t b hne n u hw ih =>
      have hoffered := I.offered h
      rw [hw] at hoffered
      cases hoffered with
      | taken hu => exact ih hu
  | case4 t b hne e u hw hi ih =>
      have hoffered := I.offered h
      rw [hw] at hoffered
      cases hoffered with
      | pause _ hu => exact ih hu
      | fault he _ => cases hi.symm.trans he
  | case5 t b hne e u hw hi =>
      have hoffered := I.offered h
      rw [hw] at hoffered
      cases hoffered with
      | pause he _ => exact absurd he hi
      | fault _ hu => exact .failed hu

/-- Pieces are given one after another, as if they were one. -/
theorem writeEach (I : Taking awaits safe) {t : τ} {pieces : List Bytes} {more : Bytes}
    (h : awaits t (pieces.flatten ++ more)) :
    Given awaits safe more (ByteSink.writeEach t pieces) := by
  induction pieces generalizing t with
  | nil => exact .all h
  | cons piece pieces ih =>
      rw [List.flatten_cons, List.append_assoc] at h
      have hpiece := I.writeAll h
      rw [ByteSink.writeEach]
      generalize ByteSink.writeAll t piece = answered at hpiece ⊢
      cases hpiece with
      | all hu => exact ih hu
      | failed hu => exact .failed hu

end Taking

/-- A flush at the end of all that is given. -/
theorem Intake.flush {awaits : τ → Bytes → Prop} {safe : τ → Prop} (I : Intake awaits safe) {t : τ}
    {more : Bytes} (h : awaits t more) : Given awaits safe more (ByteSink.flush t) := by
  have hflushed := I.awaits_flush h
  generalize ByteSink.flush t = answered at hflushed ⊢
  rcases answered with ⟨_ | u, t⟩
  · exact .failed (I.safe_of_awaits hflushed)
  · exact .all hflushed

end ByteSink

/-! ## Holding sinks -/

namespace HoldingSink

open ByteSink

variable {τ : Type} [ByteSink τ] [HoldingSink τ]

/-- A holding sink that is to hold `whole` in the end awaits what is missing, and is safe as long as
it holds a prefix. -/
theorem intake (whole : Bytes) :
    Intake (fun (t : τ) rest => contents t ++ rest = whole) (fun t => contents t <+: whole) where
  safe_of_awaits := fun {t rest} h => ⟨rest, h⟩
  offered := by
    intro t b more h
    cases hw : write t b with
    | mk answered u =>
        cases answered with
        | ok n =>
            refine .taken ?_
            rw [contents_of_ok hw, List.append_assoc, ← List.append_assoc (b.take n),
              List.take_append_drop]
            exact h
        | error e =>
            have hu : contents u ++ (b ++ more) = whole := by
              rw [contents_of_error hw]
              exact h
            cases hi : e.isInterrupted with
            | true => exact .pause hi hu
            | false => exact .fault hi ⟨b ++ more, hu⟩
  awaits_flush := by
    intro t rest h
    rw [contents_flush]
    exact h
  safe_flush := by
    intro t h
    rw [contents_flush]
    exact h

/-- Pieces that are written in full are added. -/
theorem contents_of_writeEach {t u : τ} {pieces : List Bytes}
    (h : writeEach t pieces = (.ok (), u)) : contents u = contents t ++ pieces.flatten := by
  have hawaits : contents t ++ (pieces.flatten ++ []) = contents t ++ pieces.flatten := by
    rw [List.append_nil]
  have hgiven := (intake (contents t ++ pieces.flatten)).writeEach hawaits
  rw [h] at hgiven
  simpa only [List.append_nil] using hgiven.of_ok

/-- What was written in full is held. -/
theorem contents_of_writeAll {t u : τ} {b : Bytes} (h : writeAll t b = (.ok (), u)) :
    contents u = contents t ++ b := by
  have heach : writeEach t [b] = (.ok (), u) := by
    simp only [writeEach, h]
  simpa only [List.flatten_singleton] using contents_of_writeEach heach

/-- If not all of a byte string can be written, the sink has taken a proper beginning of it. -/
theorem contents_of_writeAll_error {t u : τ} {b : Bytes} {e : IoError}
    (h : writeAll t b = (.error e, u)) :
    ∃ taken, taken <+: b ∧ taken ≠ b ∧ contents u = contents t ++ taken := by
  fun_induction writeAll t b with
  | case1 t => cases h
  | case2 t b hne v hw =>
      cases h
      exact ⟨[], List.nil_prefix, Ne.symm hne, contents_of_ok hw⟩
  | case3 t b hne n v hw ih =>
      rcases ih h with ⟨taken, htaken, hpart, hu⟩
      refine ⟨b.take (n + 1) ++ taken, ?_, fun hall => hpart ?_, ?_⟩
      · have hwhole := (List.prefix_append_right_inj (b.take (n + 1))).2 htaken
        rwa [List.take_append_drop] at hwhole
      · exact List.append_cancel_left (hall.trans (List.take_append_drop (n + 1) b).symm)
      · rw [hu, contents_of_ok hw, List.append_assoc]
  | case4 t b hne e' v hw hi ih =>
      rcases ih h with ⟨taken, htaken, hpart, hu⟩
      exact ⟨taken, htaken, hpart, by rw [hu, contents_of_error hw]⟩
  | case5 t b hne e' v hw hi =>
      cases h
      exact ⟨[], List.nil_prefix, Ne.symm hne, by rw [contents_of_error hw, List.append_nil]⟩

end HoldingSink
end AgeCrypt
