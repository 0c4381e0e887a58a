import AgeCrypt.File.Encryptor
import AgeCrypt.Proofs.Armor.Writing
import AgeCrypt.Proofs.Io.Watching

/-!
# Writing a file to a watched sink

The writers do nothing to the sink below them but write to it and flush it, so they take a `SinkMap`
of the sinks below to one of their own.  It follows that a run over a watched sink is the run over
the sink itself (`Encryptor.writeFile_map`, `Encryptor.writeArmored_map`).
-/

namespace AgeCrypt

open ByteSink Crypto

section

variable {S : Suite} {υ τ : Type} [ByteSink υ] [ByteSink τ] {f : υ → τ}

/-! ## Armor -/

namespace ArmorWriter

open Armor

def mapInner (f : υ → τ) (w : ArmorWriter υ) : ArmorWriter τ :=
  { inner := f w.inner, pending := w.pending }

theorem start_map (F : SinkMap f) (sink : υ) :
    start (f sink) = match start sink with
      | .ok w => .ok (w.mapInner f)
      | .error (e, t) => .error (e, f t) := by
  rw [start, start, F.writeEach]
  rcases writeEach sink [beginMarker, [Ascii.newline]] with ⟨_ | u, t⟩ <;> rfl

variable [Base64]

/-- Lines that are due are written in the same way under any view of the sink. -/
theorem drain_map (F : SinkMap f) (w : ArmorWriter υ) :
    (w.mapInner f).drain = (w.drain.1, w.drain.2.mapInner f) := by
  fun_induction drain w with
  | case1 w hshort =>
      rw [drain]
      exact dif_pos hshort
  | case2 w hfull t hw ih =>
      have himage : writeAll (f w.inner) (dataLine (w.pending.take bytesPerLine)) =
          (.ok (), f t) := by
        rw [F.writeAll, hw]
      rw [drain, ← ih]
      simp only [mapInner, dif_neg hfull, himage]
  | case3 w hfull e t hw =>
      have himage : writeAll (f w.inner) (dataLine (w.pending.take bytesPerLine)) =
          (.error e, f t) := by
        rw [F.writeAll, hw]
      rw [drain]
      simp only [mapInner, dif_neg hfull, himage]

theorem sinkMap (F : SinkMap f) : SinkMap (mapInner f) where
  write_eq := by
    intro w b
    change ArmorWriter.write _ _ = ((ArmorWriter.write w b).1, (ArmorWriter.write w b).2.mapInner f)
    have hdrain := drain_map F { w with pending := w.pending ++ b }
    simp only [ArmorWriter.write]
    simp only [mapInner] at hdrain ⊢
    rw [hdrain]
    rcases drain { w with pending := w.pending ++ b } with ⟨_ | u, v⟩ <;> rfl
  flush_eq := by
    intro w
    change ArmorWriter.flush _ = ((ArmorWriter.flush w).1, (ArmorWriter.flush w).2.mapInner f)
    simp only [ArmorWriter.flush, mapInner, F.flush_eq]

theorem finish_map (F : SinkMap f) (w : ArmorWriter υ) :
    (w.mapInner f).finish = (w.finish.1, f w.finish.2) := by
  unfold ArmorWriter.finish mapInner
  dsimp only
  rw [F.writeEach]
  rcases writeEach w.inner
    ((if w.pending = [] then [] else [dataLine w.pending]) ++ [endMarker, [Ascii.newline]]) with
    ⟨_ | u, t⟩
  · rfl
  · exact F.flush_eq t

end ArmorWriter

/-! ## Payload -/

namespace PayloadWriter

open Payload

def mapInner (f : υ → τ) (w : PayloadWriter S υ) : PayloadWriter S τ :=
  { inner := f w.inner, key := w.key, counter := w.counter, chunk := w.chunk, failed := w.failed }

/-- A chunk is sealed and written in the same way under any view of the sink. -/
theorem flushChunk_map (F : SinkMap f) (w : PayloadWriter S υ) (last : Bool) :
    (w.mapInner f).flushChunk last = ((w.flushChunk last).1, (w.flushChunk last).2.mapInner f) := by
  simp only [flushChunk_eq, mapInner, F.writeAll]
  split
  · rfl
  · rcases writeAll w.inner _ with ⟨_ | u, t⟩ <;> rfl

/-- The same rounds are made over the image of a sink. -/
theorem Rounds.map (F : SinkMap f) {w : PayloadWriter S υ} {b : Bytes} {taken : Nat}
    {r : Except IoError Nat × PayloadWriter S υ} (h : Rounds w b taken r) :
    Rounds (w.mapInner f) b taken (r.1, r.2.mapInner f) := by
  have himage : ∀ {w v : PayloadWriter S υ} {r : Except IoError Unit},
      w.flushChunk false = (r, v) → (w.mapInner f).flushChunk false = (r, v.mapInner f) := by
    intro w v r h
    rw [flushChunk_map F, h]
  induction h with
  | done w taken => exact .done _ _
  | flushed hne hfull hflush _ ih => exact .flushed hne hfull (himage hflush) ih
  | late hne hfull hflush htaken => exact .late hne hfull (himage hflush) htaken
  | lost hne hfull hflush htaken => exact .lost hne hfull (himage hflush) htaken
  | filled hne hroom _ ih => exact .filled hne hroom ih

/-- The rounds of a write are the same under any view of the sink. -/
theorem writeFrom_map (F : SinkMap f) (w : PayloadWriter S υ) (b : Bytes) (taken : Nat) :
    (w.mapInner f).writeFrom b taken =
      ((w.writeFrom b taken).1, (w.writeFrom b taken).2.mapInner f) :=
  ((w.mapInner f).rounds_writeFrom b taken).unique ((w.rounds_writeFrom b taken).map F)

theorem sinkMap (F : SinkMap f) : SinkMap (mapInner (S := S) f) where
  write_eq := by
    intro w b
    change PayloadWriter.write _ _ =
      ((PayloadWriter.write w b).1, (PayloadWriter.write w b).2.mapInner f)
    rw [PayloadWriter.write_eq, PayloadWriter.write_eq, writeFrom_map F]
    by_cases hfailed : w.failed = true
    · rw [if_pos hfailed]
      exact if_pos hfailed
    · rw [if_neg hfailed]
      exact if_neg hfailed
  flush_eq := by
    intro w
    change PayloadWriter.flush _ =
      ((PayloadWriter.flush w).1, (PayloadWriter.flush w).2.mapInner f)
    simp only [PayloadWriter.flush_eq, mapInner, F.flush_eq]

theorem finish_map (F : SinkMap f) (w : PayloadWriter S υ) :
    (w.mapInner f).finish = (w.finish.1, f w.finish.2) := by
  rw [finish_eq, finish_eq, flushChunk_map F]
  rcases w.flushChunk true with ⟨_ | u, v⟩
  · rfl
  · exact F.flush_eq v.inner

end PayloadWriter

/-! ## Files -/

namespace Encryptor

theorem writePayload_map (F : SinkMap f) (w : PayloadWriter S υ) (pieces : List Bytes) :
    writePayload (w.mapInner f) pieces =
      ((writePayload w pieces).1, f (writePayload w pieces).2) := by
  rw [writePayload, writePayload, (PayloadWriter.sinkMap F).writeEach]
  rcases writeEach w pieces with ⟨_ | u, v⟩
  · rfl
  · dsimp only
    rw [PayloadWriter.finish_map F]
    rcases v.finish with ⟨_ | u, t⟩ <;> rfl

variable [Base64]

theorem start_map (F : SinkMap f) (e : Encryptor) (sink : υ) (tape : Tape) :
    e.start S (f sink) tape = match e.start S sink tape with
      | .ok w => .ok (w.mapInner f)
      | .error (cause, t) => .error (cause, f t) := by
  simp only [Encryptor.start]
  rcases e.header S (FileKey.generate tape).1 (FileKey.generate tape).2 with cause | ⟨header, tape⟩
  · rfl
  · dsimp only
    rw [F.writeAll]
    rcases writeAll sink header.encode with ⟨_ | u, t⟩
    · rfl
    · dsimp only
      rw [F.writeAll]
      rcases writeAll t _ with ⟨_ | u, t⟩ <;> rfl

/-- A whole file is written in the same way under any view of the sink. -/
theorem writeFile_map (F : SinkMap f) (e : Encryptor) (sink : υ) (tape : Tape)
    (pieces : List Bytes) :
    e.writeFile S (f sink) tape pieces =
      ((e.writeFile S sink tape pieces).1, f (e.writeFile S sink tape pieces).2) := by
  rw [writeFile, writeFile, start_map F]
  rcases e.start S sink tape with ⟨cause, t⟩ | w
  · rfl
  · exact writePayload_map F w pieces

/-- So is one in armor. -/
theorem writeArmored_map (F : SinkMap f) (e : Encryptor) (sink : υ) (tape : Tape)
    (pieces : List Bytes) :
    e.writeArmored S (f sink) tape pieces =
      ((e.writeArmored S sink tape pieces).1, f (e.writeArmored S sink tape pieces).2) := by
  rw [writeArmored, writeArmored, ArmorWriter.start_map F]
  rcases ArmorWriter.start sink with ⟨cause, t⟩ | armor
  · rfl
  · dsimp only
    rw [writeFile_map (ArmorWriter.sinkMap F)]
    rcases e.writeFile S armor tape pieces with ⟨_ | u, armor⟩
    · rfl
    · dsimp only
      rw [ArmorWriter.finish_map F]
      rcases armor.finish with ⟨_ | u, t⟩ <;> rfl

end Encryptor

end

end AgeCrypt
