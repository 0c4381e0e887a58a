import AgeCrypt.Armor.Reader
import AgeCrypt.Payload.Writer
import AgeCrypt.Proofs.Armor.Acceptance
import AgeCrypt.Proofs.Bounds.Guarded
import AgeCrypt.Proofs.Payload.Opening

/-!
# The bounds of the streams

The payload writer never holds back more than a chunk, and neither reader has handed out more than
it has decoded: that is kept by every call, failed ones too (`PayloadWriter.size_chunk_write_le`,
`PayloadReader.bounded_read`, `ArmorReader.bounded_read`).  As long as it holds, all that these
calls subtract, cut or copy is in range: written with guarded operations, they give the same
(`PayloadWriter.writeGuarded_eq`, `PayloadReader.readGuarded_eq`, `ArmorReader.readGuarded_eq`).
The armor writer needs nothing to hold (`ArmorWriter.writeGuarded_eq`).
-/

namespace AgeCrypt

open Crypto Guarded

/-! ## Payload output -/

namespace PayloadWriter

open ByteSink Payload

variable {S : Suite} {τ : Type} [ByteSink τ]

def writeFromGuarded : (rounds : Nat) → (w : PayloadWriter S τ) → (b : Bytes) → (taken : Nat) →
    Option (Except IoError Nat × PayloadWriter S τ)
  | 0, _, _, _ => none
  | rounds + 1, w, b, taken =>
      if b = [] then
        some (.ok taken, w)
      else
        match (if w.chunk.size = chunkSize then w.flushChunk false else (.ok (), w)) with
        | (.error e, v) => some (if 0 < taken then .ok taken else .error e, v)
        | (.ok (), v) => do
            let room ← minus chunkSize v.chunk.size
            let n := min b.length room
            let piece ← upTo b n
            let rest ← behind b n
            writeFromGuarded rounds { v with chunk := v.chunk ++ piece } rest (taken + n)

def writeGuarded (w : PayloadWriter S τ) (b : Bytes) :
    Option (Except IoError Nat × PayloadWriter S τ) :=
  if w.failed then
    some (.error (.payload .writerFailed), w)
  else
    writeFromGuarded (b.length + 1) w b 0

/-- Sealing never makes the chunk held back longer. -/
theorem size_chunk_flushChunk_le (w : PayloadWriter S τ) (last : Bool) :
    (w.flushChunk last).2.chunk.size ≤ w.chunk.size := by
  rw [flushChunk_eq]
  split
  · exact Nat.le_refl _
  · split
    · exact Nat.zero_le _
    · exact Nat.le_refl _

/-- A write holds back no more than a chunk, even where it fails half way. -/
theorem size_chunk_writeFrom_le {w : PayloadWriter S τ} (hw : w.chunk.size ≤ chunkSize) (b : Bytes)
    (taken : Nat) : (w.writeFrom b taken).2.chunk.size ≤ chunkSize := by
  have hflushed : ∀ {w v : PayloadWriter S τ} {r : Except IoError Unit},
      w.chunk.size ≤ chunkSize → w.flushChunk false = (r, v) → v.chunk.size ≤ chunkSize := by
    intro w v r hw hf
    have hsize := w.size_chunk_flushChunk_le false
    rw [hf] at hsize
    exact Nat.le_trans hsize hw
  have hrounds := w.rounds_writeFrom b taken
  generalize w.writeFrom b taken = r at hrounds ⊢
  induction hrounds with
  | done w taken => exact hw
  | flushed _ _ hflush _ ih => exact ih (hflushed hw hflush)
  | late _ _ hflush _ => exact hflushed hw hflush
  | lost _ _ hflush _ => exact hflushed hw hflush
  | filled _ hroom _ ih =>
      refine ih ?_
      simp only [Bytes.size_append, List.length_take]
      omega

/-- No more than a chunk is held back, whatever becomes of a write. -/
theorem size_chunk_write_le {w : PayloadWriter S τ} (hw : w.chunk.size ≤ chunkSize) (b : Bytes) :
    (w.write b).2.chunk.size ≤ chunkSize := by
  rw [write_eq]
  split
  · exact hw
  · exact size_chunk_writeFrom_le hw b 0

/-- Each round takes a byte at least, so there are no more rounds than bytes. -/
theorem writeFromGuarded_eq {w : PayloadWriter S τ} (hw : w.chunk.size ≤ chunkSize) (b : Bytes)
    (taken : Nat) {rounds : Nat} (hrounds : b.length < rounds) :
    writeFromGuarded rounds w b taken = some (w.writeFrom b taken) := by
  obtain ⟨rounds, rfl⟩ := Nat.exists_eq_add_one.2 (Nat.zero_lt_of_lt hrounds)
  have hrun := w.rounds_writeFrom b taken
  generalize w.writeFrom b taken = r at hrun ⊢
  induction hrun generalizing rounds with
  | done w taken => rw [writeFromGuarded, if_pos rfl]
  | @flushed w v b taken r hb hc hf _ ih =>
      -- both go on with an empty chunk, one of them in a call of its own
      have hfull : w.chunk.size = chunkSize := Nat.le_antisymm hw hc
      have hempty : v.chunk.size = 0 := congrArg Array.size (chunk_of_flushChunk hf)
      have hroom : v.chunk.size ≠ chunkSize := by
        rw [hempty]
        decide
      have hagain : writeFromGuarded (rounds + 1) w b taken =
          writeFromGuarded (rounds + 1) v b taken := by
        rw [writeFromGuarded, writeFromGuarded, if_neg hb, if_neg hb, if_pos hfull, if_neg hroom, hf]
      rw [hagain]
      exact ih (hempty ▸ Nat.zero_le _) rounds hrounds
  | @late w v b taken e hb hc hf htaken =>
      rw [writeFromGuarded, if_neg hb, if_pos (Nat.le_antisymm hw hc), hf]
      simp only [if_pos htaken]
  | @lost w v b taken e hb hc hf htaken =>
      rw [writeFromGuarded, if_neg hb, if_pos (Nat.le_antisymm hw hc), hf]
      simp only [if_neg htaken]
  | @filled w b taken r hb hc _ ih =>
      let room := chunkSize - w.chunk.size
      let piece := b.take room
      have hlen : min b.length room = piece.length := by
        rw [List.length_take, Nat.min_comm]
      have hpiece : b.take (min b.length room) = piece := by
        rw [Nat.min_comm]
        exact List.take_eq_take_min.symm
      have hrest : b.drop (min b.length room) = b.drop room := by
        rcases Nat.le_total b.length room with hle | hle
        · rw [Nat.min_eq_left hle, List.drop_length, List.drop_of_length_le hle]
        · rw [Nat.min_eq_right hle]
      have hfits : (w.chunk ++ piece).size ≤ chunkSize := by
        simp only [Bytes.size_append, piece, room, List.length_take]
        omega
      -- there is room, so a round takes something
      have hless : (b.drop room).length < rounds := by
        have hpos : 0 < b.length := List.length_pos_iff.2 hb
        rw [List.length_drop]
        omega
      obtain ⟨rounds, rfl⟩ : ∃ k, rounds = k + 1 :=
        Nat.exists_eq_add_one.2 (Nat.zero_lt_of_lt hless)
      rw [writeFromGuarded, if_neg hb, if_neg fun hfull => hc (Nat.le_of_eq hfull.symm)]
      simp only [minus_of_le hw, Option.bind_eq_bind, Option.bind_some,
        upTo_of_le (Nat.min_le_left ..), behind_of_le (Nat.min_le_left ..)]
      rw [hpiece, hrest, hlen]
      exact ih hfits rounds hless

theorem writeGuarded_eq {w : PayloadWriter S τ} (hw : w.chunk.size ≤ chunkSize) (b : Bytes) :
    w.writeGuarded b = some (w.write b) := by
  rw [writeGuarded, write_eq]
  split
  · rfl
  · exact writeFromGuarded_eq hw b 0 (Nat.lt_add_one _)

theorem calls_in_range (key : Block 32) (sink : τ) (calls : List Call) :
    (performEach (start S key sink) calls).2.chunk.size ≤ chunkSize ∧
      performEachGuarded writeGuarded (start S key sink) calls =
        some (performEach (start S key sink) calls) := by
  let inv : PayloadWriter S τ → Prop := fun w => w.chunk.size ≤ chunkSize
  have hstart : inv (start S key sink) := Nat.zero_le _
  have hkeeps : ∀ {w : PayloadWriter S τ}, inv w → ∀ b, inv (ByteSink.write w b).2 :=
    size_chunk_write_le
  have hflush : ∀ {w : PayloadWriter S τ}, inv w → inv (ByteSink.flush w).2 := fun hw => hw
  exact ⟨keeps_performEach inv hkeeps hflush hstart calls,
    performEachGuarded_eq inv hkeeps hflush writeGuarded_eq hstart calls⟩

end PayloadWriter

/-! ## Payload input -/

namespace PayloadReader

open ByteSource Payload

variable {S : Suite} {σ : Type} [ByteSource σ]

/-- Read the next chunk into a buffer of `sealedSize` bytes and open the part that was filled. -/
def nextChunkGuarded (r : PayloadReader S σ) : Option (Except IoError Unit × PayloadReader S σ) := do
  match ← readFullGuarded r.inner sealedSize with
  | (.error e, s) => some (.error e, { r with inner := s })
  | (.ok chunk, s) =>
      let r := { r with inner := s }
      if chunk.size = 0 then
        some (r.fail .truncated)
      else if chunk.size = tagSize ∧ r.counter ≠ 0 then
        some (r.fail .lastChunkEmpty)
      else do
        guard (chunk.size ≤ sealedSize)
        match openChunk S r.key r.counter chunk.toList with
        | none => some (r.fail .unauthentic)
        | some (plaintext, false) =>
            some (.ok (), { r with counter := r.counter + 1, window := .ofBytes plaintext })
        | some (plaintext, true) =>
            match ← readFullGuarded r.inner 1 with
            | (.error e, s) => some (.error e, { r with inner := s })
            | (.ok extra, s) =>
                if extra.size ≠ 0 then
                  some ({ r with inner := s }.fail .trailingData)
                else
                  some (.ok (), { r with inner := s, done := true, window := .ofBytes plaintext })

def readGuarded (r : PayloadReader S σ) (n : Nat) :
    Option (Except IoError Bytes × PayloadReader S σ) :=
  match r.failed with
  | some e => some (.error (.payload e), r)
  | none =>
      if n = 0 then
        some (.ok [], r)
      else
        handOutGuarded window (fun r w => { r with window := w }) done nextChunkGuarded r n

/-- No more than the buffer is ever filled. -/
theorem nextChunkGuarded_eq (r : PayloadReader S σ) : r.nextChunkGuarded = some r.nextChunk := by
  rw [nextChunkGuarded, nextChunk, readFullGuarded_eq, Option.bind_eq_bind, Option.bind_some]
  rcases hr : readFull r.inner sealedSize with ⟨e | chunk, s⟩
  · rfl
  · have hsize : chunk.size ≤ sealedSize := size_readFullFrom_le hr
    dsimp only
    by_cases hnone : chunk.size = 0
    · rw [if_pos hnone, if_pos hnone]
    · by_cases htag : chunk.size = tagSize ∧ r.counter ≠ 0
      · rw [if_neg hnone, if_pos htag, if_neg hnone, if_pos htag]
      · rw [if_neg hnone, if_neg htag, if_neg hnone, if_neg htag, guard_of hsize,
          Option.bind_eq_bind, Option.bind_some]
        rcases openChunk S r.key r.counter chunk.toList with _ | ⟨plaintext, _ | _⟩
        · rfl
        · rfl
        · simp only [readFullGuarded_eq, Option.bind_some]
          rcases readFull s 1 with ⟨e | extra, t⟩
          · rfl
          · dsimp only
            split <;> rfl

/-- The window after the next chunk is a new one, an empty one, or the one before. -/
theorem bounded_nextChunk {r : PayloadReader S σ} (hr : r.window.Bounded) :
    r.nextChunk.2.window.Bounded := by
  unfold nextChunk
  rcases readFull r.inner sealedSize with ⟨e | chunk, s⟩
  · exact hr
  · dsimp only
    split
    · exact Window.bounded_empty
    · split
      · exact Window.bounded_empty
      · rcases openChunk S r.key r.counter chunk.toList with _ | ⟨plaintext, _ | _⟩
        · exact Window.bounded_empty
        · exact Window.bounded_ofBytes plaintext
        · dsimp only
          rcases readFull s 1 with ⟨e | extra, t⟩
          · exact hr
          · dsimp only
            split
            · exact Window.bounded_empty
            · exact Window.bounded_ofBytes plaintext

/-- A chunk that others follow is full, so one chunk is enough to have something to hand out. -/
theorem ready_of_nextChunk {r v : PayloadReader S σ} (h : r.nextChunk = (.ok (), v)) :
    v.window.isSpent = false ∨ v.done = true := by
  unfold nextChunk at h
  split at h
  · cases h
  · dsimp only at h
    split at h
    · cases h
    · split at h
      · cases h
      · split at h
        · cases h
        · rename_i plaintext hopen
          rcases of_openChunk_false hopen with ⟨hfull, hdecrypt⟩
          have hlen := S.length_of_decrypt hdecrypt
          have hne : plaintext ≠ [] := by
            rintro rfl
            rw [List.length_nil] at hlen
            simp only [sealedSize, chunkSize] at hfull
            omega
          cases h
          exact .inl (Window.isSpent_ofBytes hne)
        · split at h
          · cases h
          · split at h
            · cases h
            · cases h
              exact .inr rfl

/-- A read refills at most once, and then hands out what it can. -/
theorem read_eq_handOutOf {r : PayloadReader S σ} {n : Nat} (hfailed : r.failed = none)
    (hn : n ≠ 0) :
    r.read n = handOutOf window (fun r w => { r with window := w }) n
      (if r.window.isSpent ∧ ¬ r.done then r.nextChunk else (.ok (), r)) := by
  rw [read, hfailed]
  simp only [if_neg hn]
  rcases (if r.window.isSpent ∧ ¬ r.done then r.nextChunk else (.ok (), r)) with ⟨e | ⟨⟩, v⟩ <;> rfl

/-- No more of the plaintext is handed out than there is, whatever becomes of a read. -/
theorem bounded_read {r : PayloadReader S σ} (hr : r.window.Bounded) (n : Nat) :
    (r.read n).2.window.Bounded := by
  cases hfailed : r.failed with
  | some e =>
      simp only [read, hfailed]
      exact hr
  | none =>
      by_cases hn : n = 0
      · simp only [read, hfailed, if_pos hn]
        exact hr
      · rw [read_eq_handOutOf hfailed hn]
        refine bounded_handOutOf (fun v w => rfl) ?_ n
        split
        · exact bounded_nextChunk hr
        · exact hr

theorem readGuarded_eq {r : PayloadReader S σ} (hr : r.window.Bounded) (n : Nat) :
    r.readGuarded n = some (r.read n) := by
  cases hfailed : r.failed with
  | some e => simp only [readGuarded, read, hfailed]
  | none =>
      by_cases hn : n = 0
      · simp only [readGuarded, read, hfailed, if_pos hn]
      · rw [read_eq_handOutOf hfailed hn, readGuarded, hfailed]
        simp only [if_neg hn]
        refine handOutGuarded_eq (fun v => rfl) (nextChunkGuarded_eq r) ?_ hr
          (bounded_nextChunk hr) n
        rintro v hv ⟨hspent, hmore⟩
        rcases ready_of_nextChunk hv with hready | hdone
        · exact Bool.false_ne_true (hready.symm.trans hspent)
        · exact hmore hdone

theorem reads_in_range (key : Block 32) (source : σ) (sizes : List Nat) :
    (readEach (start S key source) sizes).2.window.Bounded ∧
      readEachGuarded readGuarded (start S key source) sizes =
        some (readEach (start S key source) sizes) := by
  let inv : PayloadReader S σ → Prop := fun r => r.window.Bounded
  have hstart : inv (start S key source) := Window.bounded_empty
  exact ⟨keeps_readEach inv bounded_read hstart sizes,
    readEachGuarded_eq inv bounded_read readGuarded_eq hstart sizes⟩

end PayloadReader

/-! ## Armored input -/

namespace ArmorReader

open Armor Base64 ByteSource

theorem window_nextLine {σ : Type} [ByteSource σ] (r : ArmorReader σ) :
    r.nextLine.2.window = r.window := by
  rcases hn : r.nextLine with ⟨e | line, v⟩
  · exact (nextLine_error hn).1
  · exact (nextLine_ok hn).1

variable [Base64] {σ : Type} [ByteSource σ]

def readGuarded (r : ArmorReader σ) (n : Nat) : Option (Except IoError Bytes × ArmorReader σ) :=
  handOutGuarded window (fun r w => { r with window := w }) (fun r => r.progress == .done)
    (fun r => some r.fill) r n

/-- Reading the body leaves the window, or puts a new one in its place that is not empty; or else
the end has been read. -/
theorem ready_of_readBody {r v : ArmorReader σ} {sawLast : Bool} {answer : Except IoError Unit}
    (h : r.readBody sawLast = (answer, v)) :
    v.window = r.window ∧ (answer = .ok () → v.progress = .done) ∨
      ∃ b, b ≠ [] ∧ v.window = .ofBytes b := by
  have hwindow := r.window_nextLine
  unfold readBody at h
  rcases hn : r.nextLine with ⟨e | _ | line, u⟩ <;> rw [hn] at h hwindow <;> dsimp only at h hwindow
  · cases h
    exact .inl ⟨hwindow, fun hok => by cases hok⟩
  · cases h
    exact .inl ⟨hwindow, fun hok => by cases hok⟩
  · split at h
    · unfold finish at h
      rcases hend : u.inner.readToEnd with ⟨e | rest, b⟩ <;> rw [hend] at h <;> dsimp only at h
      · cases h
        exact .inl ⟨hwindow, fun hok => by cases hok⟩
      · split at h
        · cases h
          exact .inl ⟨hwindow, fun _ => rfl⟩
        · cases h
          exact .inl ⟨hwindow, fun hok => by cases hok⟩
    · split at h
      · cases h
        exact .inl ⟨hwindow, fun hok => by cases hok⟩
      · rename_i hfits
        split at h
        · cases h
          exact .inl ⟨hwindow, fun hok => by cases hok⟩
        · rename_i piece hdecode
          cases h
          simp only [not_or, Bool.not_eq_true, Nat.not_lt] at hfits
          exact .inr ⟨piece, (of_decodePadded? hfits.2.1 hfits.2.2 hdecode).2.1, rfl⟩

/-- So does filling the window. -/
theorem ready_of_fill {r v : ArmorReader σ} {answer : Except IoError Unit}
    (h : r.fill = (answer, v)) :
    v.window = r.window ∧ (answer = .ok () → v.progress = .done) ∨
      ∃ b, b ≠ [] ∧ v.window = .ofBytes b := by
  unfold fill at h
  split at h
  · rename_i hdone
    cases h
    exact .inl ⟨rfl, fun _ => hdone⟩
  · exact ready_of_readBody h
  · have hwindow := r.window_nextLine
    rcases hn : r.nextLine with ⟨e | _ | line, u⟩ <;> rw [hn] at h hwindow <;>
      dsimp only at h hwindow
    · cases h
      exact .inl ⟨hwindow, fun hok => by cases hok⟩
    · cases h
      exact .inl ⟨hwindow, fun hok => by cases hok⟩
    · split at h
      · rcases ready_of_readBody h with ⟨hsame, hdone⟩ | hnew
        · exact .inl ⟨hsame.trans hwindow, hdone⟩
        · exact .inr hnew
      · cases h
        exact .inl ⟨hwindow, fun hok => by cases hok⟩

/-- Filling keeps within the bounds, failed or not. -/
theorem bounded_fill {r : ArmorReader σ} (hr : r.window.Bounded) : r.fill.2.window.Bounded := by
  rcases hf : r.fill with ⟨answer, v⟩
  rcases ready_of_fill hf with ⟨hsame, -⟩ | ⟨b, -, hnew⟩
  · exact hsame ▸ hr
  · exact hnew ▸ Window.bounded_ofBytes b

/-- Where the end has been read, filling does nothing. -/
theorem read_eq_handOutOf (r : ArmorReader σ) (n : Nat) :
    r.read n = handOutOf window (fun r w => { r with window := w }) n
      (if r.window.isSpent ∧ ¬ r.progress == .done then r.fill else (.ok (), r)) := by
  have hfill : (if r.window.isSpent then r.fill else (.ok (), r)) =
      if r.window.isSpent ∧ ¬ r.progress == .done then r.fill else (.ok (), r) := by
    by_cases hspent : r.window.isSpent = true
    · by_cases hdone : r.progress = .done
      · simp [hspent, hdone, fill]
      · simp [hspent, hdone]
    · simp [hspent]
  rw [read, hfill]
  rcases (if r.window.isSpent ∧ ¬ r.progress == .done then r.fill else (.ok (), r)) with
    ⟨e | ⟨⟩, v⟩ <;> rfl

/-- No more of a line is handed out than there is, whatever becomes of a read. -/
theorem bounded_read {r : ArmorReader σ} (hr : r.window.Bounded) (n : Nat) :
    (r.read n).2.window.Bounded := by
  rw [read_eq_handOutOf]
  refine bounded_handOutOf (fun v w => rfl) ?_ n
  split
  · exact bounded_fill hr
  · exact hr

theorem readGuarded_eq {r : ArmorReader σ} (hr : r.window.Bounded) (n : Nat) :
    r.readGuarded n = some (r.read n) := by
  rw [read_eq_handOutOf, readGuarded]
  refine handOutGuarded_eq (fun v => rfl) rfl ?_ hr (bounded_fill hr) n
  rintro v hv ⟨hspent, hmore⟩
  rcases ready_of_fill hv with ⟨-, hdone⟩ | ⟨b, hne, hnew⟩
  · exact hmore (beq_iff_eq.2 (hdone rfl))
  · rw [hnew, Window.isSpent_ofBytes hne] at hspent
    cases hspent

theorem reads_in_range (text : Buffered σ) (sizes : List Nat) :
    (readEach ({ inner := text } : ArmorReader σ) sizes).2.window.Bounded ∧
      readEachGuarded readGuarded { inner := text } sizes =
        some (readEach { inner := text } sizes) := by
  let inv : ArmorReader σ → Prop := fun r => r.window.Bounded
  have hstart : inv { inner := text } := Window.bounded_empty
  exact ⟨keeps_readEach inv bounded_read hstart sizes,
    readEachGuarded_eq inv bounded_read readGuarded_eq hstart sizes⟩

end ArmorReader

/-! ## Armored output -/

namespace ArmorWriter

open Armor ByteSink

variable [Base64] {τ : Type} [ByteSink τ]

def drainGuarded : (rounds : Nat) → ArmorWriter τ → Option (Except IoError Unit × ArmorWriter τ)
  | 0, _ => none
  | rounds + 1, w =>
      if w.pending.length < bytesPerLine then
        some (.ok (), w)
      else do
        let line ← upTo w.pending bytesPerLine
        let rest ← behind w.pending bytesPerLine
        match writeAll w.inner (dataLine line) with
        | (.ok (), t) => drainGuarded rounds { inner := t, pending := rest }
        | (.error e, t) => some (.error e, { inner := t, pending := rest })

def writeGuarded (w : ArmorWriter τ) (b : Bytes) : Option (Except IoError Nat × ArmorWriter τ) := do
  let all := w.pending ++ b
  match ← drainGuarded (all.length + 1) { w with pending := all } with
  | (.ok (), v) => some (.ok b.length, v)
  | (.error e, v) => some (.error e, v)

/-- Each round cuts off a line, so there are no more rounds than pending bytes. -/
theorem drainGuarded_eq (w : ArmorWriter τ) {rounds : Nat} (hrounds : w.pending.length < rounds) :
    drainGuarded rounds w = some w.drain := by
  have hshort : ∀ {w : ArmorWriter τ}, (w.pending.take bytesPerLine).length < bytesPerLine ↔
      w.pending.length < bytesPerLine := by
    intro w
    rw [List.length_take]
    omega
  obtain ⟨rounds, rfl⟩ := Nat.exists_eq_add_one.2 (Nat.zero_lt_of_lt hrounds)
  fun_induction drain w generalizing rounds with
  | case1 w hless => rw [drainGuarded, if_pos (hshort.1 hless)]
  | case2 w hless t hw ih =>
      have hle : bytesPerLine ≤ w.pending.length := Nat.le_of_not_lt fun h => hless (hshort.2 h)
      have hfewer : (w.pending.drop bytesPerLine).length < rounds := by
        have hpos : 0 < bytesPerLine := by decide
        rw [List.length_drop]
        omega
      obtain ⟨rounds, rfl⟩ : ∃ k, rounds = k + 1 :=
        Nat.exists_eq_add_one.2 (Nat.zero_lt_of_lt hfewer)
      rw [drainGuarded, if_neg (Nat.not_lt.2 hle)]
      simp only [upTo_of_le hle, behind_of_le hle, Option.bind_eq_bind, Option.bind_some, hw]
      exact ih rounds hfewer
  | case3 w hless e t hw =>
      have hle : bytesPerLine ≤ w.pending.length := Nat.le_of_not_lt fun h => hless (hshort.2 h)
      rw [drainGuarded, if_neg (Nat.not_lt.2 hle)]
      simp only [upTo_of_le hle, behind_of_le hle, Option.bind_eq_bind, Option.bind_some, hw]

theorem writeGuarded_eq (w : ArmorWriter τ) (b : Bytes) : w.writeGuarded b = some (w.write b) := by
  have hdrain := drainGuarded_eq { w with pending := w.pending ++ b } (Nat.lt_add_one _)
  rw [writeGuarded, hdrain, write, Option.bind_eq_bind, Option.bind_some]
  rcases drain { w with pending := w.pending ++ b } with ⟨e | ⟨⟩, v⟩ <;> rfl

theorem calls_in_range (w : ArmorWriter τ) (calls : List Call) :
    performEachGuarded writeGuarded w calls = some (performEach w calls) :=
  performEachGuarded_eq (fun _ => True) (fun _ _ => trivial) (fun _ => trivial)
    (fun {w} _ => w.writeGuarded_eq) trivial calls

end ArmorWriter
end AgeCrypt
