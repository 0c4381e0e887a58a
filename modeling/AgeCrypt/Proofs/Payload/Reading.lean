import AgeCrypt.Proofs.Io.Delivery
import AgeCrypt.Proofs.Payload.Releasing

/-!
# What a payload reader delivers

A payload reader over a source that gives sealed bytes is itself a source: it gives the plaintext of
the chunks that are released, and then meets the end of input or what stopped them
(`giving_pending`, `pending_start`).  Over a source that delivers sealed bytes it delivers the
plaintext that `openAll` finds, and then the end of input or the fault that cuts it off
(`delivers_start`).  The sizes of the reads on either side do not matter.

`Pending` is the invariant that carries this through a run: what has been opened but not handed out,
followed by what is released of the bytes still to be read.
-/

namespace AgeCrypt
namespace PayloadReader

open Crypto Payload ByteSource

variable {S : Suite} {σ : Type} [ByteSource σ] {gives : σ → Bytes → Prop} {broken : σ → Prop}
  {ending stop : Option IoError}

def endingOf (fault : Option PayloadError) : Option IoError :=
  fault.map .payload

/-- What is released of a payload that ends with the input. -/
theorem released_none (key : Block 32) (sealed : Bytes) :
    (releaseFrom S key 0 sealed none).chunks.flatten = (openAll S key sealed).1 ∧
      (releaseFrom S key 0 sealed none).stop = endingOf (openAll S key sealed).2 := by
  rw [releaseFrom_none, openAll, openFrom_eq_decodeFrom]
  exact ⟨rfl, rfl⟩

/-- `r` has `data` still to hand out before it meets `stop`, if its source gives bytes that `ending`
follows. -/
inductive Pending (gives : σ → Bytes → Prop) (ending stop : Option IoError) :
    PayloadReader S σ → Bytes → Prop where
  -- The reading has ended with a fault of the payload.
  | failed {r : PayloadReader S σ} {e : PayloadError} (hfailed : r.failed = some e)
      (hend : stop = some (.payload e)) : Pending gives ending stop r []
  -- The last chunk has been opened and nothing follows it.
  | finished {r : PayloadReader S σ} (hfailed : r.failed = none) (hdone : r.done = true)
      (hwindow : r.window.taken ≤ r.window.bytes.size) (hend : stop = none) :
      Pending gives ending stop r r.window.rest
  -- More chunks are to come.
  | reading {r : PayloadReader S σ} {sealed : Bytes} (hfailed : r.failed = none)
      (hdone : r.done = false) (hwindow : r.window.taken ≤ r.window.bytes.size)
      (hinner : gives r.inner sealed)
      (hend : stop = (releaseFrom S r.key r.counter sealed ending).stop) :
      Pending gives ending stop r
        (r.window.rest ++ (releaseFrom S r.key r.counter sealed ending).chunks.flatten)

/-- How a reader is left that has met what stops it: it stays there, unless its source has failed.
-/
def Stopped (gives : σ → Bytes → Prop) (ending stop : Option IoError) (r : PayloadReader S σ) :
    Prop :=
  ending = none → Pending gives ending stop r []

/-! ## One chunk -/

/-- What reading a chunk comes to: the reader goes on with plaintext at hand, or it has failed for
good, or its source has failed. -/
inductive ChunkRead (gives : σ → Bytes → Prop) (ending : Option IoError) (sealed : Bytes)
    (r : PayloadReader S σ) : Except IoError Unit × PayloadReader S σ → Prop where
  -- A chunk that others follow; it holds something.
  | middle {p : Bytes} {t : σ} (hne : p ≠ [])
      (hrelease : releaseFrom S r.key r.counter sealed ending =
        ⟨p :: (releaseFrom S r.key (r.counter + 1) (sealed.drop sealedSize) ending).chunks,
          (releaseFrom S r.key (r.counter + 1) (sealed.drop sealedSize) ending).stop⟩)
      (ht : gives t (sealed.drop sealedSize)) :
      ChunkRead gives ending sealed r
        (.ok (), { r with inner := t, counter := r.counter + 1, window := .ofBytes p })
  | last {p : Bytes} {t : σ}
      (hrelease : releaseFrom S r.key r.counter sealed ending = ⟨[p], none⟩) :
      ChunkRead gives ending sealed r
        (.ok (), { r with inner := t, done := true, window := .ofBytes p })
  | fault {e : PayloadError} {t : σ}
      (hrelease : releaseFrom S r.key r.counter sealed ending = ⟨[], some (.payload e)⟩) :
      ChunkRead gives ending sealed r
        (.error (.payload e), { r with inner := t, failed := some e, window := {} })
  | broken {e : IoError} {t : σ} (hi : e.isInterrupted = false) (hend : ending = some e)
      (hrelease : releaseFrom S r.key r.counter sealed ending = ⟨[], some e⟩) :
      ChunkRead gives ending sealed r (.error e, { r with inner := t })

/-- The next chunk of a source that gives sealed bytes. -/
theorem nextChunk_releases (G : Giving gives broken ending) {r : PayloadReader S σ} {sealed : Bytes}
    (hinner : gives r.inner sealed) : ChunkRead gives ending sealed r r.nextChunk := by
  have hread := G.readFull hinner sealedSize
  rcases hfull : readFull r.inner sealedSize with ⟨answer, t⟩
  rw [hfull] at hread
  cases hread with
  | @broken e _ hn hend =>
      simp only [nextChunk, hfull]
      refine .broken (weight_readFullFrom_error hfull).2 hend ?_
      rw [hend]
      exact releaseFrom_of_short hn e
  | full hn hrest =>
      have hsegment : (#[] : Array UInt8) ++ sealed.take sealedSize =
          (sealed.take sealedSize).toArray := by
        simp
      rw [hsegment] at hfull
      simp only [nextChunk, hfull, fail, List.size_toArray, List.length_eq_zero_iff,
        take_sealedSize_eq_nil_iff]
      by_cases hnil : sealed = []
      · have hnone : ending = none := hn.resolve_left (by rw [hnil]; decide)
        rw [if_pos hnil]
        refine .fault ?_
        rw [hnil, hnone, releaseFrom_nil]
      by_cases htag : (sealed.take sealedSize).length = tagSize ∧ r.counter ≠ 0
      · have hnone : ending = none := by
          refine hn.resolve_left fun hle => ?_
          rw [List.length_take_of_le hle] at htag
          exact absurd htag.1 (by decide)
        rw [if_neg hnil, if_pos htag]
        refine .fault ?_
        rw [hnone, releaseFrom_of_empty hnil htag]
      rw [if_neg hnil, if_neg htag]
      -- the reader and `releaseFrom` go the same way from here on
      have hunfold := @releaseFrom_of_openChunk S r.key r.counter sealed ending hnil htag hn
      split
      · rename_i hchunk
        rw [hchunk] at hunfold
        exact .fault hunfold
      · rename_i p hchunk
        rw [hchunk] at hunfold
        rcases of_openChunk_false hchunk with ⟨hsize, hdec⟩
        have hlen := S.length_of_decrypt hdec
        refine .middle ?_ hunfold hrest
        rw [hlen, sealedSize, chunkSize] at hsize
        rw [← List.length_pos_iff]
        omega
      · rename_i p hchunk
        rw [hchunk] at hunfold
        dsimp only at hunfold
        -- the probe for bytes behind the last chunk
        have hprobe := G.readFull hrest 1
        rcases hextra : readFull t 1 with ⟨answer, u⟩
        rw [hextra] at hprobe
        cases hbehind : sealed.drop sealedSize with
        | nil =>
            rw [hbehind] at hprobe hunfold
            cases hprobe with
            | @broken e _ _ hend =>
                refine .broken (weight_readFullFrom_error hextra).2 hend ?_
                rw [hunfold, hend, releaseLast]
            | full hmore _ =>
                have hnone : ending = none := hmore.resolve_left (by decide)
                rw [hnone, releaseLast] at hunfold
                exact .last (by rw [hnone]; exact hunfold)
        | cons x rest =>
            rw [hbehind] at hprobe hunfold
            cases hprobe with
            | broken hshort _ => simp at hshort
            | full _ _ =>
                refine .fault ?_
                rw [hunfold, releaseLast]

inductive SegmentRead (sealed : Bytes) (r : PayloadReader S σ) :
    Except IoError Unit × PayloadReader S σ → Prop where
  | middle {p : Bytes} {t : σ} (hne : p ≠ [])
      (hdecode : decodeFrom S r.key r.counter sealed =
        ⟨p :: (decodeFrom S r.key (r.counter + 1) (sealed.drop sealedSize)).chunks,
          (decodeFrom S r.key (r.counter + 1) (sealed.drop sealedSize)).fault⟩)
      (ht : Delivers t (sealed.drop sealedSize)) :
      SegmentRead sealed r
        (.ok (), { r with inner := t, counter := r.counter + 1, window := .ofBytes p })
  | last {p : Bytes} {t : σ} (hdecode : decodeFrom S r.key r.counter sealed = ⟨[p], none⟩) :
      SegmentRead sealed r (.ok (), { r with inner := t, done := true, window := .ofBytes p })
  | fault {e : PayloadError} {t : σ}
      (hdecode : decodeFrom S r.key r.counter sealed = ⟨[], some e⟩) :
      SegmentRead sealed r
        (.error (.payload e), { r with inner := t, failed := some e, window := {} })

/-- The next segment of a source that delivers. -/
theorem nextChunk_decodes {r : PayloadReader S σ} {sealed : Bytes}
    (hinner : Delivers r.inner sealed) : SegmentRead sealed r r.nextChunk := by
  have hchunk := nextChunk_releases (Delivers.giving none) hinner
  generalize r.nextChunk = answered at hchunk ⊢
  cases hchunk with
  | middle hne hrelease ht =>
      refine .middle hne ?_ ht
      rw [decodeFrom_eq_iff, hrelease, releaseFrom_none]
  | last hrelease => exact .last (decodeFrom_eq_iff.2 hrelease)
  | fault hrelease => exact .fault (decodeFrom_eq_iff.2 hrelease)
  | broken _ hend _ => cases hend

/-! ## One read -/

def handOut (r : PayloadReader S σ) (n : Nat) : Except IoError Bytes × PayloadReader S σ :=
  (.ok (r.window.take n).1, { r with window := (r.window.take n).2 })

/-- A reader that has failed reports its fault again. -/
theorem read_of_failed {r : PayloadReader S σ} {e : PayloadError} (hfailed : r.failed = some e)
    (n : Nat) : r.read n = (.error (.payload e), r) := by
  simp only [PayloadReader.read, hfailed]

theorem read_zero {r : PayloadReader S σ} (hfailed : r.failed = none) : r.read 0 = (.ok [], r) := by
  simp only [PayloadReader.read, hfailed, if_true]

/-- What the window holds is handed out, and so is nothing behind the last chunk. -/
theorem read_of_held {r : PayloadReader S σ} {n : Nat} (hfailed : r.failed = none) (hn : n ≠ 0)
    (hheld : r.window.isSpent = false ∨ r.done = true) : r.read n = r.handOut n := by
  have hstays : ¬ (r.window.isSpent = true ∧ ¬ r.done = true) := by
    rintro ⟨hspent, hdone⟩
    rcases hheld with hheld | hheld
    · cases hspent.symm.trans hheld
    · exact hdone hheld
  simp only [PayloadReader.read, PayloadReader.handOut, hfailed, if_neg hn, if_neg hstays]

/-- A spent window is filled first. -/
theorem read_of_spent {r : PayloadReader S σ} {n : Nat} (hfailed : r.failed = none) (hn : n ≠ 0)
    (hspent : r.window.isSpent = true) (hdone : r.done = false) :
    r.read n =
      match r.nextChunk with
      | (.error e, r) => (.error e, r)
      | (.ok (), r) => r.handOut n := by
  have hmoves : r.window.isSpent = true ∧ ¬ r.done = true :=
    ⟨hspent, by simp [hdone]⟩
  simp only [PayloadReader.read, hfailed, if_neg hn, if_pos hmoves]
  rfl

omit [ByteSource σ] in
/-- Handing out of the window leaves the rest pending. -/
theorem Pending.handOut {r : PayloadReader S σ} {data : Bytes} (h : Pending gives ending stop r data)
    (hfailed : r.failed = none) (hspent : r.window.rest = [] → data = [] ∧ stop = none) (n : Nat) :
    Answered (Pending gives ending stop) (Stopped gives ending stop) data stop n (r.handOut n) := by
  cases h with
  | failed hf _ =>
      rw [hfailed] at hf
      cases hf
  | finished _ hdone hwindow hend =>
      rw [← List.append_nil r.window.rest]
      refine Answered.of_window (fun _ => ⟨rfl, hend⟩) ?_
      rw [List.append_nil]
      exact .finished (r := { r with window := (r.window.take n).2 }) hfailed hdone
        (Window.taken_take_snd_le hwindow n) hend
  | @reading sealed _ hdone hwindow hinner hend =>
      refine Answered.of_window (fun hrest => ?_) ?_
      · rcases hspent hrest with ⟨hnil, hnone⟩
        exact ⟨(List.append_eq_nil_iff.1 hnil).2, hnone⟩
      · exact .reading (r := { r with window := (r.window.take n).2 }) hfailed hdone
          (Window.taken_take_snd_le hwindow n) hinner hend

/-- The chunk that a spent window is filled with leaves the rest pending. -/
theorem Pending.nextChunk (G : Giving gives broken ending) {r : PayloadReader S σ} {sealed : Bytes}
    (hfailed : r.failed = none) (hdone : r.done = false) (hinner : gives r.inner sealed)
    (hend : stop = (releaseFrom S r.key r.counter sealed ending).stop) (n : Nat) :
    Answered (Pending gives ending stop) (Stopped gives ending stop)
      (releaseFrom S r.key r.counter sealed ending).chunks.flatten stop n
      (match r.nextChunk with
      | (.error e, r) => (.error e, r)
      | (.ok (), r) => r.handOut n) := by
  have hchunk := nextChunk_releases G hinner
  generalize r.nextChunk = answered at hchunk ⊢
  cases hchunk with
  | @middle p t hne hrelease ht =>
      let r' : PayloadReader S σ :=
        { r with inner := t, counter := r.counter + 1, window := .ofBytes p }
      have hrest : r'.window.rest = p := Window.rest_ofBytes p
      have hpending : Pending gives ending stop r'
          (releaseFrom S r.key r.counter sealed ending).chunks.flatten := by
        rw [hrelease, List.flatten_cons, ← hrest]
        exact .reading hfailed hdone (Nat.zero_le _) ht (by rw [hend, hrelease])
      exact hpending.handOut hfailed (fun h => absurd (hrest.symm.trans h) hne) n
  | @last p t hrelease =>
      let r' : PayloadReader S σ :=
        { r with inner := t, done := true, window := .ofBytes p }
      have hrest : r'.window.rest = p := Window.rest_ofBytes p
      have hdata : (releaseFrom S r.key r.counter sealed ending).chunks.flatten = p := by
        rw [hrelease, List.flatten_singleton]
      have hnone : stop = none := by
        rw [hend, hrelease]
      have hpending : Pending gives ending stop r' p := by
        rw [← hrest]
        exact .finished hfailed rfl (Nat.zero_le _) hnone
      rw [hdata]
      -- the last chunk may be empty, and then the input ends with this read
      exact hpending.handOut hfailed (fun h => ⟨hrest.symm.trans h, hnone⟩) n
  | @fault e t hrelease =>
      have hsome : stop = some (.payload e) := by
        rw [hend, hrelease]
      refine .fault (not_interrupted_of_payload e) ?_ hsome fun _ => .failed rfl hsome
      rw [hrelease, List.flatten_nil]
  | broken hi hbroken hrelease =>
      refine .fault hi ?_ ?_ fun hnone => ?_
      · rw [hrelease, List.flatten_nil]
      · rw [hend, hrelease]
      · cases hbroken.symm.trans hnone

/-- One read keeps what is pending. -/
theorem giving_pending (G : Giving gives broken ending) :
    Giving (Pending (S := S) gives ending stop) (Stopped gives ending stop) stop where
  answered := by
    intro r data h n
    change Answered _ _ _ _ _ (r.read n)
    have hstored := h
    cases h with
    | @failed e hfailed hend =>
        rw [read_of_failed hfailed]
        exact .fault (not_interrupted_of_payload e) rfl hend fun _ => hstored
    | finished hfailed hdone hwindow hend =>
        by_cases hn : n = 0
        · rw [hn, read_zero hfailed]
          exact .piece (b := []) rfl (fun _ => .inl rfl) hstored
        · rw [read_of_held hfailed hn (.inr hdone)]
          exact hstored.handOut hfailed (fun hrest => ⟨hrest, hend⟩) n
    | reading hfailed hdone hwindow hinner hend =>
        by_cases hn : n = 0
        · rw [hn, read_zero hfailed]
          exact .piece (b := []) rfl (fun _ => .inl rfl) hstored
        have hspent_iff := Window.isSpent_iff hwindow
        cases hspent : r.window.isSpent with
        | true =>
            rw [read_of_spent hfailed hn hspent hdone, hspent_iff.1 hspent, List.nil_append]
            exact Pending.nextChunk G hfailed hdone hinner hend n
        | false =>
            have hne : r.window.rest ≠ [] := by
              intro hnil
              cases hspent.symm.trans (hspent_iff.2 hnil)
            rw [read_of_held hfailed hn (.inl hspent)]
            exact hstored.handOut hfailed (fun hrest => absurd hrest hne) n

/-! ## A whole payload -/

omit [ByteSource σ] in
/-- A reader at the start of a payload has all that is released of it still to hand out. -/
theorem pending_start {source : σ} {sealed : Bytes} (h : gives source sealed) (key : Block 32)
    (ending : Option IoError) :
    Pending gives ending (releaseFrom S key 0 sealed ending).stop (start S key source)
      (releaseFrom S key 0 sealed ending).chunks.flatten :=
  .reading (r := start S key source) rfl rfl (Nat.zero_le _) h rfl

/-- A reader at the start of a payload delivers the plaintext of its chunks, and then the end of
input or the fault that cuts it off. -/
theorem delivers_start {source : σ} {sealed : Bytes} (h : Delivers source sealed)
    (key : Block 32) :
    Delivers (start S key source) (openAll S key sealed).1
      (endingOf (openAll S key sealed).2) := by
  have hpending : Pending (fun s data => Delivers s data) none _ (start S key source) _ :=
    pending_start h key none
  rw [(released_none key sealed).1, (released_none key sealed).2] at hpending
  exact (giving_pending (Delivers.giving none)).delivers (fun hstopped => hstopped rfl) hpending

/-- Reading a payload to the end succeeds if it opens without a fault. -/
theorem readToEnd_start_iff {source : σ} {sealed p : Bytes} (h : Delivers source sealed)
    {key : Block 32} :
    (∃ r, readToEnd (start S key source) = (.ok p, r)) ↔ openAll S key sealed = (p, none) := by
  rcases readToEnd_of_delivers (delivers_start (S := S) h key) with ⟨r, hr⟩
  rw [hr]
  rcases openAll S key sealed with ⟨q, fault⟩
  cases fault with
  | none => simp [endingOf, gathered]
  | some e => simp [endingOf, gathered]

end PayloadReader
end AgeCrypt
