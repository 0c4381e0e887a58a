import AgeCrypt.Proofs.Payload.Authenticity

/-!
# The answers of a payload reader, read by read

`decodeAll` tells the chunks of a sealed payload and the fault behind them; `Decoded.serve` cuts
them up for reads of given sizes.  A read is served from one chunk only, so it may give less than
was asked for though more is to come, and the fault is met by the first read that nothing is left
for.

A payload reader answers the same (`replies_of_delivers`), whatever the pieces in which its source
gives the payload.  The invariant `Serving` names what is left of the chunk at hand and the chunks
behind it; one read takes from the front of either (`Served`).
-/

namespace AgeCrypt
namespace Payload

/-- The answers to reads of the given sizes, where `held` is left of the chunk at hand, `chunks` are
behind it and then comes `fault`.  From the read on that meets the fault every read reports it. -/
def serve (fault : Option PayloadError) :
    (held : Bytes) → (chunks : List Bytes) → (sizes : List Nat) → List (Except IoError Bytes)
  | _, _, [] => []
  | held, chunks, 0 :: sizes => .ok [] :: serve fault held chunks sizes
  | x :: held, chunks, n :: sizes =>
      .ok ((x :: held).take n) :: serve fault ((x :: held).drop n) chunks sizes
  | [], chunk :: chunks, n :: sizes =>
      .ok (chunk.take n) :: serve fault (chunk.drop n) chunks sizes
  | [], [], n :: sizes =>
      match fault with
      | none => .ok [] :: serve fault [] [] sizes
      | some e => (n :: sizes).map fun _ => .error (.payload e)

def Decoded.serve (d : Decoded) (sizes : List Nat) : List (Except IoError Bytes) :=
  Payload.serve d.fault [] d.chunks sizes

end Payload

namespace PayloadReader

open Crypto Payload ByteSource

variable {S : Suite} {σ : Type} [ByteSource σ]

/-- `r` holds `held` of the chunk at hand, and gives `chunks` after it until it meets `fault`. -/
inductive Serving (fault : Option PayloadError) : PayloadReader S σ → Bytes → List Bytes → Prop where
  -- The last chunk has been opened and nothing follows it.
  | finished {r : PayloadReader S σ} (hfailed : r.failed = none) (hdone : r.done = true)
      (hwindow : r.window.taken ≤ r.window.bytes.size) (hfault : fault = none) :
      Serving fault r r.window.rest []
  -- More chunks are to come.
  | reading {r : PayloadReader S σ} {sealed : Bytes} {chunks : List Bytes}
      (hfailed : r.failed = none) (hdone : r.done = false)
      (hwindow : r.window.taken ≤ r.window.bytes.size) (hinner : Delivers r.inner sealed)
      (hdecode : decodeFrom S r.key r.counter sealed = ⟨chunks, fault⟩) :
      Serving fault r r.window.rest chunks

theorem Serving.failed_eq {r : PayloadReader S σ} {fault : Option PayloadError} {held : Bytes}
    {chunks : List Bytes} (h : Serving fault r held chunks) : r.failed = none := by
  cases h with
  | finished hfailed => exact hfailed
  | reading hfailed => exact hfailed

/-- Handing out takes from the front of what is held. -/
theorem Serving.handOut {r : PayloadReader S σ} {fault : Option PayloadError} {held : Bytes}
    {chunks : List Bytes} (h : Serving fault r held chunks) (n : Nat) :
    ∃ t, r.handOut n = (.ok (held.take n), t) ∧ Serving fault t (held.drop n) chunks := by
  have hwindow : ∀ (hle : r.window.taken ≤ r.window.bytes.size),
      (r.window.take n).2.taken ≤ (r.window.take n).2.bytes.size :=
    fun hle => Window.taken_take_snd_le hle n
  cases h with
  | finished hfailed hdone hle hfault =>
      refine ⟨{ r with window := (r.window.take n).2 }, ?_, ?_⟩
      · rw [PayloadReader.handOut, Window.take_fst]
      · rw [← Window.rest_take_snd]
        exact .finished (r := { r with window := (r.window.take n).2 }) hfailed hdone
          (hwindow hle) hfault
  | reading hfailed hdone hle hinner hdecode =>
      refine ⟨{ r with window := (r.window.take n).2 }, ?_, ?_⟩
      · rw [PayloadReader.handOut, Window.take_fst]
      · rw [← Window.rest_take_snd]
        exact .reading (r := { r with window := (r.window.take n).2 }) hfailed hdone
          (hwindow hle) hinner hdecode

/-! ## One read -/

inductive Served (fault : Option PayloadError) (n : Nat) :
    Bytes → List Bytes → Except IoError Bytes × PayloadReader S σ → Prop where
  | held {x : UInt8} {held : Bytes} {chunks : List Bytes} {t : PayloadReader S σ}
      (ht : Serving fault t ((x :: held).drop n) chunks) :
      Served fault n (x :: held) chunks (.ok ((x :: held).take n), t)
  | next {chunk : Bytes} {chunks : List Bytes} {t : PayloadReader S σ}
      (ht : Serving fault t (chunk.drop n) chunks) :
      Served fault n [] (chunk :: chunks) (.ok (chunk.take n), t)
  -- Nothing is left, and the payload was complete.
  | ended {t : PayloadReader S σ} (hfault : fault = none) (ht : Serving fault t [] []) :
      Served fault n [] [] (.ok [], t)
  | broken {e : PayloadError} {t : PayloadReader S σ} (hfault : fault = some e)
      (ht : t.failed = some e) : Served fault n [] [] (.error (.payload e), t)

/-- The chunk that a spent window is filled with is the next of those to come. -/
theorem Serving.nextChunk {r : PayloadReader S σ} {sealed : Bytes} {fault : Option PayloadError}
    {chunks : List Bytes} (hfailed : r.failed = none) (hdone : r.done = false)
    (hinner : Delivers r.inner sealed)
    (hdecode : decodeFrom S r.key r.counter sealed = ⟨chunks, fault⟩) (n : Nat) :
    Served fault n [] chunks
      (match r.nextChunk with
      | (.error e, r) => (.error e, r)
      | (.ok (), r) => r.handOut n) := by
  have hsegment := nextChunk_decodes hinner
  generalize r.nextChunk = answered at hsegment ⊢
  cases hsegment with
  | @middle p t _ hmiddle ht =>
      cases hmiddle.symm.trans hdecode
      let r' : PayloadReader S σ :=
        { r with inner := t, counter := r.counter + 1, window := .ofBytes p }
      have hserving : Serving _ r' r'.window.rest _ :=
        .reading hfailed hdone (Nat.zero_le _) ht rfl
      rw [Window.rest_ofBytes] at hserving
      rcases hserving.handOut n with ⟨u, hu, hserved⟩
      change Served _ n [] _ (r'.handOut n)
      rw [hu]
      exact .next hserved
  | @last p t hlast =>
      cases hlast.symm.trans hdecode
      let r' : PayloadReader S σ := { r with inner := t, done := true, window := .ofBytes p }
      have hserving : Serving _ r' r'.window.rest [] :=
        .finished hfailed rfl (Nat.zero_le _) rfl
      rw [Window.rest_ofBytes] at hserving
      rcases hserving.handOut n with ⟨u, hu, hserved⟩
      change Served _ n [] _ (r'.handOut n)
      rw [hu]
      exact .next hserved
  | fault hfault =>
      cases hfault.symm.trans hdecode
      exact .broken rfl rfl

/-- A read of something is served from the chunk at hand, or else from the next. -/
theorem Serving.served {r : PayloadReader S σ} {fault : Option PayloadError} {held : Bytes}
    {chunks : List Bytes} (h : Serving fault r held chunks) {n : Nat} (hn : n ≠ 0) :
    Served fault n held chunks (r.read n) := by
  have hserving := h
  have hheld : ∀ {x rest}, held = x :: rest →
      (r.window.isSpent = false ∨ r.done = true) → Served fault n held chunks (r.read n) := by
    intro x rest hcons hstays
    rcases hserving.handOut n with ⟨t, ht, hserved⟩
    rw [read_of_held hserving.failed_eq hn hstays, ht]
    subst hcons
    exact .held hserved
  cases h with
  | finished hfailed hdone _ hfault =>
      generalize hrest : r.window.rest = rest at hserving hheld ⊢
      cases rest with
      | cons x rest => exact hheld rfl (.inr hdone)
      | nil =>
          rcases hserving.handOut n with ⟨t, ht, hserved⟩
          rw [read_of_held hfailed hn (.inr hdone), ht, List.take_nil]
          rw [List.drop_nil] at hserved
          exact .ended hfault hserved
  | reading hfailed hdone hwindow hinner hdecode =>
      have hspent := Window.isSpent_iff hwindow
      generalize r.window.rest = rest at hserving hheld hspent ⊢
      cases rest with
      | cons x rest =>
          refine hheld rfl (.inl ?_)
          rw [Bool.eq_false_iff, ne_eq, hspent]
          exact List.cons_ne_nil x rest
      | nil =>
          rw [read_of_spent hfailed hn (hspent.2 rfl) hdone]
          exact Serving.nextChunk hfailed hdone hinner hdecode n

/-! ## Read after read -/

/-- A reader that has failed reports its fault to every read. -/
theorem readEach_of_failed {r : PayloadReader S σ} {e : PayloadError} (hfailed : r.failed = some e)
    (sizes : List Nat) :
    (readEach r sizes).1 = sizes.map fun _ => .error (.payload e) := by
  induction sizes with
  | nil => rfl
  | cons n sizes ih =>
      have hread : ByteSource.read r n = (.error (.payload e), r) := read_of_failed hfailed n
      simp only [readEach, hread, ih, List.map_cons]

/-- The answers to a run of reads are cut from what is held and the chunks behind it. -/
theorem Serving.readEach {r : PayloadReader S σ} {fault : Option PayloadError} {held : Bytes}
    {chunks : List Bytes} (h : Serving fault r held chunks) (sizes : List Nat) :
    (ByteSource.readEach r sizes).1 = serve fault held chunks sizes := by
  induction sizes generalizing r held chunks with
  | nil => simp only [ByteSource.readEach, serve]
  | cons n sizes ih =>
      by_cases hn : n = 0
      · have hread : ByteSource.read r 0 = (.ok [], r) := read_zero h.failed_eq
        subst hn
        simp only [ByteSource.readEach, hread, serve, ih h]
      have hserved : Served fault n held chunks (ByteSource.read r n) := h.served hn
      generalize hread : ByteSource.read r n = answered at hserved
      simp only [ByteSource.readEach, hread]
      cases hserved with
      | held ht => rw [ih ht, serve]; exact hn
      | next ht => rw [ih ht, serve]; exact hn
      | ended hfault ht =>
          rw [ih ht, hfault, serve]
          exact hn
      | broken hfault ht =>
          rw [readEach_of_failed ht, hfault, serve]
          · rfl
          · exact hn

/-- A read of nothing leaves a reader as it is. -/
theorem read_zero_snd (r : PayloadReader S σ) : (r.read 0).2 = r := by
  cases hfailed : r.failed with
  | none => rw [read_zero hfailed]
  | some e => rw [read_of_failed hfailed]

/-! ## What comes before a fault -/

theorem handedOut_ok (b : Bytes) (answers : List (Except IoError Bytes)) :
    handedOut (.ok b :: answers) = b ++ handedOut answers := by
  simp only [handedOut, List.flatMap_cons]

theorem handedOut_errors (sizes : List Nat) (e : IoError) (i : Nat) :
    handedOut ((sizes.map fun _ => Except.error e).take i) = [] := by
  rw [handedOut, List.flatMap_eq_nil_iff]
  intro answer hmem
  rcases List.mem_map.1 (List.mem_of_mem_take hmem) with ⟨n, -, rfl⟩
  rfl

theorem length_serve (fault : Option PayloadError) (held : Bytes) (chunks : List Bytes)
    (sizes : List Nat) : (serve fault held chunks sizes).length = sizes.length := by
  fun_induction serve fault held chunks sizes with
  | case1 => rfl
  | case2 held chunks sizes ih => rw [List.length_cons, List.length_cons, ih]
  | case3 x held chunks n sizes hn ih => rw [List.length_cons, List.length_cons, ih]
  | case4 chunk chunks n sizes hn ih => rw [List.length_cons, List.length_cons, ih]
  | case5 n sizes hn hfault ih => rw [List.length_cons, List.length_cons, ← hfault, ih]
  | case6 n sizes hn e hfault => exact List.length_map _

/-- All that was held and all chunks have been handed out before a read reports the fault. -/
theorem handedOut_serve_of_error {fault : Option PayloadError} {held : Bytes} {chunks : List Bytes}
    {sizes : List Nat} {i : Nat} {e : IoError}
    (h : (serve fault held chunks sizes)[i]? = some (.error e)) :
    handedOut ((serve fault held chunks sizes).take i) = held ++ chunks.flatten ∧
      endingOf fault = some e := by
  -- a read that succeeds is not the one that reports, so one behind it is
  have hcons : ∀ {b data : Bytes} {later : List (Except IoError Bytes)} {i : Nat},
      (Except.ok b :: later)[i]? = some (.error e) →
      (∀ {j}, later[j]? = some (.error e) →
        handedOut (later.take j) = data ∧ endingOf fault = some e) →
      handedOut ((.ok b :: later).take i) = b ++ data ∧ endingOf fault = some e := by
    intro b data later i hi hlater
    cases i with
    | zero => cases hi
    | succ i =>
        rw [List.take_succ_cons, handedOut_ok, (hlater hi).1]
        exact ⟨rfl, (hlater hi).2⟩
  fun_induction serve fault held chunks sizes generalizing i with
  | case1 => cases h
  | case2 held chunks sizes ih => exact hcons h ih
  | case3 x held chunks n sizes hn ih =>
      have hserved := hcons h ih
      rwa [← List.append_assoc, List.take_append_drop] at hserved
  | case4 chunk chunks n sizes hn ih =>
      have hserved := hcons h ih
      rwa [← List.append_assoc, List.take_append_drop] at hserved
  | case5 n sizes hn hfault ih => 
      rw [← hfault] at h ⊢
      exact hcons h ih
  | case6 n sizes hn e' hfault =>
      rw [handedOut_errors, hfault]
      rcases List.mem_map.1 (List.mem_of_getElem? h) with ⟨m, -, heq⟩
      cases heq
      exact ⟨rfl, rfl⟩

/-! ## A whole payload -/

/-- The answers of a payload reader are those that `decodeAll` is cut into, for reads of any sizes
over a source that gives the payload in any pieces: each read is answered, what comes before a fault
has been handed out when a read reports it, and a read of nothing changes nothing. -/
theorem replies_of_delivers {S : Suite} {σ : Type} [ByteSource σ] {source : σ} {sealed : Bytes}
    (hsource : Delivers source sealed) (key : Block 32) (sizes : List Nat) :
    (readEach (start S key source) sizes).1 = (decodeAll S key sealed).serve sizes ∧
      (readEach (start S key source) sizes).1.length = sizes.length ∧
      (∀ i e, (readEach (start S key source) sizes).1[i]? = some (.error e) →
        handedOut ((readEach (start S key source) sizes).1.take i) =
            (decodeAll S key sealed).chunks.flatten ∧
          endingOf (decodeAll S key sealed).fault = some e) ∧
      ∀ r : PayloadReader S σ, (ByteSource.read r 0).2 = r := by
  have hstart : Serving (decodeAll S key sealed).fault (start S key source) []
      (decodeAll S key sealed).chunks :=
    .reading (r := start S key source) rfl rfl (Nat.zero_le _) hsource rfl
  have hserve : (readEach (start S key source) sizes).1 = (decodeAll S key sealed).serve sizes :=
    hstart.readEach sizes
  rw [hserve]
  refine ⟨rfl, length_serve _ _ _ _, ?_, read_zero_snd⟩
  intro i e herror
  exact handedOut_serve_of_error herror

/-- A payload that is cut off behind its first chunk, given seven bytes at a time and once
interrupted: the chunk is handed out, then every read reports that the payload does not end. -/
theorem replies_of_delivers_cut_off :
    (readEach (start .transparent (Block.zeros 32)
      ({ data := Suite.transparent.encrypt (Block.zeros 32) (nonce 0 false)
           (List.replicate 65530 8 ++ List.replicate 6 8)
         portions := #[7]
         faults := [(9, .device .interrupted "")] } : ScriptedSource)) [0, 65530, 10, 10, 0]).1 =
    [.ok [], .ok (List.replicate 65530 8), .ok (List.replicate 6 8),
      .error (.payload .truncated), .error (.payload .truncated)] := by
  let chunk : Bytes := List.replicate 65530 8 ++ List.replicate 6 8
  let source : ScriptedSource :=
    { data := Suite.transparent.encrypt (Block.zeros 32) (nonce 0 false) chunk
      portions := #[7]
      faults := [(9, .device .interrupted "")] }
  have hsource : Delivers source source.data := ScriptedSource.delivers (by decide) (by decide)
  have hchunk : chunk.length = chunkSize := by
    rw [List.length_append, List.length_replicate, List.length_replicate, chunkSize]
  have hlen : source.data.length = sealedSize := by
    rw [Suite.length_encrypt, hchunk, sealedSize]
  have hne : source.data ≠ [] := by
    rw [← List.length_pos_iff, hlen]
    decide
  have hopen : openChunk .transparent (Block.zeros 32) 0 source.data = some (chunk, false) :=
    openChunk_middle (Suite.transparent_opensSealed _ _ _) hchunk
  have hdecode :
      decodeAll .transparent (Block.zeros 32) source.data = ⟨[chunk], some .truncated⟩ := by
    rw [decodeAll, decodeFrom_of_openChunk hne (fun h => h.2 rfl),
      List.take_of_length_le (Nat.le_of_eq hlen), List.drop_of_length_le (Nat.le_of_eq hlen),
      hopen, decodeFrom_nil]
  have hreplies := (replies_of_delivers (S := .transparent) hsource (Block.zeros 32)
    [0, 65530, 10, 10, 0]).1
  have htake : chunk.take 65530 = List.replicate 65530 8 := List.take_left' List.length_replicate
  have hdrop : chunk.drop 65530 = List.replicate 6 8 := List.drop_left' List.length_replicate
  refine hreplies.trans ?_
  rw [hdecode, Decoded.serve, serve, serve, htake, hdrop]
  · rfl
  · decide

end PayloadReader
end AgeCrypt
