import AgeCrypt.Payload.Reader
import AgeCrypt.Proofs.Crypto.Transparent

/-!
# Opening a payload at once

`openFrom` opens a sealed payload that lies in memory, chunk after chunk, and says what came out and
which fault cut it off.  It reads no source, so what holds of chunks, numbers and boundaries is
proved of it by following its recursion:

* `sealFrom_of_openFrom` — what opens without a fault is the sealed form of what came out;
* `openFrom_sealFrom` — the sealed form opens without a fault, to what was sealed.

The second needs one thing of the cipher beside `OpensSealed`: a full chunk is first tried as one
that others follow, so a full last chunk must not open as such (`LastChunkApart`).
-/

namespace AgeCrypt
namespace Payload

open Crypto PayloadReader

/-- The plaintext of a sealed payload from chunk `counter` on, as far as it opens, and the fault
that cuts it off; `none` where it is complete. -/
def openFrom (S : Suite) (key : Block 32) (counter : Nat) (sealed : Bytes) :
    Bytes × Option PayloadError :=
  if sealed = [] then
    ([], some .truncated)
  else if (sealed.take sealedSize).length = tagSize ∧ counter ≠ 0 then
    ([], some .lastChunkEmpty)
  else
    match openChunk S key counter (sealed.take sealedSize) with
    | none => ([], some .unauthentic)
    | some (p, false) =>
        match openFrom S key (counter + 1) (sealed.drop sealedSize) with
        | (rest, fault) => (p ++ rest, fault)
    | some (p, true) =>
        if sealed.drop sealedSize = [] then (p, none) else ([], some .trailingData)
termination_by sealed.length
decreasing_by
  rename_i h _
  have : sealed.length ≠ 0 := fun hl => h (List.length_eq_zero_iff.1 hl)
  simp only [List.length_drop, sealedSize, tagSize]
  omega

def openAll (S : Suite) (key : Block 32) (sealed : Bytes) : Bytes × Option PayloadError :=
  openFrom S key 0 sealed

/-- The chunks of a payload from chunk `counter` on, each with its nonce. -/
def chunksFrom (counter : Nat) (plaintext : Bytes) : List (Block 12 × Bytes) :=
  if plaintext.length ≤ chunkSize then
    [(nonce counter true, plaintext)]
  else
    (nonce counter false, plaintext.take chunkSize)
      :: chunksFrom (counter + 1) (plaintext.drop chunkSize)
termination_by plaintext.length
decreasing_by
  simp only [chunkSize, List.length_drop] at *
  omega

/-- A full last chunk of `plaintext`, which begins with chunk `counter`, does not open as a chunk
that others follow. -/
def LastChunkApart (S : Suite) (key : Block 32) (counter : Nat) (plaintext : Bytes) : Prop :=
  ∀ n, plaintext.length = (n + 1) * chunkSize →
    S.decrypt? key (nonce (counter + n) false)
      (S.encrypt key (nonce (counter + n) true) (plaintext.drop (n * chunkSize))) = none

variable {S : Suite} {key : Block 32} {counter : Nat}

/-- Where there is no plaintext, there is no full last chunk. -/
theorem LastChunkApart.nil : LastChunkApart S key counter [] := by
  intro n hn
  simp only [List.length_nil, chunkSize] at hn
  omega

theorem LastChunkApart.drop {plaintext : Bytes} (h : LastChunkApart S key counter plaintext)
    (hlen : chunkSize < plaintext.length) :
    LastChunkApart S key (counter + 1) (plaintext.drop chunkSize) := by
  intro n hn
  have hn' : plaintext.length = (n + 1 + 1) * chunkSize := by
    rw [List.length_drop] at hn
    rw [Nat.add_mul, ← hn]
    omega
  have happly := h (n + 1) hn'
  rw [List.drop_drop, Nat.add_assoc, Nat.add_comm 1 n]
  rwa [Nat.add_mul, Nat.one_mul, Nat.add_comm (n * chunkSize)] at happly

/-- Only the last chunk matters, so full chunks may be put before it. -/
theorem LastChunkApart.cons {chunk rest : Bytes} (hchunk : chunk.length = chunkSize)
    (hrest : rest ≠ []) (h : LastChunkApart S key (counter + 1) rest) :
    LastChunkApart S key counter (chunk ++ rest) := by
  have hpos : 0 < rest.length := List.length_pos_iff.2 hrest
  intro n hn
  rw [List.length_append, hchunk, Nat.add_mul, Nat.one_mul] at hn
  rcases n with _ | n
  · omega
  · have hn' : rest.length = (n + 1) * chunkSize := by
      omega
    have happly := h n hn'
    have hdrop : (chunk ++ rest).drop ((n + 1) * chunkSize) = rest.drop (n * chunkSize) := by
      rw [List.drop_append, hchunk, Nat.add_mul, Nat.one_mul, Nat.add_sub_cancel,
        List.drop_of_length_le (by omega), List.nil_append]
    rwa [hdrop, Nat.add_comm n 1, ← Nat.add_assoc]

/-! ## One chunk -/

/-- A chunk that opens as one that others follow is full. -/
theorem of_openChunk_false {chunk p : Bytes} (h : openChunk S key counter chunk = some (p, false)) :
    sealedSize ≤ chunk.length ∧ S.decrypt? key (nonce counter false) chunk = some p := by
  simp only [openChunk] at h
  split at h
  · simp at h
  · rename_i hlen
    split at h
    · rename_i q hq
      cases h
      exact ⟨Nat.le_of_not_lt hlen, hq⟩
    · simp at h

theorem of_openChunk_true {chunk p : Bytes} (h : openChunk S key counter chunk = some (p, true)) :
    S.decrypt? key (nonce counter true) chunk = some p := by
  simp only [openChunk] at h
  split at h
  · simpa using h
  · split at h
    · cases h
    · simpa using h

/-- A full chunk that opens as the last does not open as one that others follow. -/
theorem apart_of_openChunk_true {chunk p : Bytes}
    (h : openChunk S key counter chunk = some (p, true)) (hfull : sealedSize ≤ chunk.length) :
    S.decrypt? key (nonce counter false) chunk = none := by
  simp only [openChunk, if_neg (Nat.not_lt.2 hfull)] at h
  split at h
  · cases h
  · assumption

/-- A payload of one chunk ends apart if that chunk opens as the last. -/
theorem LastChunkApart.of_openChunk {sealed p : Bytes}
    (hsealed : S.encrypt key (nonce counter true) p = sealed)
    (h : openChunk S key counter sealed = some (p, true)) (hlen : p.length ≤ chunkSize) :
    LastChunkApart S key counter p := by
  intro n hn
  have hn0 : n = 0 := by
    rcases n with _ | n
    · rfl
    · rw [Nat.add_mul] at hn
      simp only [chunkSize] at hn hlen
      omega
  subst hn0
  have hfull : sealedSize ≤ sealed.length := by
    rw [← hsealed, S.length_encrypt, hn, sealedSize]
    omega
  have hapart := apart_of_openChunk_true h hfull
  simpa [hsealed] using hapart

/-- A chunk sealed as the last opens as the last, unless it opens as another. -/
theorem openChunk_last {p : Bytes}
    (hopen : S.decrypt? key (nonce counter true) (S.encrypt key (nonce counter true) p) = some p)
    (hapart : p.length = chunkSize →
      S.decrypt? key (nonce counter false) (S.encrypt key (nonce counter true) p) = none)
    (hlen : p.length ≤ chunkSize) :
    openChunk S key counter (S.encrypt key (nonce counter true) p) = some (p, true) := by
  have hsize := S.length_encrypt key (nonce counter true) p
  simp only [openChunk, hopen, Option.map_some]
  split
  · rfl
  · rename_i hfull
    have hp : p.length = chunkSize := by
      simp only [hsize, sealedSize] at hfull
      omega
    rw [hapart hp]

/-- A full chunk sealed as one that others follow opens as such. -/
theorem openChunk_middle {p : Bytes}
    (hopen : S.decrypt? key (nonce counter false) (S.encrypt key (nonce counter false) p) = some p)
    (hlen : p.length = chunkSize) :
    openChunk S key counter (S.encrypt key (nonce counter false) p) = some (p, false) := by
  have hsize := S.length_encrypt key (nonce counter false) p
  simp only [openChunk, hopen]
  rw [if_neg]
  simp only [hsize, hlen, sealedSize]
  omega

/-! ## All chunks -/

/-- The sealed form of a payload is its chunks, each sealed under its nonce. -/
theorem sealFrom_eq_flatMap (plaintext : Bytes) :
    sealFrom S key counter plaintext =
      (chunksFrom counter plaintext).flatMap fun c => S.encrypt key c.1 c.2 := by
  fun_induction sealFrom S key counter plaintext with
  | case1 counter plaintext hlen =>
      rw [chunksFrom, if_pos hlen, List.flatMap_singleton]
  | case2 counter plaintext hlen ih =>
      rw [chunksFrom, if_neg hlen, List.flatMap_cons, ih]

/-- A full chunk that is followed by more is sealed on its own. -/
theorem sealFrom_append {chunk rest : Bytes} (hchunk : chunk.length = chunkSize)
    (hrest : rest ≠ []) :
    sealFrom S key counter (chunk ++ rest) =
      S.encrypt key (nonce counter false) chunk ++ sealFrom S key (counter + 1) rest := by
  have hpos : 0 < rest.length := List.length_pos_iff.2 hrest
  rw [sealFrom, if_neg]
  · rw [← hchunk, List.take_left, List.drop_left]
  · rw [List.length_append]
    omega

/-- What opens without a fault is the sealed form of what came out, a full last chunk of it opens
only as the last, and only the first chunk may have held nothing. -/
theorem sealFrom_of_openFrom {sealed p : Bytes}
    (hseal : ∀ n c m, S.decrypt? key n c = some m → S.encrypt key n m = c)
    (h : openFrom S key counter sealed = (p, none)) :
    sealFrom S key counter p = sealed ∧ LastChunkApart S key counter p ∧
      (counter ≠ 0 → p ≠ []) := by
  fun_induction openFrom S key counter sealed generalizing p with
  | case1 => cases h
  | case2 => cases h
  | case3 => cases h
  | case4 counter sealed hne htag q hq rest fault hr ih =>
      rcases of_openChunk_false hq with ⟨hfull, hdec⟩
      have htake : (sealed.take sealedSize).length = sealedSize := by
        have := List.length_take_le sealedSize sealed
        omega
      have hqlen : q.length = chunkSize := by
        have := S.length_of_decrypt hdec
        rw [htake, sealedSize] at this
        omega
      cases h
      -- a chunk that others follow is full, and what follows it holds something
      rcases ih hr with ⟨hrest, hapart, hne_rest⟩
      have hrest_ne : rest ≠ [] := hne_rest (Nat.succ_ne_zero _)
      refine ⟨?_, hapart.cons hqlen hrest_ne, ?_⟩
      · calc
          sealFrom S key counter (q ++ rest)
              = S.encrypt key (nonce counter false) q ++ sealFrom S key (counter + 1) rest :=
                sealFrom_append hqlen hrest_ne
          _ = sealed.take sealedSize ++ sealed.drop sealedSize := by
              rw [hseal _ _ _ hdec, hrest]
          _ = sealed := List.take_append_drop _ _
      · intro _ hnil
        exact hrest_ne (List.append_eq_nil_iff.1 hnil).2
  | case5 counter sealed hne htag q hq hdrop =>
      cases h
      have hle : sealed.length ≤ sealedSize := List.drop_eq_nil_iff.1 hdrop
      rw [List.take_of_length_le hle] at hq htag
      have hdec := of_openChunk_true hq
      have hlen := S.length_of_decrypt hdec
      have hsealed := hseal _ _ _ hdec
      have hq_len : q.length ≤ chunkSize := by
        simp only [sealedSize] at hle
        omega
      refine ⟨?_, .of_openChunk hsealed hq hq_len, ?_⟩
      · rw [sealFrom, if_pos hq_len, hsealed]
      · -- a chunk of nothing but a tag is refused everywhere but at the start
        intro hcounter hnil
        subst hnil
        exact htag ⟨by simpa using hlen, hcounter⟩
  | case6 => cases h

/-- The sealed form of a payload opens without a fault if each chunk of it does. -/
theorem openFrom_sealFrom {p : Bytes}
    (hopen : ∀ c ∈ chunksFrom counter p, S.decrypt? key c.1 (S.encrypt key c.1 c.2) = some c.2)
    (hapart : LastChunkApart S key counter p) (hne : counter ≠ 0 → p ≠ []) :
    openFrom S key counter (sealFrom S key counter p) = (p, none) := by
  fun_induction sealFrom S key counter p with
  | case1 counter p hlen =>
      rw [chunksFrom, if_pos hlen] at hopen
      have hsize := S.length_encrypt key (nonce counter true) p
      have hle : (S.encrypt key (nonce counter true) p).length ≤ sealedSize := by
        simp only [hsize, sealedSize]
        omega
      have hchunk : openChunk S key counter (S.encrypt key (nonce counter true) p)
          = some (p, true) := by
        refine openChunk_last (hopen _ (List.mem_singleton_self _)) ?_ hlen
        intro hfull
        simpa using hapart 0 (by simpa using hfull)
      rw [openFrom, if_neg, if_neg, List.take_of_length_le hle, hchunk]
      · simp [List.drop_of_length_le hle]
      · rw [List.take_of_length_le hle, hsize]
        rintro ⟨htag, hcounter⟩
        have hpos : 0 < p.length := List.length_pos_iff.2 (hne hcounter)
        omega
      · rw [← List.length_eq_zero_iff, hsize]
        simp [tagSize]
  | case2 counter p hlen ih =>
      rw [chunksFrom, if_neg hlen] at hopen
      have htake : (p.take chunkSize).length = chunkSize := by
        simp only [List.length_take]
        omega
      have hsize : (S.encrypt key (nonce counter false) (p.take chunkSize)).length = sealedSize := by
        rw [S.length_encrypt, htake, sealedSize]
      have hrest : p.drop chunkSize ≠ [] := by
        rw [← List.length_pos_iff, List.length_drop]
        omega
      have hih := ih (fun c hc => hopen c (List.mem_cons_of_mem _ hc)) (hapart.drop (by omega))
        (fun _ => hrest)
      rw [openFrom, if_neg, if_neg, List.take_left' hsize, List.drop_left' hsize,
        openChunk_middle (hopen _ (List.mem_cons_self ..)) htake]
      · simp only [hih, List.take_append_drop]
      · rw [List.take_left' hsize, hsize]
        simp [sealedSize, chunkSize]
      · rw [← List.length_eq_zero_iff, List.length_append, hsize]
        simp [sealedSize, chunkSize]

/-- A payload that was sealed opens to what it was, complete. -/
theorem openAll_sealAll (hopen : S.OpensSealed) {p : Bytes} (hapart : LastChunkApart S key 0 p) :
    openAll S key (sealAll S key p) = (p, none) :=
  openFrom_sealFrom (fun _ _ => hopen _ _ _) hapart (fun h => absurd rfl h)

/-- The transparent suite tells the last chunk from the others. -/
theorem transparent_lastChunkApart (key : Block 32) (counter : Nat) (plaintext : Bytes) :
    LastChunkApart .transparent key counter plaintext := by
  intro n _
  apply Suite.transparent_decrypt?_encrypt_eq_none
  intro htag
  have hnonce : nonce (counter + n) true = nonce (counter + n) false :=
    Block.ext (List.append_cancel_right htag)
  have hmark := (nonce_inj hnonce).1
  cases hmark

end Payload
end AgeCrypt
