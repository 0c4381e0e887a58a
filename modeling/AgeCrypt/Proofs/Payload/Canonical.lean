import AgeCrypt.Proofs.Payload.Reading
import AgeCrypt.Proofs.Payload.Writing

/-!
# One sealed form for each payload

The sealed form of a payload, said without a recursion: the payload is cut into full chunks and a
last one (`Cut`), the full chunks are sealed under the numbers 0, 1, 2, … and the last under the
number that is next, marked as last (`sealedCut`).  A cut exists (`exists_cut`), and `sealFrom`
follows it (`Cut.sealFrom_eq`).

A payload reader accepts exactly what a payload writer leaves, and both agree with that form
(`accepts_iff_leaves`).
-/

namespace AgeCrypt
namespace Payload

open Crypto

/-- `plaintext` cut into full chunks and a last one, which is empty only if there is nothing to
cut. -/
structure Cut (plaintext : Bytes) (full : List Bytes) (last : Bytes) : Prop where
  -- The chunks make up the plaintext.
  flatten_append : full.flatten ++ last = plaintext
  length_eq : ∀ chunk ∈ full, chunk.length = chunkSize
  -- The last chunk may be shorter.
  length_le : last.length ≤ chunkSize
  -- The last chunk holds something if the plaintext does.
  eq_nil : last = [] → plaintext = []

/-- Full chunks sealed in their order from `counter` on, and a last one sealed as such. -/
def sealedCut (S : Suite) (key : Block 32) (counter : Nat) (full : List Bytes) (last : Bytes) :
    Bytes :=
  (full.mapIdx fun i chunk => S.encrypt key (nonce (counter + i) false) chunk).flatten
    ++ S.encrypt key (nonce (counter + full.length) true) last

variable {S : Suite} {key : Block 32} {counter : Nat}

theorem sealedCut_cons (chunk : Bytes) (full : List Bytes) (last : Bytes) :
    sealedCut S key counter (chunk :: full) last =
      S.encrypt key (nonce counter false) chunk ++ sealedCut S key (counter + 1) full last := by
  simp only [sealedCut, List.mapIdx_cons, List.flatten_cons, List.length_cons, List.append_assoc,
    Nat.add_zero, Nat.add_assoc, Nat.add_comm 1]

/-- Every plaintext can be cut. -/
theorem exists_cut (plaintext : Bytes) : ∃ full last, Cut plaintext full last := by
  by_cases hlen : plaintext.length ≤ chunkSize
  · exact ⟨[], plaintext, rfl, by simp, hlen, id⟩
  · have hdrop : (plaintext.drop chunkSize).length < plaintext.length := by
      simp only [List.length_drop, chunkSize] at hlen ⊢
      omega
    rcases exists_cut (plaintext.drop chunkSize) with ⟨full, last, hcut⟩
    refine ⟨plaintext.take chunkSize :: full, last, ?_, ?_, hcut.length_le, ?_⟩
    · rw [List.flatten_cons, List.append_assoc, hcut.flatten_append, List.take_append_drop]
    · intro chunk hmem
      rcases List.mem_cons.1 hmem with rfl | hmem
      · exact List.length_take_of_le (Nat.le_of_not_le hlen)
      · exact hcut.length_eq chunk hmem
    · intro hnil
      have := hcut.eq_nil hnil
      rw [List.drop_eq_nil_iff] at this
      exact absurd this hlen
termination_by plaintext.length
decreasing_by exact hdrop

/-- A payload is sealed along its cut. -/
theorem Cut.sealFrom_eq {plaintext last : Bytes} {full : List Bytes} (h : Cut plaintext full last) :
    sealFrom S key counter plaintext = sealedCut S key counter full last := by
  induction full generalizing plaintext counter with
  | nil =>
      have hplain : last = plaintext := h.flatten_append
      subst hplain
      rw [sealFrom, if_pos h.length_le]
      rfl
  | cons chunk full ih =>
      have hchunk : chunk.length = chunkSize := h.length_eq chunk (List.mem_cons_self ..)
      have hplain : plaintext = chunk ++ (full.flatten ++ last) := by
        rw [← h.flatten_append, List.flatten_cons, List.append_assoc]
      -- a last chunk of nothing is for an empty plaintext alone, and there is a full chunk
      have hne : last ≠ [] := by
        intro hnil
        have hlen := congrArg List.length (hplain.symm.trans (h.eq_nil hnil))
        simp [hchunk, chunkSize] at hlen
      have hrest : full.flatten ++ last ≠ [] := by
        simp [hne]
      have hcut : Cut (full.flatten ++ last) full last :=
        ⟨rfl, fun c hc => h.length_eq c (List.mem_cons_of_mem _ hc), h.length_le,
          fun hnil => absurd hnil hne⟩
      calc
        sealFrom S key counter plaintext
            = S.encrypt key (nonce counter false) chunk
                ++ sealFrom S key (counter + 1) (full.flatten ++ last) := by
            rw [hplain, sealFrom_append hchunk hrest]
        _ = S.encrypt key (nonce counter false) chunk ++ sealedCut S key (counter + 1) full last := by
            rw [ih hcut]
        _ = sealedCut S key counter (chunk :: full) last := (sealedCut_cons chunk full last).symm

/-- `sealed` is `plaintext` in sealed form: cut into chunks, and each sealed under its number. -/
def SealedAs (S : Suite) (key : Block 32) (plaintext sealed : Bytes) : Prop :=
  ∃ full last, Cut plaintext full last ∧ sealed = sealedCut S key 0 full last

/-- There is just one way to cut a plaintext, so one sealed form of it. -/
theorem sealedAs_iff {plaintext sealed : Bytes} :
    SealedAs S key plaintext sealed ↔ sealed = sealAll S key plaintext := by
  constructor
  · rintro ⟨full, last, hcut, rfl⟩
    exact hcut.sealFrom_eq.symm
  · rintro rfl
    rcases exists_cut plaintext with ⟨full, last, hcut⟩
    exact ⟨full, last, hcut, hcut.sealFrom_eq⟩

end Payload

namespace PayloadReader

open Crypto Payload ByteSource PayloadWriter

/-- A payload reader accepts exactly what a payload writer leaves.  Whatever the pieces in which the
writer takes a plaintext, it leaves the one sealed form of it; a reader over any source that gives
that form hands the plaintext out and ends, and it does so over no other bytes.

From acceptance to the sealed form only `SealsOpened` is used, and it follows that the end of the
payload shows.  The way back uses `OpensSealed` and that. -/
theorem accepts_iff_leaves {S : Suite} {σ : Type} [ByteSource σ] {source : σ} {sealed : Bytes}
    (hsource : Delivers source sealed) (key : Block 32) (pieces : List Bytes) :
    (Leaves S key pieces sealed ↔ SealedAs S key pieces.flatten sealed) ∧
      (S.SealsOpened → (∃ r, readToEnd (start S key source) = (.ok pieces.flatten, r)) →
        Leaves S key pieces sealed ∧ LastChunkApart S key 0 pieces.flatten) ∧
      (S.OpensSealed → LastChunkApart S key 0 pieces.flatten → Leaves S key pieces sealed →
        ∃ r, readToEnd (start S key source) = (.ok pieces.flatten, r)) := by
  refine ⟨?_, ?_, ?_⟩
  · rw [leaves_iff, sealedAs_iff]
  · intro hseal hread
    have hopened := (readToEnd_start_iff hsource).1 hread
    rcases sealFrom_of_openFrom (hseal key) hopened with ⟨hsealed, hapart, -⟩
    exact ⟨leaves_iff.2 hsealed.symm, hapart⟩
  · intro hopen hapart hleaves
    rw [readToEnd_start_iff hsource, leaves_iff.1 hleaves]
    exact openAll_sealAll hopen hapart

/-- Two full chunks in uneven pieces, under the transparent suite. -/
theorem accepts_iff_leaves_two_chunks :
    SealedAs .transparent (Block.zeros 32) (List.replicate 1 7 ++ List.replicate 131071 8)
        (sealAll .transparent (Block.zeros 32)
          (List.replicate 1 7 ++ List.replicate 131071 8)) ∧
      ∃ r, readToEnd (start .transparent (Block.zeros 32) (ScriptedSource.ofBytes
          (sealAll .transparent (Block.zeros 32)
            (List.replicate 1 7 ++ List.replicate 131071 8)))) =
        (.ok (List.replicate 1 7 ++ List.replicate 131071 8), r) := by
  have hflatten : ([List.replicate 1 7, List.replicate 131071 8] : List Bytes).flatten =
      List.replicate 1 7 ++ List.replicate 131071 8 := by
    simp only [List.flatten_cons, List.flatten_nil, List.append_nil]
  have hleaves : Leaves .transparent (Block.zeros 32)
      [List.replicate 1 7, List.replicate 131071 8]
      (sealAll .transparent (Block.zeros 32) (List.replicate 1 7 ++ List.replicate 131071 8)) := by
    rw [leaves_iff, hflatten]
  have haccepts := accepts_iff_leaves (S := .transparent) (ScriptedSource.delivers_ofBytes
      (sealAll .transparent (Block.zeros 32) (List.replicate 1 7 ++ List.replicate 131071 8)))
    (Block.zeros 32) [List.replicate 1 7, List.replicate 131071 8]
  rw [hflatten] at haccepts
  rcases haccepts with ⟨hsealed, -, hread⟩
  exact ⟨hsealed.1 hleaves,
    hread Suite.transparent_opensSealed (transparent_lastChunkApart _ _ _) hleaves⟩

end PayloadReader
end AgeCrypt
