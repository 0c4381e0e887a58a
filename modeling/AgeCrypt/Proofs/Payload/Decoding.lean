import AgeCrypt.Proofs.Payload.Opening

/-!
# Decoding a payload chunk by chunk

`decodeFrom` says how a sealed payload that lies in memory opens, segment after segment: which
chunks of plaintext come out, one for each segment, and which fault cuts them off.  It is written
from the format alone: a segment is what a full sealed chunk takes up, only a short one is known to
be the last, a full one is the last if it does not open as one that others follow.

`openFrom` gives the same chunks put together (`openFrom_eq_decodeFrom`).
-/

namespace AgeCrypt
namespace Payload

open Crypto PayloadReader

/-- What comes out of a sealed payload: the plaintext of its chunks in order, and the fault that
cuts them off; `none` where the payload is complete. -/
structure Decoded where
  chunks : List Bytes
  fault : Option PayloadError
deriving DecidableEq

def decodeFrom (S : Suite) (key : Block 32) (counter : Nat) (sealed : Bytes) : Decoded :=
  let segment := sealed.take sealedSize
  if segment = [] then
    ⟨[], some .truncated⟩
  else if segment.length = tagSize ∧ 0 < counter then
    ⟨[], some .lastChunkEmpty⟩
  else if segment.length < sealedSize then
    match S.decrypt? key (nonce counter true) segment with
    | some p => ⟨[p], none⟩
    | none => ⟨[], some .unauthentic⟩
  else
    match S.decrypt? key (nonce counter false) segment with
    | some p =>
        let later := decodeFrom S key (counter + 1) (sealed.drop sealedSize)
        ⟨p :: later.chunks, later.fault⟩
    | none =>
        match S.decrypt? key (nonce counter true) segment with
        | some p => if sealed.drop sealedSize = [] then ⟨[p], none⟩ else ⟨[], some .trailingData⟩
        | none => ⟨[], some .unauthentic⟩
termination_by sealed.length
decreasing_by
  rename_i hne _ _
  have hpos : 0 < sealed.length := by
    refine List.length_pos_iff.2 fun hnil => hne ?_
    simp only [segment, hnil, List.take_nil]
  simp only [List.length_drop, sealedSize, chunkSize]
  omega

def decodeAll (S : Suite) (key : Block 32) (sealed : Bytes) : Decoded :=
  decodeFrom S key 0 sealed

variable {S : Suite} {key : Block 32} {counter : Nat}

theorem take_sealedSize_eq_nil_iff {sealed : Bytes} :
    sealed.take sealedSize = [] ↔ sealed = [] := by
  have hsize : sealedSize ≠ 0 := by
    decide
  rw [List.take_eq_nil_iff, or_iff_right hsize]

/-- Nothing follows a segment that is not full. -/
theorem drop_eq_nil_of_short {sealed : Bytes} (h : (sealed.take sealedSize).length < sealedSize) :
    sealed.drop sealedSize = [] := by
  rw [List.length_take] at h
  exact List.drop_of_length_le (by omega)

/-! ## One segment at a time -/

theorem decodeFrom_nil : decodeFrom S key counter [] = ⟨[], some .truncated⟩ := by
  rw [decodeFrom, List.take_nil]
  exact if_pos rfl

/-- A chunk with nothing in it is refused unless it is the first. -/
theorem decodeFrom_of_empty {sealed : Bytes} (hne : sealed ≠ [])
    (h : (sealed.take sealedSize).length = tagSize ∧ counter ≠ 0) :
    decodeFrom S key counter sealed = ⟨[], some .lastChunkEmpty⟩ := by
  rw [decodeFrom, if_neg (mt take_sealedSize_eq_nil_iff.1 hne),
    if_pos ⟨h.1, Nat.pos_of_ne_zero h.2⟩]

/-- A segment that is neither missing nor empty decodes as the reader opens it. -/
theorem decodeFrom_of_openChunk {sealed : Bytes} (hne : sealed ≠ [])
    (h : ¬ ((sealed.take sealedSize).length = tagSize ∧ counter ≠ 0)) :
    decodeFrom S key counter sealed =
      match openChunk S key counter (sealed.take sealedSize) with
      | none => ⟨[], some .unauthentic⟩
      | some (p, false) =>
          ⟨p :: (decodeFrom S key (counter + 1) (sealed.drop sealedSize)).chunks,
            (decodeFrom S key (counter + 1) (sealed.drop sealedSize)).fault⟩
      | some (p, true) =>
          if sealed.drop sealedSize = [] then ⟨[p], none⟩ else ⟨[], some .trailingData⟩ := by
  have hcounter : ¬ ((sealed.take sealedSize).length = tagSize ∧ 0 < counter) := by
    rintro ⟨hlen, hpos⟩
    exact h ⟨hlen, Nat.ne_of_gt hpos⟩
  rw [decodeFrom, if_neg (mt take_sealedSize_eq_nil_iff.1 hne), if_neg hcounter, openChunk]
  by_cases hshort : (sealed.take sealedSize).length < sealedSize
  · rw [if_pos hshort, if_pos hshort]
    cases S.decrypt? key (nonce counter true) (sealed.take sealedSize) with
    | none => rfl
    | some p => exact (if_pos (drop_eq_nil_of_short hshort)).symm
  · rw [if_neg hshort, if_neg hshort]
    cases S.decrypt? key (nonce counter false) (sealed.take sealedSize) with
    | some p => rfl
    | none =>
        cases S.decrypt? key (nonce counter true) (sealed.take sealedSize) with
        | none => rfl
        | some p => rfl

/-- Opening at once gives the chunks put together. -/
theorem openFrom_eq_decodeFrom (sealed : Bytes) :
    openFrom S key counter sealed =
      ((decodeFrom S key counter sealed).chunks.flatten,
        (decodeFrom S key counter sealed).fault) := by
  fun_induction openFrom S key counter sealed with
  | case1 => rw [decodeFrom_nil]; rfl
  | case2 counter sealed hne htag => rw [decodeFrom_of_empty hne htag]; rfl
  | case3 counter sealed hne htag hchunk =>
      rw [decodeFrom_of_openChunk hne htag, hchunk]
      rfl
  | case4 counter sealed hne htag p hchunk rest fault hr ih =>
      rw [decodeFrom_of_openChunk hne htag, hchunk]
      rw [hr] at ih
      cases ih
      rfl
  | case5 counter sealed hne htag p hchunk hdrop =>
      rw [decodeFrom_of_openChunk hne htag, hchunk]
      dsimp only
      rw [if_pos hdrop]
      exact congrArg (·, none) (List.append_nil p).symm
  | case6 counter sealed hne htag p hchunk hdrop =>
      rw [decodeFrom_of_openChunk hne htag, hchunk]
      dsimp only
      rw [if_neg hdrop]
      rfl

end Payload
end AgeCrypt
