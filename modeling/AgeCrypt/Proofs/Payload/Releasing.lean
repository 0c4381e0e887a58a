import AgeCrypt.Proofs.Payload.Decoding

/-!
# Releasing a payload that may break off

`releaseFrom` says what comes out of sealed bytes that are followed by the end of input or by an
error: the plaintext of the chunks that authenticate one after another, and what stops that, if the
payload is not read to the end of its last chunk.  A chunk is released only as a whole; a chunk that
breaks off is not, and neither is a last chunk that something follows, were it only an error.

What is released is told by what opens and what is refused (`releases_iff`): each chunk opens under
its own number, and where the reading stopped, the next one is refused.  Where the sealed bytes end
with the input, it is what they decode to (`releaseFrom_none`).
-/

namespace AgeCrypt
namespace Payload

open Crypto PayloadReader

/-- The plaintext of chunks in order, and what stopped the reading behind them; `none` where it went
to the end of the last chunk. -/
structure Released where
  chunks : List Bytes
  stop : Option IoError
deriving DecidableEq

/-- The last chunk is released if the input ends behind it. -/
def releaseLast (p : Bytes) : (behind : Bytes) → (ending : Option IoError) → Released
  | [], none => ⟨[p], none⟩
  | [], some e => ⟨[], some e⟩
  | _ :: _, _ => ⟨[], some (.payload .trailingData)⟩

/-- What is released of sealed bytes that `ending` follows, from chunk `counter` on. -/
def releaseFrom (S : Suite) (key : Block 32) (counter : Nat) (sealed : Bytes)
    (ending : Option IoError) : Released :=
  let segment := sealed.take sealedSize
  if segment.length < sealedSize then
    -- The segment goes as far as the sealed bytes.
    match ending with
    | some e => ⟨[], some e⟩
    | none =>
        if segment = [] then
          ⟨[], some (.payload .truncated)⟩
        else if segment.length = tagSize ∧ counter ≠ 0 then
          ⟨[], some (.payload .lastChunkEmpty)⟩
        else
          match S.decrypt? key (nonce counter true) segment with
          | some p => ⟨[p], none⟩
          | none => ⟨[], some (.payload .unauthentic)⟩
  else
    match S.decrypt? key (nonce counter false) segment with
    | some p =>
        let later := releaseFrom S key (counter + 1) (sealed.drop sealedSize) ending
        ⟨p :: later.chunks, later.stop⟩
    | none =>
        match S.decrypt? key (nonce counter true) segment with
        | none => ⟨[], some (.payload .unauthentic)⟩
        | some p => releaseLast p (sealed.drop sealedSize) ending
termination_by sealed.length
decreasing_by
  have hfull : ¬ (sealed.take sealedSize).length < sealedSize := by
    assumption
  simp only [List.length_take, List.length_drop, sealedSize, chunkSize] at hfull ⊢
  omega

variable {S : Suite} {key : Block 32} {counter : Nat} {sealed : Bytes} {ending : Option IoError}

/-! ## One segment at a time -/

theorem length_take_sealedSize_lt_iff :
    (sealed.take sealedSize).length < sealedSize ↔ sealed.length < sealedSize := by
  rw [List.length_take]
  omega

theorem not_length_take_sealedSize_lt_iff :
    ¬ (sealed.take sealedSize).length < sealedSize ↔ sealedSize ≤ sealed.length := by
  rw [length_take_sealedSize_lt_iff, Nat.not_lt]

/-- A segment that breaks off releases nothing. -/
theorem releaseFrom_of_short (h : sealed.length < sealedSize) (e : IoError) :
    releaseFrom S key counter sealed (some e) = ⟨[], some e⟩ := by
  rw [releaseFrom]
  exact if_pos (length_take_sealedSize_lt_iff.2 h)

theorem releaseFrom_nil : releaseFrom S key counter [] none = ⟨[], some (.payload .truncated)⟩ := by
  rw [releaseFrom]
  rfl

/-- A chunk with nothing in it is refused unless it is the first. -/
theorem releaseFrom_of_empty (hne : sealed ≠ [])
    (h : (sealed.take sealedSize).length = tagSize ∧ counter ≠ 0) :
    releaseFrom S key counter sealed none = ⟨[], some (.payload .lastChunkEmpty)⟩ := by
  have hshort : (sealed.take sealedSize).length < sealedSize := by
    rw [h.1]
    decide
  rw [releaseFrom, if_pos hshort, if_neg (mt take_sealedSize_eq_nil_iff.1 hne), if_pos h]

/-- A segment that is neither missing nor empty, and does not break off, is released as the reader
opens it. -/
theorem releaseFrom_of_openChunk (hne : sealed ≠ [])
    (h : ¬ ((sealed.take sealedSize).length = tagSize ∧ counter ≠ 0))
    (hn : sealedSize ≤ sealed.length ∨ ending = none) :
    releaseFrom S key counter sealed ending =
      match openChunk S key counter (sealed.take sealedSize) with
      | none => ⟨[], some (.payload .unauthentic)⟩
      | some (p, false) =>
          ⟨p :: (releaseFrom S key (counter + 1) (sealed.drop sealedSize) ending).chunks,
            (releaseFrom S key (counter + 1) (sealed.drop sealedSize) ending).stop⟩
      | some (p, true) => releaseLast p (sealed.drop sealedSize) ending := by
  rw [releaseFrom.eq_def, openChunk]
  by_cases hshort : (sealed.take sealedSize).length < sealedSize
  · have hnone : ending = none :=
      hn.resolve_left (Nat.not_le.2 (length_take_sealedSize_lt_iff.1 hshort))
    subst hnone
    rw [if_pos hshort, if_pos hshort]
    dsimp only
    rw [if_neg (mt take_sealedSize_eq_nil_iff.1 hne), if_neg h, drop_eq_nil_of_short hshort]
    cases S.decrypt? key (nonce counter true) (sealed.take sealedSize) <;> rfl
  · rw [if_neg hshort, if_neg hshort]
    cases S.decrypt? key (nonce counter false) (sealed.take sealedSize) with
    | some p => rfl
    | none => cases S.decrypt? key (nonce counter true) (sealed.take sealedSize) <;> rfl

/-! ## What is released, and why no more -/

/-- Why the chunk that sealed bytes begin with is not released. -/
inductive Refused (S : Suite) (key : Block 32) (counter : Nat) (sealed : Bytes) :
    (ending : Option IoError) → IoError → Prop where
  -- It breaks off.
  | broken {e : IoError} (hshort : sealed.length < sealedSize) :
      Refused S key counter sealed (some e) e
  | missing (hnil : sealed = []) : Refused S key counter sealed none (.payload .truncated)
  | empty (hlen : sealed.length = tagSize) (hlater : counter ≠ 0) :
      Refused S key counter sealed none (.payload .lastChunkEmpty)
  -- It opens neither as the last one nor, being full, as one that others follow.
  | unauthentic {ending : Option IoError} (hn : sealedSize ≤ sealed.length ∨ ending = none)
      (hne : sealed ≠ []) (htag : ¬ ((sealed.take sealedSize).length = tagSize ∧ counter ≠ 0))
      (hmiddle : sealedSize ≤ sealed.length →
        S.decrypt? key (nonce counter false) (sealed.take sealedSize) = none)
      (hlast : S.decrypt? key (nonce counter true) (sealed.take sealedSize) = none) :
      Refused S key counter sealed ending (.payload .unauthentic)
  -- It opens as the last one only, and is followed by bytes or by an error.
  | trailing {ending : Option IoError} {p : Bytes} (hmore : sealedSize < sealed.length)
      (hmiddle : S.decrypt? key (nonce counter false) (sealed.take sealedSize) = none)
      (hlast : S.decrypt? key (nonce counter true) (sealed.take sealedSize) = some p) :
      Refused S key counter sealed ending (.payload .trailingData)
  | brokenBehind {e : IoError} {p : Bytes} (hfull : sealed.length = sealedSize)
      (hmiddle : S.decrypt? key (nonce counter false) (sealed.take sealedSize) = none)
      (hlast : S.decrypt? key (nonce counter true) (sealed.take sealedSize) = some p) :
      Refused S key counter sealed (some e) e

/-- The chunk that sealed bytes begin with opens as `p`, and whether it is the last. -/
inductive Opened (S : Suite) (key : Block 32) (counter : Nat) (sealed p : Bytes) : Bool → Prop where
  | middle (hfull : sealedSize ≤ sealed.length)
      (hmiddle : S.decrypt? key (nonce counter false) (sealed.take sealedSize) = some p) :
      Opened S key counter sealed p false
  -- The last one is all that is left, and is empty only where it is the first.
  | last (hlen : sealed.length ≤ sealedSize)
      (hmiddle : sealedSize ≤ sealed.length →
        S.decrypt? key (nonce counter false) (sealed.take sealedSize) = none)
      (hlast : S.decrypt? key (nonce counter true) (sealed.take sealedSize) = some p)
      (hempty : p = [] → counter = 0) :
      Opened S key counter sealed p true

/-- Chunks and what stopped them are just what is released of sealed bytes that `ending` follows. -/
structure Releases (S : Suite) (key : Block 32) (counter : Nat) (sealed : Bytes)
    (ending : Option IoError) (r : Released) : Prop where
  -- Each chunk opens under its own number, as the last one just if the reading ended with it.
  opened : ∀ {i : Nat} {p : Bytes}, r.chunks[i]? = some p → ∃ last,
    Opened S key (counter + i) (sealed.drop (i * sealedSize)) p last ∧
      (last = true ↔ r.stop = none ∧ i + 1 = r.chunks.length)
  ended : r.stop = none → r.chunks ≠ [] ∧ ending = none
  -- Where the reading stopped, the chunk that comes next is refused.
  refused : ∀ {e : IoError}, r.stop = some e →
    Refused S key (counter + r.chunks.length) (sealed.drop (r.chunks.length * sealedSize)) ending e

/-- Where the first chunk is refused, nothing is released. -/
theorem Releases.of_refused {e : IoError} (h : Refused S key counter sealed ending e) :
    Releases S key counter sealed ending ⟨[], some e⟩ where
  opened := fun hp => (by cases hp)
  ended := fun hstop => (by cases hstop)
  refused := by
    intro e' he
    cases he
    simpa using h

/-- Where it is the last one, nothing else is. -/
theorem Releases.of_last {p : Bytes} (h : Opened S key counter sealed p true) :
    Releases S key counter sealed none ⟨[p], none⟩ where
  opened := by
    intro i q hq
    cases i with
    | succ i => cases hq
    | zero =>
        cases hq
        exact ⟨true, by simpa using h, fun _ => ⟨rfl, rfl⟩, fun _ => rfl⟩
  ended := fun _ => ⟨List.cons_ne_nil _ _, rfl⟩
  refused := fun he => (by cases he)

/-- The segments behind the first one are those of the bytes behind it. -/
theorem drop_drop_sealedSize (sealed : Bytes) (i : Nat) :
    (sealed.drop sealedSize).drop (i * sealedSize) = sealed.drop ((i + 1) * sealedSize) := by
  rw [List.drop_drop, Nat.succ_mul, Nat.add_comm]

/-- A chunk that others follow comes before what is released of the bytes behind it. -/
theorem Releases.cons {p : Bytes} {r : Released} (hopened : Opened S key counter sealed p false)
    (h : Releases S key (counter + 1) (sealed.drop sealedSize) ending r) :
    Releases S key counter sealed ending ⟨p :: r.chunks, r.stop⟩ where
  opened := by
    intro i q hq
    cases i with
    | zero =>
        cases hq
        refine ⟨false, by simpa using hopened, fun hf => (by cases hf), ?_⟩
        rintro ⟨hstop, hone⟩
        -- what follows ends with a chunk of its own
        have hnil : r.chunks.length = 0 := (Nat.succ.inj hone).symm
        exact absurd (List.length_eq_zero_iff.1 hnil) (h.ended hstop).1
    | succ i =>
        rw [List.getElem?_cons_succ] at hq
        rcases h.opened hq with ⟨last, hlater, hlast⟩
        rw [drop_drop_sealedSize, Nat.succ_add_eq_add_succ] at hlater
        exact ⟨last, hlater, by rw [hlast, List.length_cons, Nat.succ_inj]⟩
  ended := fun hstop => ⟨List.cons_ne_nil _ _, (h.ended hstop).2⟩
  refused := by
    intro e he
    have hrefused := h.refused he
    rw [drop_drop_sealedSize, Nat.succ_add_eq_add_succ] at hrefused
    exact hrefused

/-- A full chunk that opens as the last one only is all if the input ends behind it. -/
theorem releases_releaseLast {p : Bytes} (hfull : sealedSize ≤ sealed.length)
    (hmiddle : S.decrypt? key (nonce counter false) (sealed.take sealedSize) = none)
    (hlast : S.decrypt? key (nonce counter true) (sealed.take sealedSize) = some p) :
    Releases S key counter sealed ending (releaseLast p (sealed.drop sealedSize) ending) := by
  have hempty : p = [] → counter = 0 := by
    rintro rfl
    have hlen := S.length_of_decrypt hlast
    rw [List.length_take_of_le hfull] at hlen
    cases hlen
  cases hbehind : sealed.drop sealedSize with
  | nil =>
      have hlen : sealed.length ≤ sealedSize := List.drop_eq_nil_iff.1 hbehind
      cases ending with
      | none => exact .of_last (.last hlen (fun _ => hmiddle) hlast hempty)
      | some e =>
          exact .of_refused (.brokenBehind (Nat.le_antisymm hlen hfull) hmiddle hlast)
  | cons x rest =>
      have hmore : sealedSize < sealed.length := by
        refine Nat.lt_of_not_le fun hle => ?_
        rw [List.drop_eq_nil_of_le hle] at hbehind
        cases hbehind
      exact .of_refused (.trailing hmore hmiddle hlast)

/-- What is released of sealed bytes is all that can be. -/
theorem releases_releaseFrom (sealed : Bytes) (ending : Option IoError) :
    Releases S key counter sealed ending (releaseFrom S key counter sealed ending) := by
  fun_induction releaseFrom S key counter sealed ending with
  | case1 counter sealed segment hshort e hending =>
      rw [hending]
      exact .of_refused (.broken (length_take_sealedSize_lt_iff.1 hshort))
  | case2 counter sealed segment hshort hending hnil =>
      rw [hending]
      exact .of_refused (.missing (take_sealedSize_eq_nil_iff.1 hnil))
  | case3 counter sealed segment hshort hending hne htag =>
      have hsegment : segment = sealed :=
        List.take_of_length_le (Nat.le_of_lt (length_take_sealedSize_lt_iff.1 hshort))
      rw [hsegment] at htag
      rw [hending]
      exact .of_refused (.empty htag.1 htag.2)
  | case4 counter sealed segment hshort hending hne htag p hlast =>
      rw [hending]
      have hlen := length_take_sealedSize_lt_iff.1 hshort
      refine .of_last (.last (Nat.le_of_lt hlen) ?_ hlast ?_)
      · exact fun hfull => absurd hlen (Nat.not_lt.2 hfull)
      · rintro rfl
        exact Decidable.not_not.1 fun hlater => htag ⟨S.length_of_decrypt hlast, hlater⟩
  | case5 counter sealed segment hshort hending hne htag hlast =>
      have hlen := length_take_sealedSize_lt_iff.1 hshort
      exact .of_refused (.unauthentic (.inr hending) (mt take_sealedSize_eq_nil_iff.2 hne) htag
        (fun hfull => absurd hlen (Nat.not_lt.2 hfull)) hlast)
  | case6 counter sealed segment hfull p hmiddle later ih =>
      exact ih.cons (.middle (not_length_take_sealedSize_lt_iff.1 hfull) hmiddle)
  | case7 counter sealed segment hfull hmiddle hlast =>
      have hlen := not_length_take_sealedSize_lt_iff.1 hfull
      refine .of_refused (.unauthentic (.inl hlen) ?_ ?_ (fun _ => hmiddle) hlast)
      · rintro rfl
        exact absurd hlen (by decide)
      · rw [List.length_take_of_le hlen]
        exact fun h => absurd h.1 (by decide)
  | case8 counter sealed segment hfull hmiddle p hlast =>
      exact releases_releaseLast (not_length_take_sealedSize_lt_iff.1 hfull) hmiddle hlast

/-! ### Nothing else is -/

theorem releaseFrom_of_refused {e : IoError} (h : Refused S key counter sealed ending e) :
    releaseFrom S key counter sealed ending = ⟨[], some e⟩ := by
  cases h with
  | broken hshort => exact releaseFrom_of_short hshort e
  | missing hnil => rw [hnil, releaseFrom_nil]
  | empty hlen hlater =>
      have hne : sealed ≠ [] := by
        rintro rfl
        cases hlen
      have hsegment : sealed.take sealedSize = sealed := by
        refine List.take_of_length_le ?_
        rw [hlen]
        decide
      exact releaseFrom_of_empty hne ⟨by rw [hsegment, hlen], hlater⟩
  | unauthentic hn hne htag hmiddle hlast =>
      have hrefused : openChunk S key counter (sealed.take sealedSize) = none := by
        rw [openChunk, hlast]
        split
        · rfl
        · rename_i hfull
          rw [hmiddle (not_length_take_sealedSize_lt_iff.1 hfull)]
          rfl
      rw [releaseFrom_of_openChunk hne htag hn, hrefused]
  | trailing hmore hmiddle hlast =>
      have hfull : ¬ (sealed.take sealedSize).length < sealedSize :=
        not_length_take_sealedSize_lt_iff.2 (Nat.le_of_lt hmore)
      have hbehind : 0 < (sealed.drop sealedSize).length := by
        rw [List.length_drop]
        exact Nat.sub_pos_of_lt hmore
      rcases List.exists_cons_of_length_pos hbehind with ⟨x, rest, hcons⟩
      rw [releaseFrom.eq_def, if_neg hfull, hmiddle, hlast, hcons]
      rfl
  | brokenBehind hlen hmiddle hlast =>
      have hfull : ¬ (sealed.take sealedSize).length < sealedSize :=
        not_length_take_sealedSize_lt_iff.2 (Nat.le_of_eq hlen.symm)
      rw [releaseFrom, if_neg hfull, hmiddle, hlast, List.drop_eq_nil_of_le (Nat.le_of_eq hlen)]
      rfl

theorem releaseFrom_of_last {p : Bytes} (h : Opened S key counter sealed p true) :
    releaseFrom S key counter sealed none = ⟨[p], none⟩ := by
  cases h with
  | last hlen hmiddle hlast hempty =>
      have hsize := S.length_of_decrypt hlast
      rw [releaseFrom, hlast]
      dsimp only
      split
      · have hne : sealed.take sealedSize ≠ [] := by
          intro hnil
          rw [hnil] at hsize
          exact absurd hsize.symm (Nat.succ_ne_zero _)
        have htag : ¬ ((sealed.take sealedSize).length = tagSize ∧ counter ≠ 0) := by
          rintro ⟨htag, hlater⟩
          have hnil : p.length = 0 := by omega
          exact hlater (hempty (List.length_eq_zero_iff.1 hnil))
        rw [if_neg hne, if_neg htag]
      · rename_i hfull
        rw [hmiddle (not_length_take_sealedSize_lt_iff.1 hfull),
          List.drop_eq_nil_of_le hlen]
        rfl

/-- A chunk that others follow is released before they are looked at. -/
theorem releaseFrom_of_middle {p : Bytes} (h : Opened S key counter sealed p false) :
    releaseFrom S key counter sealed ending =
      ⟨p :: (releaseFrom S key (counter + 1) (sealed.drop sealedSize) ending).chunks,
        (releaseFrom S key (counter + 1) (sealed.drop sealedSize) ending).stop⟩ := by
  cases h with
  | middle hfull hmiddle =>
      rw [releaseFrom.eq_def, if_neg (not_length_take_sealedSize_lt_iff.2 hfull), hmiddle]

/-- Behind a chunk that others follow, the rest is released of the bytes behind it. -/
theorem Releases.tail {p : Bytes} {chunks : List Bytes} {stop : Option IoError}
    (h : Releases S key counter sealed ending ⟨p :: chunks, stop⟩)
    (hmore : ¬ (stop = none ∧ chunks = [])) :
    Releases S key (counter + 1) (sealed.drop sealedSize) ending ⟨chunks, stop⟩ where
  opened := by
    intro i q hq
    rcases h.opened (i := i + 1) hq with ⟨last, hopened, hlast⟩
    rw [← drop_drop_sealedSize, ← Nat.succ_add_eq_add_succ] at hopened
    exact ⟨last, hopened, by rw [hlast, List.length_cons, Nat.succ_inj]⟩
  ended := fun hstop => ⟨fun hnil => hmore ⟨hstop, hnil⟩, (h.ended hstop).2⟩
  refused := by
    intro e he
    have hrefused := h.refused he
    rw [List.length_cons, ← drop_drop_sealedSize, ← Nat.succ_add_eq_add_succ] at hrefused
    exact hrefused

/-- Chunks that open one after another, up to one that is refused, are what is released. -/
theorem Releases.eq_releaseFrom {r : Released} (h : Releases S key counter sealed ending r) :
    r = releaseFrom S key counter sealed ending := by
  rcases r with ⟨chunks, stop⟩
  induction chunks generalizing counter sealed with
  | nil =>
      cases stop with
      | none => exact absurd rfl (h.ended rfl).1
      | some e => exact (releaseFrom_of_refused (by simpa using h.refused rfl)).symm
  | cons p chunks ih =>
      rcases h.opened (i := 0) rfl with ⟨last, hopened, hlast⟩
      rw [Nat.add_zero, Nat.zero_mul, List.drop_zero] at hopened
      cases last with
      | true =>
          rcases hlast.1 rfl with ⟨hstop, hone⟩
          have hnil : chunks = [] := List.length_eq_zero_iff.1 (Nat.succ.inj hone).symm
          have hending := (h.ended hstop).2
          subst hnil hstop hending
          exact (releaseFrom_of_last hopened).symm
      | false =>
          have hmore : ¬ (stop = none ∧ chunks = []) := by
            rintro ⟨hstop, rfl⟩
            cases hlast.2 ⟨hstop, rfl⟩
          rw [releaseFrom_of_middle hopened, ← ih (h.tail hmore)]

/-- What is released is told by what opens and what is refused. -/
theorem releases_iff {r : Released} :
    Releases S key counter sealed ending r ↔ r = releaseFrom S key counter sealed ending :=
  ⟨Releases.eq_releaseFrom, fun h => h ▸ releases_releaseFrom sealed ending⟩

/-- Sealed bytes that end with the input release what they decode to. -/
theorem releaseFrom_none (sealed : Bytes) :
    releaseFrom S key counter sealed none =
      ⟨(decodeFrom S key counter sealed).chunks,
        (decodeFrom S key counter sealed).fault.map .payload⟩ := by
  -- both go segment by segment, as the payload is opened
  fun_induction openFrom S key counter sealed with
  | case1 =>
      rw [releaseFrom_nil, decodeFrom_nil]
      rfl
  | case2 counter sealed hne htag =>
      rw [releaseFrom_of_empty hne htag, decodeFrom_of_empty hne htag]
      rfl
  | case3 counter sealed hne htag hchunk =>
      rw [releaseFrom_of_openChunk hne htag (.inr rfl), decodeFrom_of_openChunk hne htag, hchunk]
      rfl
  | case4 counter sealed hne htag p hchunk rest fault hr ih =>
      rw [releaseFrom_of_openChunk hne htag (.inr rfl), decodeFrom_of_openChunk hne htag, hchunk]
      dsimp only
      rw [ih]
  | case5 counter sealed hne htag p hchunk hdrop =>
      rw [releaseFrom_of_openChunk hne htag (.inr rfl), decodeFrom_of_openChunk hne htag, hchunk]
      dsimp only
      rw [if_pos hdrop, hdrop]
      rfl
  | case6 counter sealed hne htag p hchunk hdrop =>
      rcases List.exists_cons_of_ne_nil hdrop with ⟨x, rest, hcons⟩
      rw [releaseFrom_of_openChunk hne htag (.inr rfl), decodeFrom_of_openChunk hne htag, hchunk]
      dsimp only
      rw [if_neg hdrop, hcons]
      rfl

theorem decodeFrom_eq_iff {chunks : List Bytes} {fault : Option PayloadError} :
    decodeFrom S key counter sealed = ⟨chunks, fault⟩ ↔
      releaseFrom S key counter sealed none = ⟨chunks, fault.map .payload⟩ := by
  rw [releaseFrom_none]
  constructor
  · intro h
    rw [h]
  · intro h
    rcases hdecoded : decodeFrom S key counter sealed with ⟨chunks', fault'⟩
    rw [hdecoded, Released.mk.injEq] at h
    have hfault : fault' = fault :=
      Option.map_injective (fun a b hab => IoError.payload.inj hab) h.2
    rw [show chunks' = chunks from h.1, hfault]

end Payload
end AgeCrypt
