import AgeCrypt.Proofs.Io.Lines

/-!
# Sources that are read alike

Two sources are mirrored if each read answers the same from both, errors included, and leaves them
mirrored.  What is built over a source by reading it cannot tell mirrored ones apart, and sources
that hold the same bytes cannot be told apart by the loops over them, though their single reads
differ.  Both come together in two relations:

* `Level` — two sources whose full reads answer alike, now and ever after (`Level.readFull`);
* `Abreast` — two buffered sources whose lines are read alike, too (`Abreast.readLine`).
-/

namespace AgeCrypt

/-- The same answer, by states that are related afterwards. -/
inductive Paired {σ τ : Type} (R : σ → τ → Prop) {α : Type} : α × σ → α × τ → Prop where
  | intro {x : α} {s : σ} {t : τ} (h : R s t) : Paired R (x, s) (x, t)

theorem Paired.mono {σ τ α : Type} {R R' : σ → τ → Prop} {x : α × σ} {y : α × τ}
    (h : Paired R x y) (hrel : ∀ s t, R s t → R' s t) : Paired R' x y := by
  cases h with
  | intro h => exact .intro (hrel _ _ h)

namespace ByteSource

variable {σ τ : Type} [ByteSource σ] [ByteSource τ]

/-! ## Mirrored sources -/

/-- Reads of both sources answer alike, now and ever after. -/
def Mirrored (s : σ) (t : τ) : Prop :=
  ∃ R : σ → τ → Prop, R s t ∧ ∀ s t n, R s t → Paired R (read s n) (read t n)

namespace Mirrored

variable {s : σ} {t : τ}

/-- A relation that every read keeps shows that sources are mirrored. -/
theorem of_invariant (R : σ → τ → Prop) (hstep : ∀ s t n, R s t → Paired R (read s n) (read t n))
    (h : R s t) : Mirrored s t :=
  ⟨R, h, hstep⟩

theorem read (h : Mirrored s t) (n : Nat) :
    Paired Mirrored (ByteSource.read s n) (ByteSource.read t n) := by
  rcases h with ⟨R, hst, hstep⟩
  have hread := hstep s t n hst
  generalize ByteSource.read s n = answered at hread ⊢
  generalize ByteSource.read t n = answered' at hread ⊢
  cases hread with
  | intro h => exact .intro (of_invariant R hstep h)

end Mirrored

/-- One round of a full read. -/
theorem readFullFrom_eq (s : σ) {n : Nat} (hn : n ≠ 0) (acc : Array UInt8) :
    readFullFrom s n acc =
      match read s n with
      | (.ok [], t) => (.ok acc, t)
      | (.ok (x :: b), t) => readFullFrom t (n - (x :: b).length) (acc ++ (x :: b))
      | (.error e, t) => if e.isInterrupted then readFullFrom t n acc else (.error e, t) := by
  rw [readFullFrom, if_neg hn]
  split
  · rename_i h
    rw [h]
  · rename_i h
    rw [h]
  · rename_i h
    rw [h]

/-- Sources that answer alike answer full reads alike. -/
theorem Mirrored.readFullFrom {s : σ} {t : τ} (h : Mirrored s t) (n : Nat) (acc : Array UInt8) :
    Paired Mirrored (readFullFrom s n acc) (readFullFrom t n acc) := by
  by_cases hn : n = 0
  · rw [ByteSource.readFullFrom, ByteSource.readFullFrom, if_pos hn, if_pos hn]
    exact .intro h
  have hread := h.read n
  rw [readFullFrom_eq s hn, readFullFrom_eq t hn]
  cases hr : ByteSource.read s n with
  | mk answer s' =>
      rw [hr] at hread
      generalize ByteSource.read t n = answered at hread ⊢
      cases hread with
      | intro h =>
          cases answer with
          | error e =>
              dsimp only
              split
              · rename_i hi
                have hless : weight s' < weight s := by
                  have hpaid := weight_of_error hr
                  rw [if_pos hi] at hpaid
                  exact hpaid
                exact h.readFullFrom n acc
              · exact .intro h
          | ok got =>
              cases got with
              | nil => exact .intro h
              | cons x got =>
                  have hless : weight s' < weight s := by
                    have hpaid := weight_of_ok hr
                    rw [List.length_cons] at hpaid
                    omega
                  exact h.readFullFrom _ _
termination_by weight s
decreasing_by
  all_goals exact hless

/-! ## Full reads -/

/-- Two sources that full reads cannot tell apart: they deliver the same, or are mirrored. -/
inductive Level : σ → τ → Prop where
  | delivering {s : σ} {t : τ} {data : Bytes} (hs : Delivers s data) (ht : Delivers t data) :
      Level s t
  | mirrored {s : σ} {t : τ} (h : Mirrored s t) : Level s t

namespace Level

variable {s : σ} {t : τ}

/-- Full reads do not show in which portions bytes come. -/
theorem readFull (h : Level s t) (n : Nat) : Paired Level (readFull s n) (readFull t n) := by
  cases h with
  | delivering hs ht =>
      rcases readFull_of_delivers hs n with ⟨s', hs', hs_rest⟩
      rcases readFull_of_delivers ht n with ⟨t', ht', ht_rest⟩
      rw [hs', ht']
      exact .intro (.delivering hs_rest ht_rest)
  | mirrored h => exact (h.readFullFrom n #[]).mono fun _ _ => .mirrored

theorem readExact (h : Level s t) (n : Nat) : Paired Level (readExact s n) (readExact t n) := by
  have hread := h.readFull n
  unfold ByteSource.readExact
  generalize ByteSource.readFull s n = answered at hread ⊢
  generalize ByteSource.readFull t n = answered' at hread ⊢
  cases hread with
  | @intro answer s t h =>
      cases answer with
      | error e => exact .intro h
      | ok got =>
          dsimp only
          cases Block.ofBytes? n got.toList <;> exact .intro h

end Level

/-! ## Reading to the end -/

/-- A source that has been read to its end delivers nothing more. -/
theorem delivers_of_readToEndFrom {s t : σ} {g : Gathering} {acc got : Array UInt8} {data : Bytes}
    (h : Delivers s data) (hg : 0 < g.limit) (hr : readToEndFrom s g acc = (.ok got, t)) :
    Delivers t [] := by
  fun_induction readToEndFrom s g acc generalizing data with
  | case1 s g acc u hread =>
      cases hr
      rcases h.of_read_ok hread with ⟨hend, rest, hdata, hrest⟩
      rcases hend rfl with h0 | ⟨rfl, -⟩
      · exact absurd h0 (Gathering.request_ne_zero hg _)
      · rw [List.nil_append] at hdata
        rw [hdata]
        exact hrest
  | case2 s g acc x b u hread ih =>
      rcases h.of_read_ok hread with ⟨-, rest, -, hrest⟩
      exact ih hrest (Gathering.limit_accept hg _ _) hr
  | case3 s g acc e u hread hi ih =>
      rcases h.of_read_error hread with ⟨-, hu⟩ | ⟨-, -, hnone, -⟩
      · exact ih hu hg hr
      · cases hnone
  | case4 => cases hr

end ByteSource

/-! ## Buffered sources -/

namespace Buffered

open ByteSource

variable {σ τ : Type} [ByteSource σ] [ByteSource τ] {a : Buffered σ} {b : Buffered τ}
  {data : Bytes}

/-- Buffered sources that have the same bytes in buffers of the same size, over mirrored sources. -/
inductive Reflected : Buffered σ → Buffered τ → Prop where
  | intro {s : σ} {t : τ} {capacity : Nat} {buffer : Bytes} (h : Mirrored s t) :
      Reflected { inner := s, capacity, buffer } { inner := t, capacity, buffer }

namespace Reflected

theorem fill (h : Reflected a b) : Paired Reflected a.fill b.fill := by
  cases h with
  | @intro s t capacity buffer h =>
      unfold Buffered.fill
      dsimp only
      split
      · have hread := h.read capacity
        generalize ByteSource.read s capacity = answered at hread ⊢
        generalize ByteSource.read t capacity = answered' at hread ⊢
        cases hread with
        | @intro answer s t h => cases answer <;> exact .intro (.intro h)
      · exact .intro (.intro h)

theorem consume (h : Reflected a b) (n : Nat) : Reflected (a.consume n) (b.consume n) := by
  cases h with
  | intro h => exact .intro h

theorem read (h : Reflected a b) (n : Nat) : Paired Reflected (a.read n) (b.read n) := by
  have hstored := h
  cases h with
  | @intro s t capacity buffer h =>
      unfold Buffered.read
      dsimp only
      split
      · have hread := h.read n
        generalize ByteSource.read s n = answered at hread ⊢
        generalize ByteSource.read t n = answered' at hread ⊢
        cases hread with
        | @intro answer s t h => cases answer <;> exact .intro (.intro h)
      · have hfill := hstored.fill
        generalize Buffered.fill { inner := s, capacity, buffer } = filled at hfill ⊢
        generalize Buffered.fill { inner := t, capacity, buffer } = filled' at hfill ⊢
        cases hfill with
        | @intro answer c d h =>
            cases answer with
            | error e => exact .intro h
            | ok =>
                cases h with
                | intro h => exact .intro (.intro h)

/-- Over mirrored sources buffers of the same size make mirrored sources. -/
theorem mirrored (h : Reflected a b) : Mirrored a b :=
  .of_invariant Reflected (fun _ _ n h => h.read n) h

end Reflected

/-- One round of reading through a mark. -/
theorem readThroughFrom_eq (mark : UInt8) (b : Buffered σ) {limit : Option Nat}
    (hlimit : limit ≠ some 0) (acc : Array UInt8) :
    readThroughFrom mark b limit acc =
      match b.fill with
      | (.ok (), c) =>
          if c.window limit = [] then
            (.ok acc, c)
          else if (through mark (c.window limit)).2 then
            (.ok (acc ++ (through mark (c.window limit)).1),
              c.consume (through mark (c.window limit)).1.length)
          else
            readThroughFrom mark (c.consume (through mark (c.window limit)).1.length)
              (limit.map (· - (through mark (c.window limit)).1.length))
              (acc ++ (through mark (c.window limit)).1)
      | (.error e, c) =>
          if e.isInterrupted then readThroughFrom mark c limit acc else (.error e, c) := by
  rw [readThroughFrom, if_neg hlimit]
  split
  · rename_i h
    rw [h]
    dsimp only
    split <;> rfl
  · rename_i h
    rw [h]

/-- Reading through a mark fills both buffers at the same moments. -/
theorem Reflected.readThroughFrom {a : Buffered σ} {b : Buffered τ} (h : Reflected a b)
    (mark : UInt8) (limit : Option Nat) (acc : Array UInt8) :
    Paired Reflected (readThroughFrom mark a limit acc) (readThroughFrom mark b limit acc) := by
  by_cases hlimit : limit = some 0
  · rw [Buffered.readThroughFrom, Buffered.readThroughFrom, if_pos hlimit, if_pos hlimit]
    exact .intro h
  have hfill := h.fill
  rw [readThroughFrom_eq mark a hlimit, readThroughFrom_eq mark b hlimit]
  cases hf : a.fill with
  | mk answer c =>
      rw [hf] at hfill
      generalize b.fill = filled at hfill ⊢
      cases hfill with
      | @intro _ _ d h =>
          cases answer with
          | error e =>
              dsimp only
              split
              · rename_i hi
                have hless : c.weight < a.weight := by
                  have hpaid := weight_fill_error hf
                  rw [if_pos hi] at hpaid
                  exact hpaid
                exact h.readThroughFrom mark limit acc
              · exact .intro h
          | ok =>
              have hwindow : d.window limit = c.window limit := by
                cases h with
                | intro h => cases limit <;> rfl
              dsimp only
              rw [hwindow]
              split
              · exact .intro h
              · rename_i hne
                split
                · exact .intro (h.consume _)
                · have hless : (c.consume (through mark (c.window limit)).1.length).weight <
                      a.weight := by
                    have hpaid := weight_fill_ok hf
                    have hpos : 0 < (through mark (c.window limit)).1.length :=
                      List.length_pos_iff.2 (through_ne_nil hne)
                    have htaken := length_through_le mark (c.window limit)
                    have hroom := length_window_le c limit
                    simp only [weight, Buffered.consume, List.length_drop] at hpaid ⊢
                    omega
                  exact (h.consume _).readThroughFrom mark _ _
termination_by a.weight
decreasing_by
  all_goals exact hless

/-- Two buffered sources that cannot be told apart by their lines and by full reads: they hold the
same, or have the same in front of mirrored sources. -/
inductive Abreast : Buffered σ → Buffered τ → Prop where
  | holding {a : Buffered σ} {b : Buffered τ} {data : Bytes} (ha : a.Holds data)
      (hb : b.Holds data) : Abreast a b
  | reflected {a : Buffered σ} {b : Buffered τ} (h : Reflected a b) : Abreast a b

namespace Abreast

theorem level (h : Abreast a b) : Level a b := by
  cases h with
  | holding ha hb => exact .delivering ha.delivers hb.delivers
  | reflected h => exact .mirrored h.mirrored

/-- Lines do not show in which portions bytes come. -/
theorem readLine (h : Abreast a b) (limit : Option Nat) :
    Paired Abreast (a.readLine limit) (b.readLine limit) := by
  cases h with
  | holding ha hb =>
      rcases ha.readLine limit with ⟨c, ⟨hc, hc_holds⟩ | ⟨e, -, hend, -⟩⟩
      · rcases hb.readLine limit with ⟨d, ⟨hd, hd_holds⟩ | ⟨e, -, hend, -⟩⟩
        · rw [hc, hd]
          exact .intro (.holding hc_holds hd_holds)
        · cases hend
      · cases hend
  | reflected h =>
      have hread := h.readThroughFrom Ascii.newline limit #[]
      unfold Buffered.readLine readThrough
      generalize Buffered.readThroughFrom Ascii.newline a limit #[] = answered at hread ⊢
      generalize Buffered.readThroughFrom Ascii.newline b limit #[] = answered' at hread ⊢
      cases hread with
      | @intro answer a b h => cases answer <;> exact .intro (.reflected h)

end Abreast

/-- Reading all that is held leaves nothing. -/
theorem Holds.readToEnd_ok (h : a.Holds data) :
    ∃ c, a.readToEnd = (.ok data, c) ∧ c.Holds [] := by
  rcases h.readToEnd with ⟨c, hc⟩
  refine ⟨c, hc, ?_⟩
  rcases h with ⟨hcapacity, rest, -, hrest⟩
  unfold Buffered.readToEnd at hc
  split at hc
  · rename_i got t hr
    cases hc
    exact ⟨hcapacity, [], rfl, delivers_of_readToEndFrom hrest (Gathering.limit_start _) hr⟩
  · cases hc

end Buffered
end AgeCrypt
