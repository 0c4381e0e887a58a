import AgeCrypt.Proofs.Payload.Drafting
import AgeCrypt.Proofs.Payload.Losing

/-!
# The numbers of sealed chunks

A nonce must not serve twice under one key.  Whatever the sink answers, the calls of a run seal the
chunks `0`, `1`, `2`, … in their order, none of them marked as last, and the end of the run seals at
most one more, which is.  A chunk that is lost keeps its number, but then nothing is sealed any
more.  Both are in `Counts`, which goes from one call to the next (`Counts.trans`).

The numbers are spelled in eleven bytes, and spelling the next one is a carry through the bytes
(`Block.increment?_ofNatBE`).
-/

namespace AgeCrypt

/-! ## Counting in bytes -/

namespace Bytes

/-- One more, with the least significant byte first, or `none` where it does not fit. -/
def incrementLE? : Bytes → Option Bytes
  | [] => none
  | x :: rest => if x + 1 ≠ 0 then some ((x + 1) :: rest) else (incrementLE? rest).map (0 :: ·)

def increment? (b : Bytes) : Option Bytes :=
  (incrementLE? b.reverse).map List.reverse

end Bytes

namespace Block

theorem bytes_ofNatLE_succ (n v : Nat) :
    (ofNatLE (n + 1) v).bytes = UInt8.ofNat v :: (ofNatLE n (v / 256)).bytes := by
  have hshift : ∀ i, v >>> (8 * (i + 1)) = (v / 256) >>> (8 * i) := by
    intro i
    rw [← Nat.shiftRight_eq_div_pow v 8, ← Nat.shiftRight_add, Nat.mul_add, Nat.mul_one,
      Nat.add_comm]
  simp only [ofNatLE, List.range_succ_eq_map, List.map_cons, List.map_map, Function.comp_def,
    Nat.succ_eq_add_one, hshift]
  rfl

/-- Adding one with carries gives the digits of the next number. -/
theorem incrementLE?_ofNatLE {n v : Nat} (h : v + 1 < Nat.pow 256 n) :
    Bytes.incrementLE? (ofNatLE n v).bytes = some (ofNatLE n (v + 1)).bytes := by
  induction n generalizing v with
  | zero =>
      have hone : Nat.pow 256 0 = 1 := rfl
      omega
  | succ n ih =>
      have hpow : Nat.pow 256 (n + 1) = Nat.pow 256 n * 256 := rfl
      have hbyte : UInt8.ofNat v + 1 = UInt8.ofNat (v + 1) := (UInt8.ofNat_add v 1).symm
      rw [bytes_ofNatLE_succ, bytes_ofNatLE_succ, Bytes.incrementLE?, hbyte]
      by_cases hcarry : (v + 1) % 256 = 0
      · have hzero : UInt8.ofNat (v + 1) = 0 := by
          rw [← UInt8.toNat_inj, UInt8.toNat_ofNat']
          exact hcarry
        have hnext : (v + 1) / 256 = v / 256 + 1 := by
          omega
        rw [if_neg (by simp [hzero]), ih (by omega), hzero, hnext]
        rfl
      · have hsome : UInt8.ofNat (v + 1) ≠ 0 := by
          rw [ne_eq, ← UInt8.toNat_inj, UInt8.toNat_ofNat']
          exact hcarry
        have hsame : (v + 1) / 256 = v / 256 := by
          omega
        rw [if_pos hsome, hsame]

theorem increment?_ofNatBE {n v : Nat} (h : v + 1 < Nat.pow 256 n) :
    Bytes.increment? (ofNatBE n v).bytes = some (ofNatBE n (v + 1)).bytes := by
  simp only [Bytes.increment?, ofNatBE, List.reverse_reverse, incrementLE?_ofNatLE h,
    Option.map_some]

example : Bytes.increment? [7, 255] = some [8, 0] ∧ Bytes.increment? [255, 255] = none := by
  decide

end Block

open Crypto Payload

def Seal.counterBytes (q : Seal) : Bytes :=
  q.nonce.bytes.take 11

theorem Seal.counterBytes_of_nonce {q : Seal} {i : Nat} {last : Bool}
    (h : q.nonce = Payload.nonce i last) :
    q.counterBytes = (Block.ofNatBE 11 i).bytes := by
  rw [counterBytes, h]
  exact List.take_left' (Block.ofNatBE 11 i).length_eq

namespace Draft

open ByteSink Asking

variable {τ : Type} [ByteSink τ]

/-! ## Counting chunks -/

/-- From `d` to `v` the chunks that were sealed have the next numbers, in their order, and none is
marked as last.  Either each of them has been written, and `v` goes on with the number behind them,
or `v` has failed, and then nothing is sealed any more. -/
structure Counts (d : Draft τ) (made : List Seal) (v : Draft τ) : Prop where
  nonces : made.map Seal.nonce = (List.range' d.counter made.length).map fun i => nonce i false
  goes_on : v.failed = true ∨ v.counter = d.counter + made.length
  silent : d.failed = true → made = [] ∧ v.failed = true

omit [ByteSink τ] in
/-- As long as nothing is sealed, the number stays and so does a failure. -/
theorem Counts.none {d v : Draft τ} (hcounter : v.counter = d.counter)
    (hfailed : v.failed = d.failed) : Counts d [] v :=
  ⟨rfl, .inr hcounter, fun hlost => ⟨rfl, hfailed.trans hlost⟩⟩

omit [ByteSink τ] in
/-- One chunk takes one number. -/
theorem Counts.one {d v : Draft τ} (hworks : ¬ d.failed = true) (chunk : Bytes)
    (hmoved : v.failed = true ∨ v.counter = d.counter + 1) :
    Counts d [⟨nonce d.counter false, chunk⟩] v :=
  ⟨rfl, hmoved, fun hlost => absurd hlost hworks⟩

omit [ByteSink τ] in
/-- Numbers go on from where they stopped. -/
theorem Counts.trans {d v w : Draft τ} {made later : List Seal} (h : Counts d made v)
    (hlater : Counts v later w) : Counts d (made ++ later) w := by
  by_cases hlost : v.failed = true
  · rcases hlater.silent hlost with ⟨rfl, hfailed⟩
    rw [List.append_nil]
    exact ⟨h.nonces, .inl hfailed, fun hd => ⟨(h.silent hd).1, hfailed⟩⟩
  · have hcounter : v.counter = d.counter + made.length := h.goes_on.resolve_left hlost
    refine ⟨?_, ?_, fun hd => absurd (h.silent hd).2 hlost⟩
    · rw [List.map_append, h.nonces, hlater.nonces, hcounter, List.length_append, ← List.map_append,
        List.range'_append_1]
    · rw [List.length_append, ← Nat.add_assoc, ← hcounter]
      exact hlater.goes_on

section

variable {α β : Type} {f : Seal → Bytes}

/-- A computation that starts at `d` counts on from there. -/
def Numbers (f : Seal → Bytes) (d : Draft τ) (p : Seals (α × Draft τ)) : Prop :=
  Counts d (p.asked f) (p.run f).2

omit [ByteSink τ] in
/-- Computations that count on can be put one after another. -/
theorem Numbers.bind {d : Draft τ} {p : Seals (α × Draft τ)}
    {k : α × Draft τ → Seals (β × Draft τ)} (h : Numbers f d p)
    (hk : ∀ r, Numbers f r.2 (k r)) : Numbers f d (p >>= k) := by
  rw [Numbers, asked_bind, run_bind]
  exact h.trans (hk _)

omit [ByteSink τ] in
theorem Numbers.done {d v : Draft τ} {a : α} (hcounter : v.counter = d.counter)
    (hfailed : v.failed = d.failed) : Numbers f d (.done (a, v)) :=
  Counts.none hcounter hfailed

/-- Having a chunk sealed takes one number, unless the draft has failed before. -/
theorem Numbers.sealThen {d : Draft τ} {written : τ → Seals (α × Draft τ)}
    {stopped : IoError → Draft τ → Seals (α × Draft τ)}
    (hwritten : ∀ t, Numbers f (d.after t) (written t))
    (hstopped : ∀ e v, Numbers f v (stopped e v)) :
    Numbers f d (d.sealThen false written stopped) := by
  rw [Draft.sealThen]
  split
  · exact hstopped _ d
  · rename_i hfailed
    rw [Numbers, asked_ask, run_ask]
    rcases ByteSink.writeAll d.inner (f ⟨nonce d.counter false, d.chunk.toList⟩) with ⟨e | u, t⟩
    · exact (Counts.one hfailed _ (.inl rfl)).trans (hstopped e { d with inner := t, failed := true })
    · exact (Counts.one hfailed _ (.inr rfl)).trans (hwritten t)

/-- The rounds of a write count on, one chunk at a time. -/
theorem numbers_writeFrom (d : Draft τ) (b : Bytes) (taken : Nat) :
    Numbers f d (d.writeFrom b taken) := by
  fun_induction writeFrom d b taken with
  | case1 d taken => exact .done rfl rfl
  | case2 d b taken hne hfull ih => exact .sealThen ih fun e v => .done rfl rfl
  | case3 d b taken hne hroom room piece ih => exact ⟨ih.nonces, ih.goes_on, ih.silent⟩

theorem numbers_write (d : Draft τ) (b : Bytes) : Numbers f d (d.write b) := by
  rw [write]
  split
  · exact .done rfl rfl
  · exact numbers_writeFrom d b 0

theorem numbers_writeAll (d : Draft τ) (b : Bytes) : Numbers f d (d.writeAll b) := by
  fun_induction writeAll d b with
  | case1 d => exact .done rfl rfl
  | case2 d b hne ih =>
      refine (numbers_write d b).bind fun r => ?_
      rcases r with ⟨e | _ | n, v⟩
      · exact .done rfl rfl
      · exact .done rfl rfl
      · exact ih n v

theorem numbers_perform (d : Draft τ) (call : Call) : Numbers f d (d.perform call) := by
  cases call with
  | write b => exact numbers_write d b
  | writeAll b =>
      refine (numbers_writeAll d b).bind fun r => ?_
      rcases r with ⟨e | u, v⟩
      · exact .done rfl rfl
      · exact .done rfl rfl
  | flush =>
      rw [perform, flush]
      rcases ByteSink.flush d.inner with ⟨e | u, t⟩
      · exact .done rfl rfl
      · exact .done rfl rfl

/-- Whatever the calls, and whatever comes of them. -/
theorem numbers_performEach (d : Draft τ) (calls : List Call) :
    Numbers f d (d.performEach calls) := by
  induction calls generalizing d with
  | nil => exact .done rfl rfl
  | cons call calls ih =>
      refine (numbers_perform d call).bind fun first => ?_
      exact (ih first.2).bind fun rest => .done rfl rfl

/-- The end seals what is held as the last chunk, unless a chunk was lost. -/
theorem seals_finish (d : Draft τ) :
    d.finish.asked f =
      if d.failed then [] else [⟨nonce d.counter true, d.chunk.toList⟩] := by
  rw [finish, sealThen]
  split
  · rfl
  · rw [asked_ask]
    rcases ByteSink.writeAll d.inner (f ⟨nonce d.counter true, d.chunk.toList⟩) with
      ⟨e | u, t⟩ <;> rfl

end

end Draft

namespace PayloadWriter

open ByteSink

variable {S : Suite} {τ : Type} [ByteSink τ]

/-- The chunks that are sealed when calls are made on a payload writer and it is finished. -/
def sealsOf (S : Suite) (sink : τ) (key : Block 32) (calls : List Call) : List Seal :=
  (({ inner := sink } : Draft τ).session calls).asked (S.sealing key)

/-- The seals of a run are numbered from zero on: the calls seal chunks that are not marked as last,
the end at most one, which is. -/
theorem nonces_of_session (f : Seal → Bytes) (sink : τ) (calls : List Call) :
    let written := ({ inner := sink } : Draft τ).performEach calls
    let session := ({ inner := sink } : Draft τ).session calls
    (written.asked f).map Seal.nonce =
        (List.range (written.asked f).length).map (fun i => nonce i false) ∧
      (session.asked f = written.asked f ∨
        ∃ chunk, session.asked f =
          written.asked f ++ [⟨nonce (written.asked f).length true, chunk⟩]) := by
  intro written session
  have hcounts : Draft.Numbers f { inner := sink } written := Draft.numbers_performEach _ calls
  have hsession : session.asked f = written.asked f ++ (written.run f).2.finish.asked f :=
    Asking.asked_bind written _
  refine ⟨?_, ?_⟩
  · rw [List.range_eq_range']
    exact hcounts.nonces
  · rw [hsession, Draft.seals_finish]
    split
    · exact .inl (List.append_nil _)
    · rename_i hworks
      have hcounter : (written.run f).2.counter = 0 + (written.asked f).length :=
        hcounts.goes_on.resolve_left hworks
      rw [hcounter, Nat.zero_add]
      exact .inr ⟨_, rfl⟩

/-- The numbers of a run, in the bytes that spell them. -/
theorem counterBytes_of_session (f : Seal → Bytes) (sink : τ) (calls : List Call) :
    let made := (({ inner := sink } : Draft τ).session calls).asked f
    made.map Seal.counterBytes =
      (List.range made.length).map fun i => (Block.ofNatBE 11 i).bytes := by
  intro made
  rcases nonces_of_session f sink calls with ⟨hwritten, hmade⟩
  generalize (({ inner := sink } : Draft τ).performEach calls).asked f = written at hwritten hmade
  have hnumbers : written.map Seal.counterBytes =
      (List.range written.length).map fun i => (Block.ofNatBE 11 i).bytes := by
    have hbytes := congrArg (List.map fun n : Block 12 => n.bytes.take 11) hwritten
    rw [List.map_map, List.map_map] at hbytes
    refine hbytes.trans (List.map_congr_left fun i _ => ?_)
    exact Seal.counterBytes_of_nonce (q := ⟨nonce i false, []⟩) rfl
  rcases hmade with hmade | ⟨chunk, hmade⟩
  · rw [show made = written from hmade]
    exact hnumbers
  · rw [show made = _ from hmade, List.map_append, hnumbers, List.length_append,
      List.length_singleton, List.range_succ, List.map_append]
    rfl

/-- No nonce serves twice.  Whatever the sink answers, and whatever is called after an error, the
chunks of a run are sealed under the numbers `0`, `1`, `2`, … in their order; those that the calls
seal are not marked as last, and the end of the run seals at most one more, which is.  Spelled in
bytes, the numbers start at zero, each is the one before and one more, and no two are the same.

The seals are those of a computation that cannot seal without asking; what it comes to is what the
writer does. -/
theorem seals_in_order (sink : τ) (key : Block 32) {calls : List Call}
    (hfew : (sealsOf S sink key calls).length < counterLimit) :
    let draft : Draft τ := { inner := sink }
    let written := (draft.performEach calls).asked (S.sealing key)
    let made := sealsOf S sink key calls
    performEach (start S key sink) calls =
        Draft.resultUnder S key ((draft.performEach calls).run (S.sealing key)) ∧
      (performEach (start S key sink) calls).2.finish =
        (draft.session calls).run (S.sealing key) ∧
      written.map Seal.nonce = (List.range written.length).map (fun i => nonce i false) ∧
      (made = written ∨ ∃ chunk, made = written ++ [⟨nonce written.length true, chunk⟩]) ∧
      (∀ q, made[0]? = some q → q.counterBytes = (Block.zeros 11).bytes) ∧
      (∀ i p q, made[i]? = some p → made[i + 1]? = some q →
        Bytes.increment? p.counterBytes = some q.counterBytes) ∧
      (made.map Seal.counterBytes).Nodup := by
  intro draft written made
  have hrun : performEach (start S key sink) calls =
      Draft.resultUnder S key ((draft.performEach calls).run (S.sealing key)) :=
    Draft.performEach_under draft calls
  have hbytes : made.map Seal.counterBytes =
      (List.range made.length).map fun i => (Block.ofNatBE 11 i).bytes :=
    counterBytes_of_session (S.sealing key) sink calls
  have hat : ∀ i q, made[i]? = some q →
      i < counterLimit ∧ q.counterBytes = (Block.ofNatBE 11 i).bytes := by
    intro i q hq
    have hi : i < made.length := (List.getElem?_eq_some_iff.1 hq).1
    have hith := congrArg (fun b : List Bytes => b[i]?) hbytes
    simp only [List.getElem?_map, hq, List.getElem?_range hi, Option.map_some] at hith
    exact ⟨Nat.lt_trans hi hfew, Option.some.inj hith⟩
  rcases nonces_of_session (S.sealing key) sink calls with ⟨hwritten, hmade⟩
  refine ⟨hrun, ?_, hwritten, hmade, ?_, ?_, ?_⟩
  · rw [hrun]
    exact (Asking.run_bind (draft.performEach calls) fun result => result.2.finish).symm
  · intro q hq
    rw [(hat 0 q hq).2]
    rfl
  · intro i p q hp hq
    rw [(hat i p hp).2, (hat (i + 1) q hq).2]
    exact Block.increment?_ofNatBE (hat (i + 1) q hq).1
  · rw [hbytes, List.Nodup, List.pairwise_map]
    refine List.nodup_range.imp_of_mem fun {i j} hi hj hne hsame => hne ?_
    have hlt : ∀ {i}, i ∈ List.range made.length → i < counterLimit :=
      fun h => Nat.lt_trans (List.mem_range.1 h) hfew
    exact Block.ofNatBE_inj (hlt hi) (hlt hj) (Block.ext hsame)

/-- One byte more than a chunk, in memory: the byte is sealed under the next number. -/
theorem sealsOf_memory (key : Block 32) {b : Bytes} {x : UInt8} (hmore : chunkSize < b.length)
    (hlast : b.drop chunkSize = [x]) :
    sealsOf S ({} : ScriptedSink) key [.write b] =
      [⟨nonce 0 false, b.take chunkSize⟩, ⟨nonce 1 true, [x]⟩] := by
  rcases steady_unfailing.writeAll ScriptedSink.unfailing_empty
    (S.encrypt key (nonce 0 false) (b.take chunkSize)) with ⟨t, ht, -⟩
  have hrest : ({ inner := t, counter := 1 } : Draft ScriptedSink).writeFrom [x] chunkSize =
      .done (.ok (chunkSize + 1), { inner := t, counter := 1, chunk := #[x] }) := by
    simp [Draft.writeFrom, chunkSize]
  simp only [sealsOf, Draft.session, Draft.performEach, Draft.perform, Draft.write_of_more _ hmore,
    Asking.asked_bind, Asking.run_bind, Asking.asked_ask, Asking.run_ask, Asking.run_done,
    Asking.asked_done, Suite.sealing, ht, hlast, hrest, Draft.seals_finish]
  rfl

/-- The same on a sink that loses the chunk: nothing is sealed any more. -/
theorem sealsOf_recoveringSink (key : Block 32) {b : Bytes} (hmore : chunkSize < b.length) :
    sealsOf S recoveringSink key [.write b, .flush, .write [1]] =
      [⟨nonce 0 false, b.take chunkSize⟩] := by
  have hfirst : ByteSink.write recoveringSink (S.encrypt key (nonce 0 false) (b.take chunkSize)) =
      (.error (.device .other "full"), {}) := rfl
  have hrefused := writeAll_of_error (Suite.encrypt_ne_nil S _ _ _) hfirst
  rw [if_neg (by decide)] at hrefused
  simp only [sealsOf, Draft.session, Draft.performEach, Draft.perform, Draft.write_of_more _ hmore,
    Asking.asked_bind, Asking.run_bind, Asking.asked_ask, Asking.run_ask, Asking.run_done,
    Asking.asked_done, Suite.sealing, hrefused, Draft.seals_finish]
  rfl

/-- One byte more than a chunk, in memory and on a sink that loses the chunk. -/
theorem seals_in_order_two_sinks :
    let b := overlong
    let kept := sealsOf .transparent ({} : ScriptedSink) (Block.zeros 32) [.write b]
    let lost := sealsOf .transparent recoveringSink (Block.zeros 32) [.write b, .flush, .write [1]]
    kept = [⟨nonce 0 false, b.take chunkSize⟩, ⟨nonce 1 true, [8]⟩] ∧
      (kept.map Seal.counterBytes).Nodup ∧
      lost = [⟨nonce 0 false, b.take chunkSize⟩] ∧
      (lost.map Seal.counterBytes).Nodup := by
  have hkept := sealsOf_memory (S := .transparent) (Block.zeros 32) lt_length_overlong drop_overlong
  have hlost := sealsOf_recoveringSink (S := .transparent) (Block.zeros 32) lt_length_overlong
  have htwo : 2 < counterLimit := by
    decide
  have hkept_few : (sealsOf .transparent ({} : ScriptedSink) (Block.zeros 32)
      [.write overlong]).length < counterLimit := by
    rw [hkept]
    exact htwo
  have hlost_few : (sealsOf .transparent recoveringSink (Block.zeros 32)
      [.write overlong, .flush, .write [1]]).length < counterLimit := by
    rw [hlost]
    exact Nat.lt_trans (Nat.lt_succ_self 1) htwo
  rcases seals_in_order _ _ hkept_few with ⟨-, -, -, -, -, -, hkept_apart⟩
  rcases seals_in_order _ _ hlost_few with ⟨-, -, -, -, -, -, hlost_apart⟩
  exact ⟨hkept, hkept_apart, hlost, hlost_apart⟩

end PayloadWriter

end AgeCrypt
