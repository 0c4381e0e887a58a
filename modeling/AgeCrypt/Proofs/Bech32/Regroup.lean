import AgeCrypt.Bech32.Regroup
import Mathlib.Algebra.Group.Nat.Defs

/-!
# Regrouped bits

A list of values of one width spells a run of bits, each value most significant bit first
(`spell`).  Regrouping changes the width and keeps the run.  What has been read and not been
written is in the low bits of the accumulator, so the run read so far is what the output spells and
those bits behind it (`State.run`); no step loses any of them (`run_emit`, `run_push`).

From eight bits to five the run is filled up with fewer than five zeros (`regroup_eight_eq_ok_iff`),
and from five to eight just such a filling is taken off again (`regroup_five_eq_ok_iff`).  Both
directions are the same relation, `Spells`, so they are inverse to each other.
-/

namespace AgeCrypt
namespace Bech32
namespace Regroup

/-! ## Runs of bits -/

/-- The low `width` bits of a number, the most significant first. -/
def bits : Nat → Nat → List Bool
  | 0, _ => []
  | width + 1, x => x.testBit width :: bits width x

@[simp] theorem length_bits (width x : Nat) : (bits width x).length = width := by
  induction width with
  | zero => rfl
  | succ width ih => rw [bits, List.length_cons, ih]

/-- Numbers with the same low bits spell the same. -/
theorem bits_congr {width x y : Nat} (h : ∀ i < width, x.testBit i = y.testBit i) :
    bits width x = bits width y := by
  induction width with
  | zero => rfl
  | succ width ih =>
      rw [bits, bits, h width (Nat.lt_succ_self _), ih fun i hi => h i (Nat.lt_succ_of_lt hi)]

theorem testBit_of_bits {width x y : Nat} (h : bits width x = bits width y) {i : Nat}
    (hi : i < width) : x.testBit i = y.testBit i := by
  induction width with
  | zero => exact absurd hi (Nat.not_lt_zero _)
  | succ width ih =>
      rw [bits, bits, List.cons.injEq] at h
      rcases Nat.lt_succ_iff_lt_or_eq.1 hi with hi | rfl
      · exact ih h.2 hi
      · exact h.1

/-- A number below `2 ^ width` is known by its bits. -/
theorem bits_inj {width x y : Nat} (hx : x < 2 ^ width) (hy : y < 2 ^ width)
    (h : bits width x = bits width y) : x = y := by
  refine Nat.eq_of_testBit_eq fun i => ?_
  by_cases hi : i < width
  · exact testBit_of_bits h hi
  · have hle : 2 ^ width ≤ 2 ^ i := Nat.pow_le_pow_right (by decide) (Nat.le_of_not_lt hi)
    rw [Nat.testBit_lt_two_pow (Nat.lt_of_lt_of_le hx hle),
      Nat.testBit_lt_two_pow (Nat.lt_of_lt_of_le hy hle)]

/-- A run of bits is cut by shifting. -/
theorem bits_add (m n x : Nat) : bits (m + n) x = bits m (x >>> n) ++ bits n x := by
  induction m with
  | zero => rw [Nat.zero_add, bits, List.nil_append]
  | succ m ih =>
      rw [Nat.succ_add, bits, bits, ih, Nat.testBit_shiftRight, Nat.add_comm n m, List.cons_append]

theorem bits_zero (width : Nat) : bits width 0 = List.replicate width false := by
  induction width with
  | zero => rfl
  | succ width ih => rw [bits, ih, Nat.zero_testBit, List.replicate_succ]

/-- The run of bits that a list of values spells. -/
def spell (width : Nat) (values : Bytes) : List Bool :=
  values.flatMap fun v => bits width v.toNat

@[simp] theorem spell_nil (width : Nat) : spell width [] = [] := rfl

@[simp] theorem spell_cons (width : Nat) (v : UInt8) (values : Bytes) :
    spell width (v :: values) = bits width v.toNat ++ spell width values := rfl

/-- Values one after another spell their runs one after another. -/
theorem spell_append (width : Nat) (a b : Bytes) :
    spell width (a ++ b) = spell width a ++ spell width b :=
  List.flatMap_append

theorem spell_reverse_cons (width : Nat) (v : UInt8) (out : Bytes) :
    spell width (v :: out).reverse = spell width out.reverse ++ bits width v.toNat := by
  rw [List.reverse_cons, spell_append, spell_cons, spell_nil, List.append_nil]

/-- Every value spells the same number of bits. -/
@[simp] theorem length_spell (width : Nat) (values : Bytes) :
    (spell width values).length = width * values.length := by
  induction values with
  | nil => rfl
  | cons v values ih =>
      rw [spell_cons, List.length_append, length_bits, ih, List.length_cons, Nat.mul_succ,
        Nat.add_comm]

def Fits (width : Nat) (values : Bytes) : Prop :=
  ∀ v ∈ values, v.toNat < 2 ^ width

/-- Values that fit are known by the run they spell. -/
theorem spell_inj {width : Nat} {a b : Bytes} (ha : Fits width a) (hb : Fits width b)
    (hlen : a.length = b.length) (h : spell width a = spell width b) : a = b := by
  induction a generalizing b with
  | nil => exact (List.length_eq_zero_iff.1 hlen.symm).symm
  | cons x a ih =>
      cases b with
      | nil => cases hlen
      | cons y b =>
          have hsplit := List.append_inj h (by rw [length_bits, length_bits])
          have hhead : x = y := UInt8.toNat_inj.1
            (bits_inj (ha x (List.mem_cons_self ..)) (hb y (List.mem_cons_self ..)) hsplit.1)
          have htail : a = b := ih (fun v hv => ha v (List.mem_cons_of_mem _ hv))
            (fun v hv => hb v (List.mem_cons_of_mem _ hv)) (Nat.succ.inj hlen) hsplit.2
          rw [hhead, htail]

/-! ## Words -/

theorem toNat_ofNat_mod {n : Nat} (hn : n < 32) : (UInt32.ofNat n).toNat % 32 = n := by
  rw [UInt32.toNat_ofNat']
  omega

theorem toNat_lowBits {n : Nat} (hn : n < 32) : (lowBits n).toNat = 2 ^ n - 1 := by
  have hshift : ((1 : UInt32) <<< UInt32.ofNat n).toNat = 2 ^ n := by
    rw [UInt32.toNat_shiftLeft, toNat_ofNat_mod hn, UInt32.toNat_one, Nat.one_shiftLeft,
      Nat.mod_eq_of_lt (Nat.pow_lt_pow_right (by decide) hn)]
  have hone : (1 : UInt32) ≤ 1 <<< UInt32.ofNat n := by
    rw [UInt32.le_iff_toNat_le, hshift]
    exact Nat.one_le_two_pow
  rw [lowBits, UInt32.toNat_sub_of_le _ _ hone, hshift, UInt32.toNat_one]

theorem toNat_and_lowBits (x : UInt32) {n : Nat} (hn : n < 32) :
    (x &&& lowBits n).toNat = x.toNat % 2 ^ n := by
  rw [UInt32.toNat_and, toNat_lowBits hn, Nat.and_two_pow_sub_one_eq_mod]

theorem toNat_shiftRight_ofNat (x : UInt32) {n : Nat} (hn : n < 32) :
    (x >>> UInt32.ofNat n).toNat = x.toNat >>> n := by
  rw [UInt32.toNat_shiftRight, toNat_ofNat_mod hn]

/-- Shifting to the left moves bits up, and those beyond the word are gone. -/
theorem testBit_shiftLeft_ofNat (x : UInt32) {n i : Nat} (hn : n < 32) (hi : i < 32) :
    (x <<< UInt32.ofNat n).toNat.testBit i = (decide (n ≤ i) && x.toNat.testBit (i - n)) := by
  rw [UInt32.toNat_shiftLeft, toNat_ofNat_mod hn, Nat.testBit_mod_two_pow, Nat.testBit_shiftLeft]
  simp [hi]

/-- A group that is written has the low bits of the word it is cut from. -/
theorem toNat_group (x : UInt32) {n : Nat} (hn : n ≤ 8) :
    (x &&& lowBits n).toUInt8.toNat = x.toNat % 2 ^ n := by
  have hpow : 2 ^ n ≤ 2 ^ 8 := Nat.pow_le_pow_right (by decide) hn
  have hlt : x.toNat % 2 ^ n < 2 ^ n := Nat.mod_lt _ (Nat.two_pow_pos n)
  rw [UInt32.toNat_toUInt8, toNat_and_lowBits x (by omega)]
  exact Nat.mod_eq_of_lt (Nat.lt_of_lt_of_le hlt hpow)

theorem toNat_group_lt (x : UInt32) {n : Nat} (hn : n ≤ 8) :
    (x &&& lowBits n).toUInt8.toNat < 2 ^ n := by
  rw [toNat_group x hn]
  exact Nat.mod_lt _ (Nat.two_pow_pos n)

/-- A group that is cut out of a word spells the low bits of the word. -/
theorem bits_group (x : UInt32) {n : Nat} (hn : n ≤ 8) :
    bits n (x &&& lowBits n).toUInt8.toNat = bits n x.toNat := by
  rw [toNat_group x hn]
  refine bits_congr fun i hi => ?_
  simp [Nat.testBit_mod_two_pow, hi]

/-! ## Steps -/

/-- The run read so far: what has been written, and what is pending. -/
def State.run (target : Nat) (s : State) : List Bool :=
  spell target s.out.reverse ++ bits s.pending s.acc.toNat

section

variable {source target : Nat}

/-- Writing keeps the run and leaves less than a group pending. -/
theorem run_emit (h0 : 0 < target) (h8 : target ≤ 8) {s : State} (hpending : s.pending < 32)
    (hfits : Fits target s.out) :
    (emit target s).run target = s.run target ∧ (emit target s).pending < target ∧
      Fits target (emit target s).out := by
  fun_induction emit target s with
  | case1 s hstop =>
      exact ⟨rfl, hstop.resolve_left (Nat.pos_iff_ne_zero.1 h0), hfits⟩
  | case2 s hgo left ih =>
      have hle : target ≤ s.pending := by
        simp only [not_or, Nat.not_lt] at hgo
        exact hgo.2
      have hleft : left < 32 := by
        simp only [left]
        omega
      have hgroup : Fits target
          (((s.acc >>> UInt32.ofNat left) &&& lowBits target).toUInt8 :: s.out) := by
        intro v hv
        rcases List.mem_cons.1 hv with rfl | hv
        · exact toNat_group_lt _ h8
        · exact hfits v hv
      rcases ih hleft hgroup with ⟨hrun, hless, hall⟩
      refine ⟨hrun.trans ?_, hless, hall⟩
      -- the group that is written is the front of the pending bits
      have hsplit : s.pending = target + left := by
        simp only [left]
        omega
      rw [State.run, State.run, spell_reverse_cons, bits_group _ h8,
        toNat_shiftRight_ofNat _ hleft, List.append_assoc, ← bits_add, ← hsplit]

/-- The accumulator has room for what is pending and one more value. -/
theorem bits_acc (hs : source ≤ 8) (h8 : target ≤ 8) {acc v : UInt32} {pending : Nat}
    (hpending : pending < target) (hv : v.toNat < 2 ^ source) :
    bits (pending + source)
        (((acc <<< UInt32.ofNat source) ||| v) &&& lowBits (source + target - 1)).toNat =
      bits pending acc.toNat ++ bits source v.toNat := by
  have hbit : ∀ i < source + target - 1,
      (((acc <<< UInt32.ofNat source) ||| v) &&& lowBits (source + target - 1)).toNat.testBit i =
        (decide (source ≤ i) && acc.toNat.testBit (i - source) || v.toNat.testBit i) := by
    intro i hi
    rw [toNat_and_lowBits _ (by omega), Nat.testBit_mod_two_pow, UInt32.toNat_or, Nat.testBit_or,
      testBit_shiftLeft_ofNat _ (by omega) (by omega)]
    simp [hi]
  rw [bits_add]
  congr 1
  · refine bits_congr fun i hi => ?_
    have hhigh : v.toNat.testBit (source + i) = false := Nat.testBit_lt_two_pow
      (Nat.lt_of_lt_of_le hv (Nat.pow_le_pow_right (by decide) (Nat.le_add_right _ _)))
    rw [Nat.testBit_shiftRight, hbit _ (by omega), hhigh]
    simp
  · refine bits_congr fun i hi => ?_
    rw [hbit i (by omega)]
    simp [Nat.not_le.2 hi]

/-- The state with one more value in the accumulator, before any group of it is written. -/
def State.loaded (source target : Nat) (s : State) (value : UInt8) : State :=
  { s with
    acc := ((s.acc <<< UInt32.ofNat source) ||| value.toUInt32) &&& lowBits (source + target - 1)
    pending := s.pending + source }

/-- Reading a value is loading it and then writing what is due. -/
theorem push_eq_emit_loaded (hs : source ≤ 8) {s : State} {v : UInt8} (hv : v.toNat < 2 ^ source) :
    push source target s v = .ok (emit target (s.loaded source target v)) := by
  have hrange : v.toUInt32 >>> UInt32.ofNat source = 0 := by
    rw [← UInt32.toNat_inj, toNat_shiftRight_ofNat _ (by omega), UInt8.toNat_toUInt32,
      Nat.shiftRight_eq_div_pow, Nat.div_eq_of_lt hv]
    rfl
  rw [push, if_neg (not_not_intro hrange)]
  rfl

/-- Reading a value puts its bits behind the run. -/
theorem run_push (hs : source ≤ 8) (h0 : 0 < target) (h8 : target ≤ 8) {s : State} {v : UInt8}
    (hpending : s.pending < target) (hfits : Fits target s.out) (hv : v.toNat < 2 ^ source) :
    ∃ t, push source target s v = .ok t ∧ t.run target = s.run target ++ bits source v.toNat ∧
      t.pending < target ∧ Fits target t.out := by
  have hword : v.toUInt32.toNat = v.toNat := UInt8.toNat_toUInt32 v
  have hroom : (s.loaded source target v).pending < 32 := by
    simp only [State.loaded]
    omega
  rcases run_emit h0 h8 hroom hfits with ⟨hrun, hless, hall⟩
  refine ⟨_, push_eq_emit_loaded hs hv, hrun.trans ?_, hless, hall⟩
  rw [State.run, State.run, State.loaded, bits_acc hs h8 hpending (by rw [hword]; exact hv), hword,
    List.append_assoc]

/-- Reading values puts what they spell behind the run. -/
theorem run_foldlM (hs : source ≤ 8) (h0 : 0 < target) (h8 : target ≤ 8) {values : Bytes}
    (hvalues : Fits source values) {s : State} (hpending : s.pending < target)
    (hfits : Fits target s.out) :
    ∃ t, values.foldlM (push source target) s = .ok t ∧
      t.run target = s.run target ++ spell source values ∧ t.pending < target ∧
      Fits target t.out := by
  induction values generalizing s with
  | nil => exact ⟨s, rfl, by simp, hpending, hfits⟩
  | cons v values ih =>
      rcases run_push hs h0 h8 hpending hfits (hvalues v (List.mem_cons_self ..)) with
        ⟨t, ht, hrun, hless, hall⟩
      rcases ih (fun w hw => hvalues w (List.mem_cons_of_mem _ hw)) hless hall with
        ⟨u, hu, hrun', hless', hall'⟩
      refine ⟨u, ?_, ?_, hless', hall'⟩
      · rw [List.foldlM_cons, ht]
        exact hu
      · rw [hrun', hrun, spell_cons, List.append_assoc]

/-- Reading from the start, the run is what the values spell. -/
theorem run_start (hs : source ≤ 8) (h0 : 0 < target) (h8 : target ≤ 8) {values : Bytes}
    (hvalues : Fits source values) :
    ∃ t, values.foldlM (push source target) {} = .ok t ∧ t.run target = spell source values ∧
      t.pending < target ∧ Fits target t.out := by
  have hnone : Fits target ({} : State).out := fun v hv => (by cases hv)
  exact run_foldlM hs h0 h8 hvalues (s := {}) h0 hnone

/-- The pending bits, filled up with zeros. -/
theorem bits_rest (h8 : target ≤ 8) {s : State} (hpending : s.pending ≤ target) :
    bits target (rest target s).toNat =
      bits s.pending s.acc.toNat ++ List.replicate (target - s.pending) false := by
  have hbit : ∀ i < target, (rest target s).toNat.testBit i =
      (decide (target - s.pending ≤ i) && s.acc.toNat.testBit (i - (target - s.pending))) := by
    intro i hi
    rw [rest, toNat_and_lowBits _ (by omega), Nat.testBit_mod_two_pow,
      testBit_shiftLeft_ofNat _ (by omega) (by omega)]
    simp [hi]
  have hsplit : bits target (rest target s).toNat =
      bits (s.pending + (target - s.pending)) (rest target s).toNat := by
    rw [Nat.add_sub_cancel' hpending]
  rw [hsplit, bits_add, ← bits_zero]
  congr 1
  · refine bits_congr fun i hi => ?_
    rw [Nat.testBit_shiftRight, hbit _ (by omega)]
    simp
  · refine bits_congr fun i hi => ?_
    rw [hbit i (by omega)]
    simp [Nat.not_le.2 hi]

/-- The last group fits, too. -/
theorem toNat_rest_lt (h8 : target ≤ 8) (s : State) : (rest target s).toNat < 2 ^ target := by
  rw [rest, toNat_and_lowBits _ (by omega)]
  exact Nat.mod_lt _ (Nat.two_pow_pos target)

/-- Nothing is left over just if the pending bits are zeros. -/
theorem rest_eq_zero_iff (h8 : target ≤ 8) {s : State} (hpending : s.pending ≤ target) :
    rest target s = 0 ↔ bits s.pending s.acc.toNat = List.replicate s.pending false := by
  have hrest := bits_rest h8 hpending
  constructor
  · intro hzero
    rw [hzero, UInt32.toNat_zero, bits_zero] at hrest
    have hsplit : List.replicate target false = List.replicate s.pending false ++
        List.replicate (target - s.pending) false := by
      rw [List.replicate_append_replicate, Nat.add_sub_cancel' hpending]
    exact (List.append_inj_left' (hsplit.symm.trans hrest) rfl).symm
  · intro hzero
    rw [hzero, List.replicate_append_replicate, Nat.add_sub_cancel' hpending, ← bits_zero] at hrest
    exact UInt32.toNat_inj.1
      (bits_inj (toNat_rest_lt h8 s) (Nat.two_pow_pos target) hrest)

end

end Regroup

/-! ## Both directions -/

open Regroup

/-- Five-bit values that spell the bits of `data`, filled up with fewer than five zeros. -/
def Spells (data values : Bytes) : Prop :=
  Fits 5 values ∧ ∃ k < 5, spell 5 values = spell 8 data ++ List.replicate k false

/-- All bytes have eight bits. -/
theorem fits_eight (data : Bytes) : Fits 8 data :=
  fun v _ => UInt8.toNat_lt v

/-- The lengths show how many zeros were filled in. -/
theorem Spells.length_eq {data values : Bytes} (h : Spells data values) :
    ∃ k < 5, 5 * values.length = 8 * data.length + k := by
  rcases h with ⟨-, k, hk, hrun⟩
  have hlen := congrArg List.length hrun
  rw [length_spell, List.length_append, length_spell, List.length_replicate] at hlen
  exact ⟨k, hk, hlen⟩

/-- Data is spelled by one list of values only. -/
theorem Spells.unique {data a b : Bytes} (ha : Spells data a) (hb : Spells data b) : a = b := by
  rcases ha.length_eq with ⟨i, hi, hlen_a⟩
  rcases hb.length_eq with ⟨j, hj, hlen_b⟩
  have hlen : a.length = b.length := by omega
  rcases ha with ⟨ha_fits, k, hk, ha_run⟩
  rcases hb with ⟨hb_fits, l, hl, hb_run⟩
  have hlen_k := congrArg List.length ha_run
  have hlen_l := congrArg List.length hb_run
  simp only [length_spell, List.length_append, List.length_replicate] at hlen_k hlen_l
  have hkl : k = l := by omega
  subst hkl
  exact spell_inj ha_fits hb_fits hlen (ha_run.trans hb_run.symm)

/-- All data is spelled by some values: those that it is regrouped to. -/
theorem exists_regroup_eight (data : Bytes) :
    ∃ values, regroup 8 5 true data = .ok values ∧ Spells data values := by
  rcases @run_start 8 5 (by decide) (by decide) (by decide) data (fits_eight data) with
    ⟨s, hs, hrun, hless, hfits⟩
  by_cases hpending : 0 < s.pending
  · refine ⟨((rest 5 s).toUInt8 :: s.out).reverse, ?_, ?_, 5 - s.pending, by omega, ?_⟩
    · simp only [regroup, bind, Except.bind, hs, if_true, gt_iff_lt, if_pos hpending]
    · intro v hv
      rcases List.mem_cons.1 (List.mem_reverse.1 hv) with rfl | hv
      · exact toNat_group_lt _ (by decide)
      · exact hfits v hv
    · have hgroup : bits 5 (rest 5 s).toUInt8.toNat = bits 5 (rest 5 s).toNat := by
        rw [rest, toNat_group _ (by decide), toNat_and_lowBits _ (by decide)]
      rw [spell_reverse_cons, hgroup, bits_rest (by decide) (by omega), ← hrun, State.run,
        List.append_assoc]
  · have hnone : s.pending = 0 := by omega
    refine ⟨s.out.reverse, ?_, fun v hv => hfits v (List.mem_reverse.1 hv), 0, by decide, ?_⟩
    · simp only [regroup, bind, Except.bind, hs, if_true, gt_iff_lt, if_neg hpending]
    · rw [← hrun, State.run, hnone, bits, List.replicate_zero, List.append_nil, List.append_nil]

/-- Data is regrouped to the values that spell it. -/
theorem regroup_eight_eq_ok_iff {data values : Bytes} :
    regroup 8 5 true data = .ok values ↔ Spells data values := by
  rcases exists_regroup_eight data with ⟨canonical, hregroup, hspells⟩
  constructor
  · intro h
    cases hregroup.symm.trans h
    exact hspells
  · intro h
    rw [h.unique hspells, hregroup]

/-- Values are regrouped to the data that they spell, and to none if they spell none. -/
theorem regroup_five_eq_ok_iff {data values : Bytes} (hvalues : Fits 5 values) :
    regroup 5 8 false values = .ok data ↔ Spells data values := by
  rcases @run_start 5 8 (by decide) (by decide) (by decide) values hvalues with
    ⟨s, hs, hrun, hless, -⟩
  have hzero := @rest_eq_zero_iff 8 (by decide) s (Nat.le_of_lt hless)
  constructor
  · intro h
    simp only [regroup, bind, Except.bind, hs, Bool.false_eq_true, if_false] at h
    split at h
    · cases h
    · rename_i hshort
      split at h
      · cases h
      · rename_i hrest
        cases h
        refine ⟨hvalues, s.pending, by omega, ?_⟩
        rw [← hrun, State.run, hzero.1 (Decidable.not_not.1 hrest)]
  · rintro ⟨-, k, hk, hspell⟩
    -- both splits of the run into bytes and a short rest are the same
    rw [← hrun, State.run] at hspell
    have hlen := congrArg List.length hspell
    simp only [List.length_append, length_spell, length_bits, List.length_reverse,
      List.length_replicate] at hlen
    have hcount : s.out.reverse.length = data.length := by
      rw [List.length_reverse]
      omega
    have hpending : s.pending = k := by
      rw [List.length_reverse] at hcount
      omega
    have hsplit := List.append_inj hspell (by rw [length_spell, length_spell, hcount])
    have hdata : s.out.reverse = data :=
      spell_inj (fits_eight _) (fits_eight _) hcount hsplit.1
    have hrest : rest 8 s = 0 := hzero.2 (by rw [hsplit.2, hpending])
    simp only [regroup, bind, Except.bind, hs, Bool.false_eq_true, if_false, hrest, hdata,
      ne_eq, not_true_eq_false]
    rw [if_neg (by omega)]

end Bech32
end AgeCrypt
