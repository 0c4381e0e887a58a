import AgeCrypt.Proofs.Bech32.Regroup
import Mathlib.Data.List.Induction

/-!
# The padding of regrouped bits

Regrouping to five bits always succeeds, and regrouping back to eight accepts exactly what it gives
(`regroup_five_eq_ok_iff_regroup_eight`).  Anything else goes wrong for one of two reasons, and the
number of values alone tells which (`regroup_five_eq_paddingTooLong_iff`,
`regroup_five_eq_paddingNotZero_iff`).

On the way the accumulator is cut to the bits that two groups less one have.  An accumulator of any
width that is never cut (`Regroup.wide`) holds all bits that were read; the two agree on every bit
that has not been written yet, before a group is written (`Regroup.bits_loaded`) and between values
(`Regroup.bits_pending`).
-/

namespace AgeCrypt
namespace Bech32

open Regroup

/-! ## An accumulator that is never cut -/

namespace Regroup

/-- The number whose digits of `source` bits are the values, the first one the most significant. -/
def wide (source : Nat) (values : Bytes) : Nat :=
  values.foldl (fun n v => (n <<< source) ||| v.toNat) 0

/-- One more value is shifted in at the low end. -/
theorem wide_concat (source : Nat) (values : Bytes) (v : UInt8) :
    wide source (values ++ [v]) = (wide source values <<< source) ||| v.toNat := by
  rw [wide, List.foldl_append]
  rfl

theorem Fits.of_concat {width : Nat} {values : Bytes} {v : UInt8} (h : Fits width (values ++ [v])) :
    Fits width values ∧ v.toNat < 2 ^ width :=
  ⟨fun x hx => h x (List.mem_append_left _ hx), h v (List.mem_concat_self)⟩

/-- A digit put behind a number is put behind its bits. -/
theorem bits_push {source : Nat} (width n : Nat) {v : Nat} (hv : v < 2 ^ source) :
    bits (width + source) ((n <<< source) ||| v) = bits width n ++ bits source v := by
  have hhigh : ((n <<< source) ||| v) >>> source = n := by
    rw [Nat.shiftRight_or_distrib, Nat.shiftLeft_shiftRight, Nat.shiftRight_eq_div_pow v,
      Nat.div_eq_of_lt hv, Nat.or_zero]
  have hlow : bits source ((n <<< source) ||| v) = bits source v := by
    refine bits_congr fun i hi => ?_
    rw [Nat.testBit_or, Nat.testBit_shiftLeft, decide_eq_false (Nat.not_le.2 hi), Bool.false_and,
      Bool.false_or]
  rw [bits_add, hhigh, hlow]

/-- It holds all that was read. -/
theorem bits_wide {source : Nat} {values : Bytes} (hvalues : Fits source values) :
    bits (source * values.length) (wide source values) = spell source values := by
  induction values using List.reverseRecOn with
  | nil => rfl
  | append_singleton values v ih =>
      rcases hvalues.of_concat with ⟨hfront, hv⟩
      rw [wide_concat, List.length_append, List.length_singleton, Nat.mul_add, Nat.mul_one,
        bits_push _ _ hv, ih hfront, spell_append, spell_cons, spell_nil, List.append_nil]

section

variable {source target : Nat}

/-- Between values the accumulator has all bits that have not been written. -/
theorem bits_pending (hs : source ≤ 8) (h0 : 0 < target) (h8 : target ≤ 8) {values : Bytes}
    (hvalues : Fits source values) {t : State}
    (ht : values.foldlM (push source target) {} = .ok t) :
    t.pending < target ∧
      spell target t.out.reverse ++ bits t.pending t.acc.toNat = spell source values ∧
      bits t.pending t.acc.toNat = bits t.pending (wide source values) := by
  rcases run_start hs h0 h8 hvalues with ⟨t', ht', hrun, hless, -⟩
  cases ht'.symm.trans ht
  refine ⟨hless, hrun, ?_⟩
  have hlength : source * values.length = target * t.out.length + t.pending := by
    have hcount := congrArg List.length hrun
    rw [State.run, List.length_append, length_spell, length_bits, length_spell,
      List.length_reverse] at hcount
    exact hcount.symm
  rw [State.run, ← bits_wide hvalues, hlength, bits_add] at hrun
  exact (List.append_inj' hrun (by rw [length_bits, length_bits])).2

/-- With a value loaded it still has them, and the value behind. -/
theorem bits_loaded (hs : source ≤ 8) (h0 : 0 < target) (h8 : target ≤ 8) {values : Bytes}
    {v : UInt8} (hvalues : Fits source (values ++ [v])) {t : State}
    (ht : values.foldlM (push source target) {} = .ok t) :
    bits (t.pending + source) (t.loaded source target v).acc.toNat =
      bits (t.pending + source) (wide source (values ++ [v])) := by
  rcases hvalues.of_concat with ⟨hfront, hv⟩
  rcases bits_pending hs h0 h8 hfront ht with ⟨hless, -, hpending⟩
  have hword : v.toUInt32.toNat < 2 ^ source := by
    rw [UInt8.toNat_toUInt32]
    exact hv
  calc bits (t.pending + source) (t.loaded source target v).acc.toNat
      = bits t.pending t.acc.toNat ++ bits source v.toUInt32.toNat :=
        bits_acc hs h8 hless hword
    _ = bits t.pending (wide source values) ++ bits source v.toNat := by
        rw [hpending, UInt8.toNat_toUInt32]
    _ = bits (t.pending + source) (wide source (values ++ [v])) := by
        rw [wide_concat, bits_push _ _ hv]

end

end Regroup

/-! ## To five bits and back -/

/-- Data is spelled by as many values as its bits fill, the last one maybe in part. -/
theorem Spells.length_values {data values : Bytes} (h : Spells data values) :
    values.length = (8 * data.length + 4) / 5 := by
  rcases h.length_eq with ⟨k, hk, hlen⟩
  omega

/-- Regrouping back undoes regrouping, and accepts nothing else. -/
theorem regroup_five_eq_ok_iff_regroup_eight {data values : Bytes} (hvalues : Fits 5 values) :
    regroup 5 8 false values = .ok data ↔ regroup 8 5 true data = .ok values :=
  (regroup_five_eq_ok_iff hvalues).trans regroup_eight_eq_ok_iff.symm

/-- Regrouping back asks first how many bits are left over, then whether they are zeros. -/
theorem regroup_five_cases {values : Bytes} (hvalues : Fits 5 values) :
    ∃ left : UInt32, ∃ data : Bytes, regroup 5 8 false values =
      if 5 ≤ 5 * values.length % 8 then
        .error .paddingTooLong
      else if left ≠ 0 then
        .error .paddingNotZero
      else
        .ok data := by
  rcases @run_start 5 8 (by decide) (by decide) (by decide) values hvalues with
    ⟨s, hs, hrun, hless, -⟩
  have hpending : 5 * values.length % 8 = s.pending := by
    have hcount := congrArg List.length hrun
    rw [State.run, List.length_append, length_spell, length_bits, length_spell] at hcount
    omega
  refine ⟨rest 8 s, s.out.reverse, ?_⟩
  simp only [regroup, bind, Except.bind, hs, Bool.false_eq_true, if_false, hpending, ge_iff_le]

/-- The first error tells that whole bits of padding are too many, whatever they are. -/
theorem regroup_five_eq_paddingTooLong_iff {values : Bytes} (hvalues : Fits 5 values) :
    regroup 5 8 false values = .error .paddingTooLong ↔ 5 ≤ 5 * values.length % 8 := by
  rcases regroup_five_cases hvalues with ⟨left, data, hcases⟩
  rw [hcases]
  by_cases hlong : 5 ≤ 5 * values.length % 8
  · simp [hlong]
  · rw [if_neg hlong]
    split <;> simp [hlong]

/-- The second error tells that the number of symbols is right, but no data is written so. -/
theorem regroup_five_eq_paddingNotZero_iff {values : Bytes} (hvalues : Fits 5 values) :
    regroup 5 8 false values = .error .paddingNotZero ↔
      5 * values.length % 8 < 5 ∧ ∀ data, regroup 8 5 true data ≠ .ok values := by
  have hnone : (∀ data, regroup 8 5 true data ≠ .ok values) ↔
      ∀ data, regroup 5 8 false values ≠ .ok data :=
    forall_congr' fun data => not_congr (regroup_five_eq_ok_iff_regroup_eight hvalues).symm
  rcases regroup_five_cases hvalues with ⟨left, data, hcases⟩
  rw [hnone, hcases]
  by_cases hlong : 5 ≤ 5 * values.length % 8
  · simp [hlong]
  · have hshort : 5 * values.length % 8 < 5 := Nat.lt_of_not_le hlong
    by_cases hleft : left ≠ 0
    · simp [hlong, hshort, hleft]
    · simp [hlong, hleft]

/-! ## Both together -/

/-- Bytes are regrouped to five bits whatever they are: to as many values as their bits fill, which
spell those bits and fewer than five zeros.  Values of five bits are regrouped back exactly if
regrouping gives them, and then to what it gives them from; they are refused for long padding
exactly if their number leaves five bits or more, and for padding that is not zero in all other
cases.  At every value, the accumulator has the bits that have not been written, as one would have
that is never cut. -/
theorem regrouping_is_canonical :
    (∀ data, ∃ values, regroup 8 5 true data = .ok values ∧
        values.length = (8 * data.length + 4) / 5 ∧ (∀ v ∈ values, v.toNat < 32) ∧
        ∃ k < 5, spell 5 values = spell 8 data ++ List.replicate k false) ∧
      (∀ values : Bytes, (∀ v ∈ values, v.toNat < 32) →
        (∀ data, regroup 5 8 false values = .ok data ↔ regroup 8 5 true data = .ok values) ∧
          (regroup 5 8 false values = .error .paddingTooLong ↔ 5 ≤ 5 * values.length % 8) ∧
          (regroup 5 8 false values = .error .paddingNotZero ↔
            5 * values.length % 8 < 5 ∧ ∀ data, regroup 8 5 true data ≠ .ok values)) ∧
      ∀ (source target : Nat) (values : Bytes) (v : UInt8), source ≤ 8 → 0 < target → target ≤ 8 →
        Fits source (values ++ [v]) →
        ∃ t, values.foldlM (push source target) {} = .ok t ∧ t.pending < target ∧
          spell target t.out.reverse ++ bits t.pending t.acc.toNat = spell source values ∧
          bits t.pending t.acc.toNat = bits t.pending (wide source values) ∧
          push source target t v = .ok (emit target (t.loaded source target v)) ∧
          bits (t.pending + source) (t.loaded source target v).acc.toNat =
            bits (t.pending + source) (wide source (values ++ [v])) := by
  refine ⟨fun data => ?_, fun values hvalues => ?_, fun source target values v hs h0 h8 hall => ?_⟩
  · rcases exists_regroup_eight data with ⟨values, hregroup, hspells⟩
    exact ⟨values, hregroup, hspells.length_values, hspells.1, hspells.2⟩
  · exact ⟨fun data => regroup_five_eq_ok_iff_regroup_eight hvalues,
      regroup_five_eq_paddingTooLong_iff hvalues, regroup_five_eq_paddingNotZero_iff hvalues⟩
  · rcases hall.of_concat with ⟨hfront, hv⟩
    rcases run_start hs h0 h8 hfront with ⟨t, ht, -, -, -⟩
    rcases bits_pending hs h0 h8 hfront ht with ⟨hless, hrun, hpending⟩
    exact ⟨t, ht, hless, hrun, hpending, push_eq_emit_loaded hs hv, bits_loaded hs h0 h8 hall ht⟩

/-- One value leaves five bits, which is more than padding has; two that spell a byte and two zeros
are read as that byte. -/
theorem regrouping_is_canonical_short :
    regroup 5 8 false [0] = .error .paddingTooLong ∧ regroup 5 8 false [0, 4] = .ok [1] := by
  rcases regrouping_is_canonical with ⟨-, hback, -⟩
  have hone : ∀ v ∈ ([0] : Bytes), v.toNat < 32 := by
    simp
  have htwo : ∀ v ∈ ([0, 4] : Bytes), v.toNat < 32 := by
    simp
  have hspells : Spells [1] [0, 4] := ⟨htwo, 2, by decide, by decide⟩
  exact ⟨(hback [0] hone).2.1.2 (by decide),
    ((hback [0, 4] htwo).1 [1]).2 (regroup_eight_eq_ok_iff.2 hspells)⟩

end Bech32
end AgeCrypt
