import AgeCrypt.Bech32.Checksum
import AgeCrypt.Proofs.Bech32.Regroup

/-!
# The checksum is unique

A step of the remainder is linear in exclusive or, in the remainder and in the symbol together
(`remainderStep_xor`), so the remainder of a list of symbols is too (`foldl_remainderStep_xor`).
Until the bits of a symbol reach the top of the word, a step only moves them up, so six symbols
after zero remainder are the thirty bits that they spell (`bits_remainder_of_short`).

Together: what six symbols add to a remainder is what they spell, so for any data exactly one
choice of six symbols is verified, and `checksum` makes it (`verify_append_iff`).
-/

namespace AgeCrypt
namespace Bech32

open Regroup

/-! ## Linearity -/

/-- What the bits of `top` select of the generators, each with its place. -/
def selection (top : UInt32) (places : List (UInt32 × Nat)) (init : UInt32) : UInt32 :=
  places.foldl (fun acc g => if (top >>> UInt32.ofNat g.2) &&& 1 = 1 then acc ^^^ g.1 else acc) init

/-- A step shifts the remainder and adds what the bits shifted out select. -/
theorem remainderStep_eq (chk : UInt32) (v : UInt8) :
    remainderStep chk v = selection (chk >>> 25) generators.zipIdx
      (((chk &&& 0x1ffffff) <<< 5) ^^^ v.toUInt32) := rfl

theorem and_xor (a b mask : UInt32) : (a ^^^ b) &&& mask = (a &&& mask) ^^^ (b &&& mask) := by
  rw [← UInt32.toBitVec_inj]
  simp only [UInt32.toBitVec_and, UInt32.toBitVec_xor]
  ext i
  simp only [BitVec.getElem_and, BitVec.getElem_xor, Bool.and_xor_distrib_right]

/-- A bit is clear or set. -/
theorem and_one (x : UInt32) : x &&& 1 = 0 ∨ x &&& 1 = 1 := by
  have hbit : (x &&& 1).toNat = x.toNat % 2 := Nat.and_one_is_mod _
  rcases Nat.mod_two_eq_zero_or_one x.toNat with h | h
  · exact .inl (UInt32.toNat_inj.1 (hbit.trans h))
  · exact .inr (UInt32.toNat_inj.1 (hbit.trans h))

theorem xor_xor_xor_comm (a b c d : UInt32) :
    (a ^^^ b) ^^^ (c ^^^ d) = (a ^^^ c) ^^^ (b ^^^ d) := by
  rw [UInt32.xor_assoc, UInt32.xor_assoc, ← UInt32.xor_assoc b, UInt32.xor_comm b,
    UInt32.xor_assoc c]

/-- Selecting is linear. -/
theorem selection_xor (top top' : UInt32) (places : List (UInt32 × Nat)) (init init' : UInt32) :
    selection (top ^^^ top') places (init ^^^ init') =
      selection top places init ^^^ selection top' places init' := by
  induction places generalizing init init' with
  | nil => rfl
  | cons g places ih =>
      simp only [selection, List.foldl_cons] at ih ⊢
      rw [← ih, UInt32.shiftRight_xor, and_xor]
      congr 1
      -- a generator that both select cancels
      rcases and_one (top >>> UInt32.ofNat g.2) with h | h <;>
        rcases and_one (top' >>> UInt32.ofNat g.2) with h' | h' <;> rw [h, h']
      · simp
      · simp [UInt32.xor_assoc]
      · simp only [UInt32.xor_zero, if_true]
        rw [if_neg (by decide), UInt32.xor_assoc, UInt32.xor_assoc, UInt32.xor_comm g.1]
      · rw [UInt32.xor_self, if_neg (by decide), if_pos rfl, if_pos rfl, xor_xor_xor_comm,
          UInt32.xor_self, UInt32.xor_zero]

/-- A step of the remainder is linear. -/
theorem remainderStep_xor (chk chk' : UInt32) (v v' : UInt8) :
    remainderStep (chk ^^^ chk') (v ^^^ v') = remainderStep chk v ^^^ remainderStep chk' v' := by
  rw [remainderStep_eq, remainderStep_eq, remainderStep_eq, ← selection_xor,
    UInt32.shiftRight_xor, and_xor, UInt32.shiftLeft_xor, UInt8.toUInt32_xor, xor_xor_xor_comm]

/-- The remainder is linear, symbol by symbol. -/
theorem foldl_remainderStep_xor (chk chk' : UInt32) {a b : Bytes} (hlen : a.length = b.length) :
    (List.zipWith (· ^^^ ·) a b).foldl remainderStep (chk ^^^ chk') =
      a.foldl remainderStep chk ^^^ b.foldl remainderStep chk' := by
  induction a generalizing b chk chk' with
  | nil =>
      cases List.length_eq_zero_iff.1 hlen.symm
      rfl
  | cons v a ih =>
      cases b with
      | nil => cases hlen
      | cons w b =>
          rw [List.zipWith_cons_cons, List.foldl_cons, List.foldl_cons, List.foldl_cons,
            remainderStep_xor]
          exact ih _ _ (Nat.succ.inj hlen)

/-- What symbols add to the remainder does not depend on what stands before them. -/
theorem foldl_remainderStep_eq (chk : UInt32) (values : Bytes) :
    values.foldl remainderStep chk =
      (List.replicate values.length 0).foldl remainderStep chk ^^^
        values.foldl remainderStep 0 := by
  rw [← foldl_remainderStep_xor chk 0 (List.length_replicate ..), UInt32.xor_zero]
  congr 1
  induction values with
  | nil => rfl
  | cons v values ih =>
      rw [List.length_cons, List.replicate_succ, List.zipWith_cons_cons, UInt8.zero_xor, ← ih]

/-! ## Thirty bits -/

theorem toNat_shifted (chk : UInt32) :
    ((chk &&& 0x1ffffff) <<< 5).toNat = chk.toNat % 2 ^ 25 * 32 := by
  have hmask : (chk &&& 0x1ffffff).toNat = chk.toNat % 2 ^ 25 :=
    Nat.and_two_pow_sub_one_eq_mod _ 25
  rw [UInt32.toNat_shiftLeft, hmask, Nat.shiftLeft_eq]
  have hless : chk.toNat % 2 ^ 25 < 2 ^ 25 := Nat.mod_lt _ (by decide)
  exact Nat.mod_eq_of_lt (by simp; omega)

/-- Selecting stays below a power of two that bounds all there is to select. -/
theorem toNat_selection_lt {n : Nat} {places : List (UInt32 × Nat)}
    (hplaces : ∀ g ∈ places, g.1.toNat < 2 ^ n) {init : UInt32} (hinit : init.toNat < 2 ^ n)
    (top : UInt32) : (selection top places init).toNat < 2 ^ n := by
  induction places generalizing init with
  | nil => exact hinit
  | cons g places ih =>
      refine ih (fun g' hg' => hplaces g' (List.mem_cons_of_mem _ hg')) ?_
      dsimp only
      split
      · rw [UInt32.toNat_xor]
        exact Nat.xor_lt_two_pow hinit (hplaces g (List.mem_cons_self ..))
      · exact hinit

/-- A remainder has thirty bits. -/
theorem toNat_remainderStep_lt (chk : UInt32) {v : UInt8} (hv : v.toNat < 2 ^ 5) :
    (remainderStep chk v).toNat < 2 ^ 30 := by
  have hgenerators : ∀ g ∈ generators.zipIdx, g.1.toNat < 2 ^ 30 := by
    decide
  refine toNat_selection_lt hgenerators ?_ _
  have hless : chk.toNat % 2 ^ 25 < 2 ^ 25 := Nat.mod_lt _ (by decide)
  rw [UInt32.toNat_xor, toNat_shifted, UInt8.toNat_toUInt32]
  exact Nat.xor_lt_two_pow (by omega) (Nat.lt_trans hv (by decide))

/-- A remainder of symbols has thirty bits. -/
theorem toNat_foldl_remainderStep_lt {values : Bytes} (hne : values ≠ []) (hfits : Fits 5 values)
    (chk : UInt32) : (values.foldl remainderStep chk).toNat < 2 ^ 30 := by
  induction values generalizing chk with
  | nil => exact absurd rfl hne
  | cons v values ih =>
      rw [List.foldl_cons]
      by_cases hnil : values = []
      · rw [hnil]
        exact toNat_remainderStep_lt chk (hfits v (List.mem_cons_self ..))
      · exact ih hnil (fun w hw => hfits w (List.mem_cons_of_mem _ hw)) _

/-- While the top bits are clear, a step moves the others up and puts the symbol below them. -/
theorem toNat_remainderStep_of_lt {chk : UInt32} (hchk : chk.toNat < 2 ^ 25) (v : UInt8) :
    (remainderStep chk v).toNat = (chk.toNat <<< 5) ^^^ v.toNat := by
  have htop : chk >>> 25 = 0 := by
    rw [← UInt32.toNat_inj, UInt32.toNat_shiftRight]
    exact (Nat.shiftRight_eq_div_pow _ _).trans (Nat.div_eq_of_lt hchk)
  have hnone : ∀ init, selection 0 generators.zipIdx init = init := fun init => rfl
  rw [remainderStep_eq, htop, hnone, UInt32.toNat_xor, toNat_shifted, UInt8.toNat_toUInt32,
    Nat.mod_eq_of_lt hchk, Nat.shiftLeft_eq]

/-- As long as nothing is shifted out, the remainder spells the symbols it was given. -/
theorem bits_remainderStep {n : Nat} (hn : n ≤ 5) {chk : UInt32} (hchk : chk.toNat < 2 ^ (5 * n))
    {v : UInt8} (hv : v.toNat < 2 ^ 5) :
    bits (5 * n + 5) (remainderStep chk v).toNat = bits (5 * n) chk.toNat ++ bits 5 v.toNat ∧
      (remainderStep chk v).toNat < 2 ^ (5 * n + 5) := by
  have hpow : 2 ^ (5 * n) ≤ 2 ^ 25 := Nat.pow_le_pow_right (by decide) (by omega)
  rw [toNat_remainderStep_of_lt (Nat.lt_of_lt_of_le hchk hpow)]
  constructor
  · rw [bits_add]
    congr 1
    · refine bits_congr fun i _ => ?_
      have hhigh : v.toNat.testBit (5 + i) = false := Nat.testBit_lt_two_pow
        (Nat.lt_of_lt_of_le hv (Nat.pow_le_pow_right (by decide) (Nat.le_add_right _ _)))
      simp [Nat.testBit_shiftLeft, hhigh]
    · refine bits_congr fun i hi => ?_
      simp [Nat.testBit_shiftLeft, Nat.not_le.2 hi]
  · refine Nat.xor_lt_two_pow ?_ ?_
    · rw [Nat.shiftLeft_eq, Nat.pow_add]
      exact Nat.mul_lt_mul_of_pos_right hchk (by decide)
    · exact Nat.lt_of_lt_of_le hv (Nat.pow_le_pow_right (by decide) (Nat.le_add_left _ _))

/-- At most six symbols in all leave the bits that they spell. -/
theorem bits_foldl_remainderStep {n : Nat} {chk : UInt32} (hchk : chk.toNat < 2 ^ (5 * n))
    {values : Bytes} (hlen : n + values.length ≤ 6) (hfits : Fits 5 values) :
    bits (5 * (n + values.length)) (values.foldl remainderStep chk).toNat =
        bits (5 * n) chk.toNat ++ spell 5 values ∧
      (values.foldl remainderStep chk).toNat < 2 ^ (5 * (n + values.length)) := by
  induction values generalizing n chk with
  | nil => simpa using hchk
  | cons v values ih =>
      rw [List.length_cons] at hlen
      rcases bits_remainderStep (by omega) hchk (hfits v (List.mem_cons_self ..)) with
        ⟨hbits, hless⟩
      have hrest := ih (n := n + 1) hless (by omega) fun w hw => hfits w (List.mem_cons_of_mem _ hw)
      have hcount : n + (v :: values).length = n + 1 + values.length := by
        rw [List.length_cons]
        omega
      rw [hcount, List.foldl_cons, spell_cons, ← List.append_assoc, ← hbits]
      exact hrest

/-! ## Six symbols -/

/-- The thirty bits that data lacks to leave the remainder one. -/
def missing (human values : Bytes) : UInt32 :=
  remainder (expand human ++ values ++ List.replicate checksumLength 0) ^^^ 1

theorem toNat_missing_lt (human values : Bytes) : (missing human values).toNat < 2 ^ 30 := by
  have hzeros : Fits 5 (List.replicate checksumLength 0) := by
    intro v hv
    rw [List.eq_of_mem_replicate hv]
    decide
  rw [missing, remainder, List.foldl_append, UInt32.toNat_xor]
  exact Nat.xor_lt_two_pow (toNat_foldl_remainderStep_lt (by decide) hzeros _) (by decide)

/-- What symbols add to the remainder of data is what they leave on their own. -/
theorem remainder_append {human values symbols : Bytes} (hlen : symbols.length = checksumLength) :
    remainder (expand human ++ (values ++ symbols)) =
      missing human values ^^^ 1 ^^^ symbols.foldl remainderStep 0 := by
  rw [missing, UInt32.xor_assoc _ 1 1, UInt32.xor_self, UInt32.xor_zero, ← List.append_assoc,
    remainder, remainder, List.foldl_append, foldl_remainderStep_eq, hlen, ← List.foldl_append]

theorem lowBits_five : lowBits 5 = 31 := by
  decide

/-- Every symbol of a checksum has five bits. -/
theorem fits_checksum (human values : Bytes) : Fits 5 (checksum human values) := by
  intro v hv
  rcases List.mem_map.1 hv with ⟨i, -, rfl⟩
  rw [← lowBits_five]
  exact toNat_group_lt _ (by decide)

@[simp] theorem length_checksum (human values : Bytes) :
    (checksum human values).length = checksumLength := by
  simp [checksum]

/-- The symbols of a checksum spell the bits that are missing. -/
theorem spell_checksum (human values : Bytes) :
    spell 5 (checksum human values) = bits 30 (missing human values).toNat := by
  have hgroup : ∀ n < 32, bits 5 ((missing human values >>> UInt32.ofNat n) &&& 31).toUInt8.toNat =
      bits 5 ((missing human values).toNat >>> n) := by
    intro n hn
    rw [← lowBits_five, bits_group _ (by decide), toNat_shiftRight_ofNat _ hn]
  have hlast := hgroup 0 (by decide)
  rw [Nat.shiftRight_zero] at hlast
  have hsplit : 30 = 5 + (5 + (5 + (5 + (5 + 5)))) := rfl
  rw [hsplit, bits_add, bits_add, bits_add, bits_add, bits_add, ← hgroup 25 (by decide),
    ← hgroup 20 (by decide), ← hgroup 15 (by decide), ← hgroup 10 (by decide),
    ← hgroup 5 (by decide), ← hlast]
  rfl

/-- Six symbols are verified behind data just if they are its checksum. -/
theorem verify_append_iff {human values symbols : Bytes} (hfits : Fits 5 symbols)
    (hlen : symbols.length = checksumLength) :
    verify human (values ++ symbols) = true ↔ symbols = checksum human values := by
  have hzero : (0 : UInt32).toNat < 2 ^ (5 * 0) := by
    decide
  have hroom : 0 + symbols.length ≤ 6 := by
    rw [Nat.zero_add, hlen]
    exact Nat.le_refl _
  rcases bits_foldl_remainderStep hzero hroom hfits with ⟨hbits, hless⟩
  rw [Nat.zero_add, hlen] at hbits hless
  have hspell : spell 5 symbols = bits 30 (symbols.foldl remainderStep 0).toNat := hbits.symm
  calc verify human (values ++ symbols) = true
      ↔ missing human values ^^^ 1 ^^^ symbols.foldl remainderStep 0 = 1 := by
        rw [verify, beq_iff_eq, remainder_append hlen]
    _ ↔ symbols.foldl remainderStep 0 = missing human values := by
        have hone : (1 : UInt32) = 0 ^^^ 1 := rfl
        rw [UInt32.xor_assoc, UInt32.xor_comm 1, ← UInt32.xor_assoc]
        conv => lhs; rhs; rw [hone]
        rw [UInt32.xor_left_inj, UInt32.xor_eq_zero_iff, eq_comm]
    _ ↔ spell 5 symbols = spell 5 (checksum human values) := by
        rw [hspell, spell_checksum]
        exact ⟨fun h => by rw [h], fun h => UInt32.toNat_inj.1
          (bits_inj hless (toNat_missing_lt human values) h)⟩
    _ ↔ symbols = checksum human values :=
        ⟨spell_inj hfits (fits_checksum human values) (by rw [hlen, length_checksum]),
          fun h => by rw [h]⟩

end Bech32
end AgeCrypt
