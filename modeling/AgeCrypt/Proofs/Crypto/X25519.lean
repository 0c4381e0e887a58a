import AgeCrypt.Crypto.X25519

/-!
# Encodings of field elements

A public key stands for a field element, and up to four byte strings stand for the same one: the
highest bit is dropped, and small elements can also be written with the size of the field added.
One of them is canonical (`X25519.IsCanonical`, `X25519.eq_of_coordinate`).  Agreement depends on
the element only (`X25519.agree_congr`), and what it comes to is canonical
(`X25519.isCanonical_agree`).
-/

namespace AgeCrypt

/-- Bytes of one length that stand for the same number are the same. -/
theorem Bytes.eq_of_toNatLE {a b : Bytes} (hlength : a.length = b.length)
    (h : toNatLE a = toNatLE b) : a = b := by
  induction a generalizing b with
  | nil => exact (List.length_eq_zero_iff.1 hlength.symm).symm
  | cons x a ih =>
      cases b with
      | nil => cases hlength
      | cons y b =>
          rw [toNatLE, toNatLE] at h
          have hx := x.toNat_lt
          have hy := y.toNat_lt
          have hbyte : x = y := UInt8.toNat_inj.1 (by omega)
          have hrest : toNatLE a = toNatLE b := by omega
          rw [hbyte, ih (Nat.succ.inj hlength) hrest]

namespace Crypto
namespace X25519

/-- The bytes stand for a number below the size of the field. -/
def IsCanonical (point : Block 32) : Prop :=
  Bytes.toNatLE point.bytes < fieldSize

instance (point : Block 32) : Decidable (IsCanonical point) :=
  inferInstanceAs (Decidable (_ < _))

variable {p q : Block 32}

/-- Nothing is dropped from a canonical point. -/
theorem coordinate_of_isCanonical (h : IsCanonical p) : coordinate p = Bytes.toNatLE p.bytes := by
  have hbound : fieldSize < Nat.pow 2 255 := by
    decide
  rw [coordinate, Nat.mod_eq_of_lt (Nat.lt_trans h hbound), Nat.mod_eq_of_lt h]

/-- A field element has one canonical encoding. -/
theorem eq_of_coordinate (hp : IsCanonical p) (hq : IsCanonical q)
    (h : coordinate p = coordinate q) : p = q := by
  rw [coordinate_of_isCanonical hp, coordinate_of_isCanonical hq] at h
  exact Block.ext (Bytes.eq_of_toNatLE (p.length_eq.trans q.length_eq.symm) h)

/-- Agreement does not tell encodings apart. -/
theorem agree_congr (secret : Block 32) (h : coordinate p = coordinate q) :
    agree secret p = agree secret q := by
  rw [agree, agree, h]

/-- What is agreed on is in canonical form. -/
theorem isCanonical_agree (secret point : Block 32) : IsCanonical (agree secret point) := by
  have hfield : 0 < fieldSize ∧ fieldSize < Nat.pow 256 32 := by
    decide
  have hless : multiply (scalar secret) (coordinate point) < fieldSize := Nat.mod_lt _ hfield.1
  rw [IsCanonical, agree, Block.toNatLE_ofNatLE, Nat.mod_eq_of_lt (Nat.lt_trans hless hfield.2)]
  exact hless

end X25519
end Crypto
end AgeCrypt
