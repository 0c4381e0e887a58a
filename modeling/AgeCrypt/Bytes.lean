/-!
# Bytes

Byte strings are lists of bytes.  This module adds the two shapes the format needs beyond a plain
list:

* `Block n` — a byte string of exactly `n` bytes (keys, nonces, digests, tags);
* `Bytes.chunks n b` — `b` cut into runs of `n` bytes, the last of which may be shorter.

It also holds the big- and little-endian readings of a byte string as a number.
-/

namespace AgeCrypt

abbrev Bytes := List UInt8

namespace Bytes

/-- `b` cut from the front into runs of `size` bytes; only the last run may be shorter. -/
def chunks (size : Nat) (b : Bytes) : List Bytes :=
  if b = [] ∨ size = 0 then
    []
  else
    b.take size :: chunks size (b.drop size)
termination_by b.length
decreasing_by
  rename_i h
  have hb : b.length ≠ 0 := fun hl => h (Or.inl (List.length_eq_zero_iff.1 hl))
  have hs : size ≠ 0 := fun hl => h (Or.inr hl)
  simp only [List.length_drop]
  omega

/-- The number whose base-256 digits are `b`, least significant first. -/
def toNatLE : Bytes → Nat
  | [] => 0
  | x :: rest => x.toNat + 256 * toNatLE rest

/-- The bytes of an ASCII text.  Every use is on a literal below code point 128. -/
def ascii (text : String) : Bytes :=
  text.toList.map fun c => UInt8.ofNat c.toNat

theorem dropWhile_eq_self {p : UInt8 → Bool} {b : Bytes} (h : ∀ x ∈ b, p x = false) :
    b.dropWhile p = b := by
  cases b with
  | nil => rfl
  | cons x b =>
      have hx := h x (List.mem_cons_self ..)
      rw [List.dropWhile_cons, hx]
      rfl

@[simp] theorem size_append (a : Array UInt8) (b : Bytes) : (a ++ b).size = a.size + b.length := by
  rw [← Array.length_toList, Array.toList_appendList, List.length_append, Array.length_toList]

end Bytes

/-- A byte string of exactly `n` bytes. -/
structure Block (n : Nat) where
  bytes : Bytes
  length_eq : bytes.length = n
deriving DecidableEq

namespace Block

variable {n : Nat}

def ofBytes? (n : Nat) (b : Bytes) : Option (Block n) :=
  if h : b.length = n then some ⟨b, h⟩ else none

def zeros (n : Nat) : Block n :=
  ⟨List.replicate n 0, by simp⟩

/-- The `n` lowest base-256 digits of `v`, least significant first. -/
def ofNatLE (n v : Nat) : Block n :=
  ⟨(List.range n).map fun i => UInt8.ofNat (v >>> (8 * i)), by simp⟩

/-- The `n` lowest base-256 digits of `v`, most significant first. -/
def ofNatBE (n v : Nat) : Block n :=
  ⟨(ofNatLE n v).bytes.reverse, by simp [(ofNatLE n v).length_eq]⟩

def append {m : Nat} (a : Block n) (b : Block m) : Block (n + m) :=
  ⟨a.bytes ++ b.bytes, by simp [a.length_eq, b.length_eq]⟩

@[ext] theorem ext {a b : Block n} (h : a.bytes = b.bytes) : a = b := by
  cases a
  cases b
  cases h
  rfl

theorem bytes_ne_nil (hn : n ≠ 0) (a : Block n) : a.bytes ≠ [] := by
  intro hnil
  exact hn (by rw [← a.length_eq, hnil, List.length_nil])

@[simp] theorem ofBytes?_bytes (a : Block n) : ofBytes? n a.bytes = some a := by
  simp [ofBytes?, a.length_eq]

/-- The digits of a number, read as a number again. -/
theorem toNatLE_ofNatLE (n v : Nat) : Bytes.toNatLE (ofNatLE n v).bytes = v % Nat.pow 256 n := by
  induction n generalizing v with
  | zero =>
      simp [ofNatLE, Bytes.toNatLE, Nat.mod_one]
  | succ n ih =>
      have hshift : ∀ i, v >>> (8 * (i + 1)) = (v >>> 8) >>> (8 * i) := by
        intro i
        rw [← Nat.shiftRight_add, Nat.mul_add, Nat.mul_one, Nat.add_comm]
      have hrest := ih (v >>> 8)
      simp only [ofNatLE] at hrest
      simp only [ofNatLE, List.range_succ_eq_map, List.map_cons, List.map_map, Function.comp_def,
        Nat.succ_eq_add_one, hshift, Bytes.toNatLE, hrest]
      have hpow : Nat.pow 256 (n + 1) = 256 * Nat.pow 256 n := Nat.mul_comm _ _
      rw [hpow, Nat.mod_mul, Nat.shiftRight_eq_div_pow v 8]
      simp

/-- Numbers that fit are told apart by their digits. -/
theorem ofNatBE_inj {n v w : Nat} (hv : v < Nat.pow 256 n) (hw : w < Nat.pow 256 n)
    (h : ofNatBE n v = ofNatBE n w) : v = w := by
  have hbytes : (ofNatLE n v).bytes = (ofNatLE n w).bytes :=
    List.reverse_inj.1 (congrArg Block.bytes h)
  have hnat := congrArg Bytes.toNatLE hbytes
  rwa [toNatLE_ofNatLE, toNatLE_ofNatLE, Nat.mod_eq_of_lt hv, Nat.mod_eq_of_lt hw] at hnat

/-- Two blocks can be told from their concatenation, since their sizes are fixed. -/
theorem append_inj {m : Nat} {a a' : Block n} {b b' : Block m} (h : a.append b = a'.append b') :
    a = a' ∧ b = b' := by
  have hlen : a.bytes.length = a'.bytes.length := by
    rw [a.length_eq, a'.length_eq]
  have hbytes := List.append_inj (congrArg Block.bytes h) hlen
  exact ⟨Block.ext hbytes.1, Block.ext hbytes.2⟩

theorem bytes_of_ofBytes? {b : Bytes} {a : Block n} (h : ofBytes? n b = some a) : a.bytes = b := by
  unfold ofBytes? at h
  split at h
  · cases h
    rfl
  · cases h

end Block

end AgeCrypt
