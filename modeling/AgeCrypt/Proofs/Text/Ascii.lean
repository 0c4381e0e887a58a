import AgeCrypt.Text.Ascii
import AgeCrypt.Text.Utf8

/-!
# ASCII texts and their bytes

A visible byte is ASCII, and its lower-case form is visible too.  The case maps undo each other
where there is a letter to undo.  A text of ASCII characters and the list of its bytes have the same
letters, the same case and the same beginnings, so what is said of the bytes can be said of the
text.
-/

namespace AgeCrypt

/-! ## Bytes -/

namespace Ascii

theorem isUpper_iff {x : UInt8} : isUpper x = true ↔ 65 ≤ x.toNat ∧ x.toNat ≤ 90 := by
  simp [isUpper, UInt8.le_iff_toNat_le]

theorem isLower_iff {x : UInt8} : isLower x = true ↔ 97 ≤ x.toNat ∧ x.toNat ≤ 122 := by
  simp [isLower, UInt8.le_iff_toNat_le]

theorem isDigit_iff {x : UInt8} : isDigit x = true ↔ 48 ≤ x.toNat ∧ x.toNat ≤ 57 := by
  simp [isDigit, UInt8.le_iff_toNat_le]

theorem isVisible_iff {x : UInt8} : isVisible x = true ↔ 33 ≤ x.toNat ∧ x.toNat ≤ 126 := by
  simp [isVisible, UInt8.le_iff_toNat_le]

/-- A visible character is ASCII, and neither a blank nor a line break. -/
theorem of_isVisible {x : UInt8} (h : isVisible x = true) :
    x < 128 ∧ x ≠ space ∧ x ≠ newline ∧ x ≠ carriageReturn := by
  simp only [isVisible, Bool.and_eq_true, decide_eq_true_eq] at h
  rcases h with ⟨hlow, hhigh⟩
  refine ⟨UInt8.lt_of_le_of_lt hhigh (by decide), ?_, ?_, ?_⟩
  all_goals
    rintro rfl
    exact absurd hlow (by decide)

theorem toNat_toLower (x : UInt8) :
    (toLower x).toNat = if isUpper x then x.toNat + 32 else x.toNat := by
  unfold toLower
  split
  · rename_i h
    have hbounds := isUpper_iff.1 h
    rw [UInt8.toNat_add]
    exact Nat.mod_eq_of_lt (show x.toNat + 32 < 256 by omega)
  · rfl

theorem toNat_toUpper (x : UInt8) :
    (toUpper x).toNat = if isLower x then x.toNat - 32 else x.toNat := by
  unfold toUpper
  split
  · rename_i h
    have hbounds := isLower_iff.1 h
    exact UInt8.toNat_sub_of_le _ _ (UInt8.le_iff_toNat_le.2 (show 32 ≤ x.toNat by omega))
  · rfl

@[simp] theorem isVisible_toLower (x : UInt8) : isVisible (toLower x) = isVisible x := by
  rw [Bool.eq_iff_iff, isVisible_iff, isVisible_iff, toNat_toLower]
  split
  · rename_i h
    have hbounds := isUpper_iff.1 h
    omega
  · rfl

@[simp] theorem isUpper_toLower (x : UInt8) : isUpper (toLower x) = false := by
  rw [Bool.eq_false_iff, Ne, isUpper_iff, toNat_toLower]
  split
  · rename_i h
    have hbounds := isUpper_iff.1 h
    omega
  · rename_i h
    rwa [isUpper_iff] at h

@[simp] theorem isLower_toUpper (x : UInt8) : isLower (toUpper x) = false := by
  rw [Bool.eq_false_iff, Ne, isLower_iff, toNat_toUpper]
  split
  · rename_i h
    have hbounds := isLower_iff.1 h
    omega
  · rename_i h
    rwa [isLower_iff] at h

theorem toLower_of_not_isUpper {x : UInt8} (h : isUpper x = false) : toLower x = x := by
  rw [toLower, h, if_neg Bool.false_ne_true]

theorem toUpper_of_not_isLower {x : UInt8} (h : isLower x = false) : toUpper x = x := by
  rw [toUpper, h, if_neg Bool.false_ne_true]

@[simp] theorem toLower_toLower (x : UInt8) : toLower (toLower x) = toLower x :=
  toLower_of_not_isUpper (isUpper_toLower x)

/-- The upper-case form of a small letter is a capital. -/
theorem isUpper_toUpper {x : UInt8} (h : isLower x = true) : isUpper (toUpper x) = true := by
  have hbounds := isLower_iff.1 h
  rw [isUpper_iff, toNat_toUpper, if_pos h]
  omega

theorem isLower_toLower {x : UInt8} (h : isUpper x = true) : isLower (toLower x) = true := by
  have hbounds := isUpper_iff.1 h
  rw [isLower_iff, toNat_toLower, if_pos h]
  omega

@[simp] theorem toLower_toUpper (x : UInt8) : toLower (toUpper x) = toLower x := by
  cases h : isLower x with
  | false => rw [toUpper_of_not_isLower h]
  | true =>
      have hbounds := isLower_iff.1 h
      have hsmall : isUpper x = false := by
        rw [Bool.eq_false_iff, Ne, isUpper_iff]
        omega
      rw [toLower_of_not_isUpper hsmall, ← UInt8.toNat_inj, toNat_toLower,
        if_pos (isUpper_toUpper h), toNat_toUpper, if_pos h]
      omega

theorem toUpper_toLower {x : UInt8} (h : isLower x = false) : toUpper (toLower x) = x := by
  cases hcapital : isUpper x with
  | false => rw [toLower_of_not_isUpper hcapital, toUpper_of_not_isLower h]
  | true =>
      rw [← UInt8.toNat_inj, toNat_toUpper, if_pos (isLower_toLower hcapital), toNat_toLower,
        if_pos hcapital]
      omega

theorem map_toLower_toLower (b : Bytes) : (b.map toLower).map toLower = b.map toLower := by
  rw [List.map_map]
  exact List.map_congr_left fun x _ => toLower_toLower x

theorem map_toUpper_toUpper (b : Bytes) : (b.map toUpper).map toUpper = b.map toUpper := by
  rw [List.map_map]
  exact List.map_congr_left fun x _ => toUpper_of_not_isLower (isLower_toUpper x)

theorem map_toLower_toUpper (b : Bytes) : (b.map toUpper).map toLower = b.map toLower := by
  rw [List.map_map]
  exact List.map_congr_left fun x _ => toLower_toUpper x

/-- Bytes without capitals are their own lower-case form. -/
theorem map_toLower_of_any {b : Bytes} (h : b.any isUpper = false) : b.map toLower = b := by
  refine (List.map_congr_left fun x hx => ?_).trans (List.map_id b)
  exact toLower_of_not_isUpper (Bool.eq_false_iff.2 (List.any_eq_false.1 h x hx))

theorem map_toUpper_toLower_of_any {b : Bytes} (h : b.any isLower = false) :
    (b.map toLower).map toUpper = b := by
  rw [List.map_map]
  refine (List.map_congr_left fun x hx => ?_).trans (List.map_id b)
  exact toUpper_toLower (Bool.eq_false_iff.2 (List.any_eq_false.1 h x hx))

end Ascii

/-! ## Texts -/

namespace Text

open Ascii

def char (x : UInt8) : Char :=
  Char.ofNat x.toNat

theorem toNat_char (x : UInt8) : (char x).toNat = x.toNat := by
  have hvalid : x.toNat.isValidChar := .inl (Nat.lt_trans x.toNat_lt (by decide))
  rw [char, Char.ofNat, dif_pos hvalid]
  rfl

theorem char_inj {x y : UInt8} : char x = char y ↔ x = y := by
  constructor
  · intro h
    rw [← UInt8.toNat_inj, ← toNat_char, ← toNat_char, h]
  · rintro rfl
    rfl

theorem isLower_char (x : UInt8) : (char x).isLower = isLower x := by
  change (decide ('a'.val ≤ (char x).val) && decide ((char x).val ≤ 'z'.val)) = isLower x
  rw [Bool.eq_iff_iff, isLower_iff, ← toNat_char, Bool.and_eq_true, decide_eq_true_iff,
    decide_eq_true_iff, UInt32.le_iff_toNat_le, UInt32.le_iff_toNat_le]
  rfl

theorem isUpper_char (x : UInt8) : (char x).isUpper = isUpper x := by
  change decide ('A'.val ≤ (char x).val ∧ (char x).val ≤ 'Z'.val) = isUpper x
  rw [Bool.eq_iff_iff, isUpper_iff, ← toNat_char, decide_eq_true_iff, UInt32.le_iff_toNat_le,
    UInt32.le_iff_toNat_le]
  rfl

theorem toLower_char (x : UInt8) : (char x).toLower = char (toLower x) := by
  cases h : isUpper x with
  | false =>
      have hother : (char x).toLower = char x :=
        dif_neg (of_decide_eq_false ((isUpper_char x).trans h))
      rw [hother, toLower_of_not_isUpper h]
  | true =>
      have hcapital : (char x).toLower = ⟨(char x).val + 32, _⟩ :=
        dif_pos (of_decide_eq_true ((isUpper_char x).trans h))
      have hbounds := isUpper_iff.1 h
      rw [← Char.toNat_inj, toNat_char, toNat_toLower, if_pos h, hcapital]
      change ((char x).val + 32).toNat = x.toNat + 32
      rw [UInt32.toNat_add]
      change ((char x).toNat + 32) % 2 ^ 32 = x.toNat + 32
      rw [toNat_char]
      omega

theorem toUpper_char (x : UInt8) : (char x).toUpper = char (toUpper x) := by
  have hclass : ('a'.val ≤ (char x).val ∧ (char x).val ≤ 'z'.val) ↔ isLower x = true := by
    rw [← isLower_char]
    change _ ↔ (decide ('a'.val ≤ (char x).val) && decide ((char x).val ≤ 'z'.val)) = true
    rw [Bool.and_eq_true, decide_eq_true_iff, decide_eq_true_iff]
  cases h : isLower x with
  | false =>
      have hother : (char x).toUpper = char x :=
        dif_neg fun hsmall => Bool.false_ne_true (h.symm.trans (hclass.1 hsmall))
      rw [hother, toUpper_of_not_isLower h]
  | true =>
      have hsmall : (char x).toUpper = ⟨(char x).val + ('A'.val - 'a'.val), _⟩ :=
        dif_pos (hclass.2 h)
      have hbounds := isLower_iff.1 h
      have hvalue : (char x).val.toNat = x.toNat := toNat_char x
      have hshift : ('A'.val - 'a'.val).toNat = 2 ^ 32 - 32 := by
        decide
      rw [← Char.toNat_inj, toNat_char, toNat_toUpper, if_pos h, hsmall]
      change ((char x).val + ('A'.val - 'a'.val)).toNat = x.toNat - 32
      rw [UInt32.toNat_add, hshift, hvalue]
      omega

/-- A character is ASCII if its lower-case form is. -/
theorem toNat_lt_of_toLower {c : Char} (h : c.toLower.toNat < 128) : c.toNat < 128 := by
  by_cases hcapital : 'A'.val ≤ c.val ∧ c.val ≤ 'Z'.val
  · exact Nat.lt_of_le_of_lt (UInt32.le_iff_toNat_le.1 hcapital.2) (by decide)
  · have hother : c.toLower = c := dif_neg hcapital
    rwa [hother] at h

theorem toList_toLower (s : String) : s.toLower.toList = s.toList.map Char.toLower :=
  String.toList_map

theorem toList_toUpper (s : String) : s.toUpper.toList = s.toList.map Char.toUpper :=
  String.toList_map

theorem toList_ofAscii (b : Bytes) : (ofAscii b).toList = b.map char :=
  String.toList_ofList

@[simp] theorem length_ofAscii (b : Bytes) : (ofAscii b).length = b.length := by
  rw [← String.length_toList, toList_ofAscii, List.length_map]

theorem ofAscii_append (a b : Bytes) : ofAscii (a ++ b) = ofAscii a ++ ofAscii b := by
  rw [← String.toList_inj, String.toList_append, toList_ofAscii, toList_ofAscii, toList_ofAscii,
    List.map_append]

/-- The parts of a text of ASCII characters are spelled by the parts of its bytes. -/
theorem ofAscii_eq_append_iff {b : Bytes} {s t : String} :
    ofAscii b = s ++ t ↔ ∃ b₁ b₂, b = b₁ ++ b₂ ∧ s = ofAscii b₁ ∧ t = ofAscii b₂ := by
  constructor
  · intro h
    rw [← String.toList_inj, String.toList_append, toList_ofAscii, List.map_eq_append_iff] at h
    rcases h with ⟨b₁, b₂, hb, hs, ht⟩
    refine ⟨b₁, b₂, hb, ?_, ?_⟩
    · rw [← String.toList_inj, toList_ofAscii, hs]
    · rw [← String.toList_inj, toList_ofAscii, ht]
  · rintro ⟨b₁, b₂, rfl, rfl, rfl⟩
    exact ofAscii_append b₁ b₂

/-- Different bytes stand for different texts. -/
theorem ofAscii_inj {a b : Bytes} : ofAscii a = ofAscii b ↔ a = b := by
  rw [← String.toList_inj, toList_ofAscii, toList_ofAscii]
  exact List.map_inj_right fun _ _ h => char_inj.1 h

theorem ofAscii_ne_empty {b : Bytes} (h : b ≠ []) : ofAscii b ≠ "" :=
  fun hempty => h (ofAscii_inj.1 hempty)

theorem toLower_ofAscii (b : Bytes) : (ofAscii b).toLower = ofAscii (b.map toLower) := by
  rw [← String.toList_inj, toList_toLower, toList_ofAscii, toList_ofAscii, List.map_map,
    List.map_map]
  exact List.map_congr_left fun x _ => toLower_char x

theorem toUpper_ofAscii (b : Bytes) : (ofAscii b).toUpper = ofAscii (b.map toUpper) := by
  rw [← String.toList_inj, toList_toUpper, toList_ofAscii, toList_ofAscii, List.map_map,
    List.map_map]
  exact List.map_congr_left fun x _ => toUpper_char x

/-- What some character of a text has is what some byte has. -/
theorem exists_toList_ofAscii {p : Char → Prop} (b : Bytes) :
    (∃ c ∈ (ofAscii b).toList, p c) ↔ ∃ x ∈ b, p (char x) := by
  rw [toList_ofAscii]
  constructor
  · rintro ⟨c, hc, hp⟩
    rcases List.mem_map.1 hc with ⟨x, hx, rfl⟩
    exact ⟨x, hx, hp⟩
  · rintro ⟨x, hx, hp⟩
    exact ⟨char x, List.mem_map_of_mem hx, hp⟩

theorem exists_isLower_ofAscii (b : Bytes) :
    (∃ c ∈ (ofAscii b).toList, c.isLower = true) ↔ b.any isLower = true := by
  simp only [exists_toList_ofAscii, isLower_char, List.any_eq_true]

theorem exists_isUpper_ofAscii (b : Bytes) :
    (∃ c ∈ (ofAscii b).toList, c.isUpper = true) ↔ b.any isUpper = true := by
  simp only [exists_toList_ofAscii, isUpper_char, List.any_eq_true]

theorem isVisible_ofAscii (b : Bytes) :
    (∀ c ∈ (ofAscii b).toList, 33 ≤ c.toNat ∧ c.toNat ≤ 126) ↔ b.all isVisible = true := by
  simp only [toList_ofAscii, List.forall_mem_map, toNat_char, List.all_eq_true, isVisible_iff]

theorem prefix_ofAscii (a b : Bytes) : (ofAscii a).toList <+: (ofAscii b).toList ↔ a <+: b := by
  rw [toList_ofAscii, toList_ofAscii]
  constructor
  · intro h
    have htake := List.prefix_iff_eq_take.1 h
    rw [List.length_map, ← List.map_take] at htake
    rw [(List.map_inj_right fun _ _ h => char_inj.1 h).1 htake]
    exact List.take_prefix _ _
  · rintro ⟨rest, rfl⟩
    rw [List.map_append]
    exact List.prefix_append _ _

/-- A text whose characters are ASCII is spelled by its bytes. -/
theorem exists_ofAscii {s : String} (h : ∀ c ∈ s.toList, c.toNat < 128) :
    ∃ b, (∀ x ∈ b, x < 128) ∧ s = ofAscii b := by
  refine ⟨s.toList.map fun c => UInt8.ofNat c.toNat, ?_, ?_⟩
  · intro x hx
    rcases List.mem_map.1 hx with ⟨c, hc, rfl⟩
    rw [UInt8.lt_iff_toNat_lt, UInt8.toNat_ofNat']
    exact Nat.lt_of_le_of_lt (Nat.mod_le _ _) (h c hc)
  · rw [← String.toList_inj, toList_ofAscii, List.map_map]
    refine ((List.map_congr_left fun c hc => ?_).trans (List.map_id _)).symm
    have hless := h c hc
    rw [Function.comp_apply, id, ← Char.toNat_inj, toNat_char, UInt8.toNat_ofNat']
    exact Nat.mod_eq_of_lt (by omega)

end Text
end AgeCrypt
