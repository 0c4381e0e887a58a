import AgeCrypt.Keys.WorkFactor
import AgeCrypt.Proofs.Text.Ascii

/-!
# Work factors read back

The text of a work factor is read as the work factor (`parse_text`): it is the decimal spelling,
which has no leading zero unless it spells zero.  No other text is read as a work factor
(`parse_eq_ok_iff`).  What is read is a number of 32 bits: reading it digit by digit fails on digits
only where the number that they spell is larger (`readWord_eq`), and then the largest one stands for
it (`parse_eq`).
-/

namespace AgeCrypt
namespace WorkFactor

theorem isWritten_iff {n : Nat} : isWritten n = true ↔ 2 ≤ n ∧ n ≤ 30 := by
  rw [isWritten, Bool.and_eq_true, decide_eq_true_iff, decide_eq_true_iff]
  rfl

/-! ## Reading a number of 32 bits -/

def ofDigits (digits : Bytes) : Nat :=
  digits.foldl (fun n d => 10 * n + (d.toNat - 48)) 0

theorem le_foldl (digits : Bytes) (n : Nat) :
    n ≤ digits.foldl (fun n d => 10 * n + (d.toNat - 48)) n := by
  induction digits generalizing n with
  | nil => exact Nat.le_refl n
  | cons d digits ih =>
      have hstep : n ≤ 10 * n + (d.toNat - 48) := by omega
      exact Nat.le_trans hstep (ih _)

/-- Digits are pushed as long as there is room: what they spell only grows, so there is none once a
digit has found none. -/
theorem foldlM_pushDigit {digits : Bytes} (hdigits : ∀ d ∈ digits, Ascii.isDigit d = true) {n : Nat}
    (hn : n ≤ saturation) :
    digits.foldlM pushDigit n =
      if digits.foldl (fun n d => 10 * n + (d.toNat - 48)) n ≤ saturation then
        some (digits.foldl (fun n d => 10 * n + (d.toNat - 48)) n)
      else
        none := by
  induction digits generalizing n with
  | nil => exact (if_pos hn).symm
  | cons d digits ih =>
      have hd := hdigits d (List.mem_cons_self ..)
      rw [List.foldlM_cons, List.foldl_cons]
      by_cases hroom : 10 * n + (d.toNat - 48) ≤ saturation
      · have hpush : pushDigit n d = some (10 * n + (d.toNat - 48)) := by
          rw [pushDigit, if_pos hd]
          exact if_pos hroom
        rw [hpush]
        exact ih (fun x hx => hdigits x (List.mem_cons_of_mem _ hx)) hroom
      · have hpush : pushDigit n d = none := by
          rw [pushDigit, if_pos hd]
          exact if_neg hroom
        have hlarger := le_foldl digits (10 * n + (d.toNat - 48))
        rw [hpush, if_neg fun hle => hroom (Nat.le_trans hlarger hle)]
        rfl

/-- Digits are read unless the number that they spell is too large. -/
theorem readWord_eq {digits : Bytes} (hne : digits ≠ [])
    (hdigits : ∀ d ∈ digits, Ascii.isDigit d = true) :
    readWord digits = if ofDigits digits ≤ saturation then some (ofDigits digits) else none := by
  have hsign : digits.head? ≠ some 43 := by
    intro hhead
    exact absurd (hdigits 43 (List.mem_of_mem_head? hhead)) (by decide)
  simp only [readWord, if_neg hsign, if_neg hne]
  exact foldlM_pushDigit hdigits (Nat.zero_le _)

/-- A text of digits without a leading zero is read as what they spell, and at most as the largest
number of 32 bits. -/
theorem parse_eq (s : String) :
    parse s =
      if Text.utf8 s = [] ∨ (Text.utf8 s).head? = some 48 ∨ ¬ (Text.utf8 s).all Ascii.isDigit then
        .error .invalidWorkFactor
      else
        .ok (min (ofDigits (Text.utf8 s)) saturation) := by
  unfold parse
  dsimp only
  split
  · rfl
  · rename_i hgood
    rw [not_or, not_or, Decidable.not_not, List.all_eq_true] at hgood
    rw [readWord_eq hgood.1 hgood.2.2]
    split
    · rename_i hle
      rw [Nat.min_eq_left hle]
      rfl
    · rename_i hlarge
      rw [Nat.min_eq_right (Nat.le_of_not_le hlarge)]
      rfl

/-! ## The text of a number -/

def digit (c : Char) : UInt8 :=
  UInt8.ofNat c.toNat

theorem isDigit_bounds {c : Char} (h : c.isDigit = true) : 48 ≤ c.toNat ∧ c.toNat ≤ 57 := by
  simp only [Char.isDigit, Bool.and_eq_true, decide_eq_true_eq] at h
  exact ⟨h.1, h.2⟩

theorem toNat_digit {c : Char} (h : c.isDigit = true) : (digit c).toNat = c.toNat := by
  have hc := isDigit_bounds h
  simp only [digit, UInt8.toNat_ofNat']
  omega

theorem isDigit_digit {c : Char} (h : c.isDigit = true) : Ascii.isDigit (digit c) = true := by
  rw [Ascii.isDigit_iff, toNat_digit h]
  exact isDigit_bounds h

theorem isDigit_of_mem_toDigits {n : Nat} {c : Char} (h : c ∈ Nat.toDigits 10 n) :
    c.isDigit = true :=
  Nat.isDigit_of_mem_toDigits (by decide) (by decide) h

/-- Decimal digits are their own bytes. -/
theorem utf8_ofList_of_isDigit {l : List Char} (h : ∀ c ∈ l, c.isDigit = true) :
    Text.utf8 (String.ofList l) = l.map digit := by
  have hascii : String.ofList l = Text.ofAscii (l.map digit) := by
    unfold Text.ofAscii
    rw [List.map_map]
    congr 1
    refine (List.map_id _).symm.trans (List.map_congr_left fun c hc => ?_)
    have hdigit := toNat_digit (h c hc)
    simp [hdigit]
  rw [hascii, Text.utf8_ofAscii]
  intro x hx
  rcases List.mem_map.1 hx with ⟨c, hc, rfl⟩
  have hbounds := isDigit_bounds (h c hc)
  rw [UInt8.lt_iff_toNat_lt, toNat_digit (h c hc)]
  exact Nat.lt_of_le_of_lt hbounds.2 (by decide)

theorem utf8_text (n : Nat) : Text.utf8 (text n) = (Nat.toDigits 10 n).map digit :=
  utf8_ofList_of_isDigit fun _ hc => isDigit_of_mem_toDigits hc

theorem ofDigits_map_digit {l : List Char} (h : ∀ c ∈ l, c.isDigit = true) :
    ofDigits (l.map digit) = Nat.ofDigitChars 10 l 0 := by
  unfold ofDigits
  generalize 0 = init
  induction l generalizing init with
  | nil => rfl
  | cons c l ih =>
      have hc := toNat_digit (h c (List.mem_cons_self ..))
      rw [List.map_cons, List.foldl_cons, Nat.ofDigitChars_cons, hc]
      exact ih (fun d hd => h d (List.mem_cons_of_mem _ hd)) _

theorem head?_toDigits_ne {n : Nat} (h : 0 < n) : (Nat.toDigits 10 n).head? ≠ some '0' := by
  -- the first digit is that of the number without its last one
  induction n using Nat.strongRecOn with
  | _ n ih =>
      by_cases hn : n < 10
      · have hall : ∀ m < 10, 0 < m → [m.digitChar].head? ≠ some '0' := by
          decide
        rw [Nat.toDigits_of_lt_base hn]
        exact hall n hn h
      · have hle : 10 ≤ n := Nat.le_of_not_lt hn
        rw [Nat.toDigits_of_base_le (by decide) hle, List.head?_append]
        have hrest := ih (n / 10) (by omega) (by omega)
        cases hhead : (Nat.toDigits 10 (n / 10)).head? with
        | none => exact absurd (List.head?_eq_none_iff.1 hhead) Nat.toDigits_ne_nil
        | some c =>
            rw [hhead] at hrest
            exact hrest

/-- The text of a work factor is read as the work factor. -/
theorem parse_text {n : Nat} (h : 0 < n) : parse (text n) = .ok (min n saturation) := by
  have hdigits : ∀ c ∈ Nat.toDigits 10 n, c.isDigit = true := fun c hc => isDigit_of_mem_toDigits hc
  have hne : (Nat.toDigits 10 n).map digit ≠ [] := by
    intro hnil
    exact Nat.toDigits_ne_nil (List.map_eq_nil_iff.1 hnil)
  have hzero : ((Nat.toDigits 10 n).map digit).head? ≠ some 48 := by
    rw [List.head?_map]
    intro hhead
    rcases Option.map_eq_some_iff.1 hhead with ⟨c, hc, hdigit⟩
    have hcmem : c ∈ Nat.toDigits 10 n := List.mem_of_mem_head? hc
    have hnat : c.toNat = 48 := by
      rw [← toNat_digit (hdigits c hcmem), hdigit]
      rfl
    have hchar : c = '0' := Char.toNat_inj.1 hnat
    exact head?_toDigits_ne h (hchar ▸ hc)
  have hall : ((Nat.toDigits 10 n).map digit).all Ascii.isDigit = true := by
    rw [List.all_eq_true]
    intro x hx
    rcases List.mem_map.1 hx with ⟨c, hc, rfl⟩
    exact isDigit_digit (hdigits c hc)
  rw [parse_eq, utf8_text, if_neg, ofDigits_map_digit hdigits, Nat.ofDigitChars_ten_toDigits]
  -- `parse` refuses three kinds of texts, and a spelling is none of them
  rintro (hnil | hhead | hother)
  · exact hne hnil
  · exact hzero hhead
  · exact hother hall

/-- The byte of a digit is that of its value. -/
theorem digit_digitChar {x : UInt8} (h : Ascii.isDigit x = true) :
    x.toNat - 48 < 10 ∧ digit (x.toNat - 48).digitChar = x := by
  have hbounds := Ascii.isDigit_iff.1 h
  have hless : x.toNat - 48 < 10 := by omega
  have hall : ∀ n < 10, digit n.digitChar = UInt8.ofNat (n + 48) := by
    decide
  refine ⟨hless, ?_⟩
  rw [hall _ hless, Nat.sub_add_cancel hbounds.1, UInt8.ofNat_toNat]

/-- Digits behind a number are the last digits of what they make of it. -/
theorem toDigits_foldl {init : Nat} (hinit : 0 < init) {digits : Bytes}
    (hdigits : ∀ x ∈ digits, Ascii.isDigit x = true) :
    0 < digits.foldl (fun n d => 10 * n + (d.toNat - 48)) init ∧
      (Nat.toDigits 10 (digits.foldl (fun n d => 10 * n + (d.toNat - 48)) init)).map digit =
        (Nat.toDigits 10 init).map digit ++ digits := by
  induction digits generalizing init with
  | nil => simpa using hinit
  | cons x digits ih =>
      rcases digit_digitChar (hdigits x (List.mem_cons_self ..)) with ⟨hless, hx⟩
      have hsplit : (Nat.toDigits 10 (10 * init + (x.toNat - 48))).map digit =
          (Nat.toDigits 10 init).map digit ++ [x] := by
        rw [← Nat.toDigits_append_toDigits (by decide) hinit hless, List.map_append,
          Nat.toDigits_of_lt_base hless, List.map_cons, List.map_nil, hx]
      have hpos : 0 < 10 * init + (x.toNat - 48) := by omega
      have hrest := ih hpos fun y hy => hdigits y (List.mem_cons_of_mem _ hy)
      rw [hsplit, List.append_assoc] at hrest
      exact hrest

/-- Digits without a leading zero are those of the number that they spell. -/
theorem toDigits_ofDigits {digits : Bytes} (hne : digits ≠ []) (hzero : digits.head? ≠ some 48)
    (hdigits : ∀ x ∈ digits, Ascii.isDigit x = true) :
    0 < ofDigits digits ∧ (Nat.toDigits 10 (ofDigits digits)).map digit = digits := by
  cases digits with
  | nil => exact absurd rfl hne
  | cons x digits =>
      have hdigit := hdigits x (List.mem_cons_self ..)
      rcases digit_digitChar hdigit with ⟨hless, hx⟩
      have hpos : 0 < x.toNat - 48 := by
        have hbounds := Ascii.isDigit_iff.1 hdigit
        have hne48 : x.toNat ≠ 48 := fun h => hzero (congrArg some (UInt8.toNat_inj.1 h))
        omega
      have hrest := toDigits_foldl hpos fun y hy => hdigits y (List.mem_cons_of_mem _ hy)
      rw [Nat.toDigits_of_lt_base hless, List.map_cons, List.map_nil, hx] at hrest
      simpa [ofDigits] using hrest

/-- The texts that are read as work factors are the decimal spellings of positive numbers. -/
theorem parse_eq_ok_iff {s : String} {v : Nat} :
    parse s = .ok v ↔ ∃ n, 0 < n ∧ s = text n ∧ v = min n saturation := by
  constructor
  · intro h
    rw [parse_eq] at h
    split at h
    · cases h
    · rename_i hgood
      cases h
      rw [not_or, not_or, Decidable.not_not, List.all_eq_true] at hgood
      rcases hgood with ⟨hne, hzero, hdigits⟩
      rcases toDigits_ofDigits hne hzero hdigits with ⟨hpos, hspelled⟩
      refine ⟨ofDigits (Text.utf8 s), hpos, ?_, rfl⟩
      rw [← Text.utf8_inj, utf8_text, hspelled]
  · rintro ⟨n, hpos, rfl, rfl⟩
    exact parse_text hpos

theorem parse_text_of_isWritten {n : Nat} (h : isWritten n = true) : parse (text n) = .ok n := by
  rcases isWritten_iff.1 h with ⟨hleast, hgreatest⟩
  have hsaturation : min n saturation = n :=
    Nat.min_eq_left (Nat.le_trans hgreatest (by decide))
  rw [parse_text (by omega), hsaturation]

end WorkFactor
end AgeCrypt
