import AgeCrypt.Proofs.Keys.WorkFactor
import AgeCrypt.Proofs.Toml.Scan
import AgeCrypt.Toml.Number

/-!
# TOML numbers are read back

The decimal spelling of a number that 64 bits hold is read as that number at the end of a line
(`numberOrDate_toDigits`).  It has no leading zero, so it is no number in another base, and no mark
of a date, a fraction or an exponent follows it.
-/

namespace AgeCrypt
namespace Toml

variable {ds rest : List Char}

/-! ## Runs of digits -/

theorem moreDigits_of_digits (h : ∀ c ∈ ds, c.isDigit = true) :
    moreDigits Char.isDigit (ds ++ '\n' :: rest) = some (ds, '\n' :: rest) := by
  induction ds with
  | nil => rfl
  | cons c ds ih =>
      have hc := h c (List.mem_cons_self ..)
      have hscore : c ≠ '_' := ne_of_class hc (by decide)
      rw [List.cons_append, moreDigits.eq_def]
      split
      · rename_i heq
        cases heq
      · rename_i heq
        exact absurd (List.cons.inj heq).1 hscore
      · rename_i heq
        cases heq
        rw [if_pos hc, ih fun d hd => h d (List.mem_cons_of_mem _ hd), Option.map_some]

theorem digits_of_digits (hne : ds ≠ []) (h : ∀ c ∈ ds, c.isDigit = true) :
    digits Char.isDigit (ds ++ '\n' :: rest) = some (ds, '\n' :: rest) := by
  cases ds with
  | nil => exact absurd rfl hne
  | cons c ds =>
      have hmore : ∀ d ∈ ds, d.isDigit = true := fun d hd => h d (List.mem_cons_of_mem _ hd)
      rw [List.cons_append, digits, if_pos (h c (List.mem_cons_self ..)),
        moreDigits_of_digits hmore, Option.map_some]

/-- What is looked for behind digits is not the end of the line. -/
theorem startsWith_eq_false (h : ∀ c ∈ ds, c.isDigit = true) {mark : Char}
    (hmark : mark.isDigit = false) (hfeed : mark ≠ '\n') (n : Nat) :
    startsWith n mark (ds ++ '\n' :: rest) = false := by
  induction ds generalizing n with
  | nil =>
      cases n with
      | zero =>
          have hne : ('\n' == mark) = false := beq_false_of_ne hfeed.symm
          simp [startsWith, hne]
      | succ n => rfl
  | cons c ds ih =>
      cases n with
      | zero =>
          have hne : (c == mark) = false :=
            beq_false_of_ne (ne_of_class (h c (List.mem_cons_self ..)) hmark)
          simp [startsWith, hne]
      | succ n =>
          have hmore := ih (fun d hd => h d (List.mem_cons_of_mem _ hd)) n
          simpa [startsWith, h c (List.mem_cons_self ..)] using hmore

theorem numberOf_eq (h : ∀ c ∈ ds, c.isDigit = true) :
    numberOf 10 ds = Nat.ofDigitChars 10 ds 0 := by
  have hfold : ∀ init, ds.foldl (fun n c => 10 * n + (hexDigit? c).getD 0) init =
      Nat.ofDigitChars 10 ds init := by
    induction ds with
    | nil => exact fun _ => rfl
    | cons c ds ih =>
        intro init
        have hc : (hexDigit? c).getD 0 = c.toNat - '0'.toNat := by
          rw [hexDigit?, if_pos (h c (List.mem_cons_self ..)), Option.getD_some]
        rw [List.foldl_cons, Nat.ofDigitChars_cons, hc]
        exact ih (fun d hd => h d (List.mem_cons_of_mem _ hd)) _
  exact hfold 0

/-! ## Numbers -/

/-- Digits without a leading zero are read to the end of the line, as an integer. -/
theorem decimal_of_digits (hne : ds ≠ []) (h : ∀ c ∈ ds, c.isDigit = true)
    (hzero : ds.head? ≠ some '0') :
    decimal false (ds ++ '\n' :: rest) =
      (integer? false (numberOf 10 ds)).map fun v => (v, '\n' :: rest) := by
  have hlead : leadingDigits (ds ++ '\n' :: rest) = some (ds, '\n' :: rest) := by
    rw [leadingDigits.eq_def]
    split
    · rename_i heq
      cases ds with
      | nil => exact absurd rfl hne
      | cons c ds => exact absurd (congrArg some (List.cons.inj heq).1) hzero
    · exact digits_of_digits hne h
  have hplaces : places ('\n' :: rest) = some (none, '\n' :: rest) := rfl
  have hexponent : exponent ('\n' :: rest) = some (none, '\n' :: rest) := rfl
  rw [decimal, Scan.bind_eq hlead, Scan.bind_eq hplaces, Scan.bind_eq hexponent]
  cases hvalue : integer? false (numberOf 10 ds) with
  | none => rfl
  | some v => exact Scan.lift_eq rfl _

/-- A number in decimal digits without a leading zero. -/
theorem numberOrDate_of_digits (hne : ds ≠ []) (h : ∀ c ∈ ds, c.isDigit = true)
    (hzero : ds.head? ≠ some '0') :
    numberOrDate (ds ++ '\n' :: rest) =
      (integer? false (numberOf 10 ds)).map fun v => (v, '\n' :: rest) := by
  have hhead : ∀ {c : Char} {cs : List Char}, ds ++ '\n' :: rest = c :: cs →
      c.isDigit = true ∧ c ≠ '0' := by
    intro c cs hcs
    cases ds with
    | nil => exact absurd rfl hne
    | cons d ds =>
        cases hcs
        exact ⟨h c (List.mem_cons_self ..), fun hc => hzero (congrArg some hc)⟩
  -- no other form of a number begins with a digit other than zero
  have hother : ∀ {c : Char} {cs : List Char}, (c.isDigit = false ∨ c = '0') →
      ds ++ '\n' :: rest ≠ c :: cs := by
    rintro c cs hc hcs
    rcases hhead hcs with ⟨hdigit, hc0⟩
    rcases hc with hc | hc
    · exact ne_of_class hdigit hc rfl
    · exact hc0 hc
  have hunsigned : unsigned false (ds ++ '\n' :: rest) = decimal false (ds ++ '\n' :: rest) := by
    rw [unsigned]
    · exact fun _ => hother (.inl (by decide))
    · exact fun _ => hother (.inl (by decide))
  rw [← decimal_of_digits hne h hzero, ← hunsigned, numberOrDate,
    startsWith_eq_false h (by decide) (by decide), startsWith_eq_false h (by decide) (by decide),
    if_neg Bool.false_ne_true, if_neg Bool.false_ne_true]
  · exact fun _ => hother (.inr rfl)
  · exact fun _ => hother (.inr rfl)
  · exact fun _ => hother (.inr rfl)
  · exact fun _ => hother (.inl (by decide))
  · exact fun _ => hother (.inl (by decide))

/-- The decimal spelling of a number is read as that number. -/
theorem numberOrDate_toDigits {n : Nat} (hfits : n < Nat.pow 2 63) :
    numberOrDate ((String.ofList (Nat.toDigits 10 n)).toList ++ '\n' :: rest) =
      some (.integer n, '\n' :: rest) := by
  rcases Nat.eq_zero_or_pos n with rfl | hpos
  · rfl
  have hdigits : ∀ c ∈ Nat.toDigits 10 n, c.isDigit = true :=
    fun c hc => WorkFactor.isDigit_of_mem_toDigits hc
  have hzero := WorkFactor.head?_toDigits_ne hpos
  rw [String.toList_ofList, numberOrDate_of_digits Nat.toDigits_ne_nil hdigits hzero,
    numberOf_eq hdigits, Nat.ofDigitChars_ten_toDigits, integer?, if_neg Bool.false_ne_true,
    if_pos hfits, Option.map_some]

end Toml
end AgeCrypt
