import AgeCrypt.Toml.Scan

/-!
# Scanners in order

What a scanner leaves is what the next one reads (`Scan.bind_eq`, `Scan.lift_eq`), so a run of
several is followed one after another, each of them on a text that begins as it expects.
-/

namespace AgeCrypt
namespace Toml

/-! ## Classes of characters -/

/-- A class tells characters apart. -/
theorem ne_of_class {p : Char → Bool} {c d : Char} (hc : p c = true) (hd : p d = false) :
    c ≠ d := by
  rintro rfl
  rw [hc] at hd
  cases hd

theorem not_isBlank_of_class {p : Char → Bool} {c : Char} (hc : p c = true) (hspace : p ' ' = false)
    (htab : p '\t' = false) : isBlank c = false := by
  rw [isBlank, Bool.or_eq_false_iff, beq_eq_false_iff_ne, beq_eq_false_iff_ne]
  exact ⟨ne_of_class hc hspace, ne_of_class hc htab⟩

namespace Scan

/-! ## One after another -/

section

variable {α β : Type} {cs left : List Char} {a : α}

/-- A scanner that has found something hands on what is left. -/
theorem bind_eq {p : Scan α} (h : p cs = some (a, left)) (f : α → Scan β) :
    (p >>= f) cs = f a left := by
  simp only [bind, StateT.bind, h, Option.bind_some]

/-- What does not read leaves the whole text. -/
theorem lift_eq {answer : Option α} (h : answer = some a) (cs : List Char) :
    (liftM answer : Scan α) cs = some (a, cs) := by
  rw [h]
  rfl

end

/-! ## Pieces -/

theorem word_eq (w : List Char) (cs : List Char) :
    word (String.ofList w) (w ++ cs) = some ((), cs) := by
  rw [word, String.toList_ofList, String.length_ofList, List.drop_left,
    if_pos (List.isPrefixOf_iff_prefix.2 (List.prefix_append _ _))]

theorem blanks_eq {c : Char} (h : isBlank c = false) (cs : List Char) :
    blanks (c :: cs) = some ((), c :: cs) := by
  rw [blanks, List.dropWhile_cons, h, if_neg Bool.false_ne_true]

theorem accept_eq_false {c d : Char} (h : d ≠ c) (cs : List Char) :
    accept c (d :: cs) = some (false, d :: cs) := by
  rw [accept, if_neg h]

theorem char_eq (c : Char) (cs : List Char) : char c (c :: cs) = some ((), cs) := by
  rw [char, if_pos rfl]

/-- Other characters are no line end. -/
theorem lineBreak?_eq_none {c : Char} (hfeed : c ≠ '\n') (hreturn : c ≠ '\r') (cs : List Char) :
    lineBreak? (c :: cs) = none := by
  unfold lineBreak?
  split
  · rename_i heq
    exact absurd (List.cons.inj heq).1 hfeed
  · rename_i heq
    exact absurd (List.cons.inj heq).1 hreturn
  · rfl

theorem lineEnd_eq (cs : List Char) : lineEnd ('\n' :: cs) = some ((), cs) :=
  rfl

end Scan

end Toml
end AgeCrypt
