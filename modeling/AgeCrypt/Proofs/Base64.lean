import AgeCrypt.Base64.Strict

/-!
# One spelling for each byte string

Base64 without padding, read strictly, is a bijection between byte strings and the texts that
`decode?` takes: `decode?_encode` and `encode_of_decode?`.  A text of it has four symbols for three
bytes (`length_encode`), all of them visible ASCII (`isVisible_of_mem_encode`).  The same holds with
padding (`decodePadded?_encodePadded`, `encodePadded_of_decodePadded?`).
-/

namespace AgeCrypt
namespace Base64.Strict

/-! ## Symbols -/

theorem value?_symbol {v : Nat} (h : v < 64) : value? (symbol v) = some v := by
  revert v
  decide

theorem isVisible_symbol {v : Nat} (h : v < 64) : Ascii.isVisible (symbol v) = true := by
  revert v
  decide

/-- A symbol has one value, and no other byte has it. -/
theorem of_value? {s : UInt8} {v : Nat} (h : value? s = some v) : v < 64 ∧ symbol v = s := by
  have hall : ∀ n < 256, ∀ w ∈ value? (UInt8.ofNat n), w < 64 ∧ symbol w = UInt8.ofNat n := by
    decide +kernel
  have hs := hall s.toNat s.toNat_lt v
  rw [UInt8.ofNat_toNat] at hs
  exact hs h

/-! ## Inverses -/

/-- By groups of three bytes: the bits of four symbols are put together as they were cut. -/
theorem decode?_encode (b : Bytes) : decode? (encode b) = some b := by
  fun_induction encode b with
  | case1 a b c rest ih =>
      have ha := a.toNat_lt
      have hb := b.toNat_lt
      have hc := c.toNat_lt
      have h1 : (a.toNat / 4) * 4 + (a.toNat % 4 * 16 + b.toNat / 16) / 16 = a.toNat := by
        omega
      have h2 : (a.toNat % 4 * 16 + b.toNat / 16) % 16 * 16 + (b.toNat % 16 * 4 + c.toNat / 64) / 4 =
          b.toNat := by
        omega
      have h3 : (b.toNat % 16 * 4 + c.toNat / 64) % 4 * 64 + c.toNat % 64 = c.toNat := by
        omega
      -- each of the four values is below 64, and the three bytes are made of their bits again
      simp only [decode?, ih, Option.bind_eq_bind, Option.bind_some]
      rw [value?_symbol (by omega), value?_symbol (by omega), value?_symbol (by omega),
        value?_symbol (by omega)]
      simp only [Option.bind_some, h1, h2, h3, UInt8.ofNat_toNat]
  | case2 a b =>
      have ha := a.toNat_lt
      have hb := b.toNat_lt
      have h1 : (a.toNat / 4) * 4 + (a.toNat % 4 * 16 + b.toNat / 16) / 16 = a.toNat := by
        omega
      have h2 : (a.toNat % 4 * 16 + b.toNat / 16) % 16 * 16 + (b.toNat % 16 * 4) / 4 = b.toNat := by
        omega
      have h3 : b.toNat % 16 * 4 % 4 = 0 := by
        omega
      simp only [decode?, Option.bind_eq_bind]
      rw [value?_symbol (by omega), value?_symbol (by omega), value?_symbol (by omega)]
      simp only [Option.bind_some, h1, h2, h3, if_true, UInt8.ofNat_toNat]
  | case3 a =>
      have ha := a.toNat_lt
      have h1 : (a.toNat / 4) * 4 + (a.toNat % 4 * 16) / 16 = a.toNat := by
        omega
      have h2 : a.toNat % 4 * 16 % 16 = 0 := by
        omega
      simp only [decode?, Option.bind_eq_bind]
      rw [value?_symbol (by omega), value?_symbol (by omega)]
      simp only [Option.bind_some, h1, h2, if_true, UInt8.ofNat_toNat]
  | case4 => rfl

/-- Bits that are left over must be zero, so no other text is read as the same bytes. -/
theorem encode_of_decode? {text b : Bytes} (h : decode? text = some b) : encode b = text := by
  -- the bits that a short text leaves over are zero, or it would not decode
  fun_induction decode? text generalizing b with
  | case1 p q r s rest ih =>
      simp only [Option.bind_eq_bind, Option.bind_eq_some_iff, Option.some.injEq] at h
      rcases h with ⟨vp, hp, vq, hq, vr, hr, vs, hs, tail, htail, rfl⟩
      rcases of_value? hp with ⟨hvp, rfl⟩
      rcases of_value? hq with ⟨hvq, rfl⟩
      rcases of_value? hr with ⟨hvr, rfl⟩
      rcases of_value? hs with ⟨hvs, rfl⟩
      have h1 : (vp * 4 + vq / 16) % 256 / 4 = vp := by
        omega
      have h2 : (vp * 4 + vq / 16) % 256 % 4 * 16 + (vq % 16 * 16 + vr / 4) % 256 / 16 = vq := by
        omega
      have h3 : (vq % 16 * 16 + vr / 4) % 256 % 16 * 4 + (vr % 4 * 64 + vs) % 256 / 64 = vr := by
        omega
      have h4 : (vr % 4 * 64 + vs) % 256 % 64 = vs := by
        omega
      simp only [encode, UInt8.toNat_ofNat', Nat.reducePow, h1, h2, h3, h4, ih htail]
  | case2 p q r =>
      simp only [Option.bind_eq_bind, Option.bind_eq_some_iff] at h
      rcases h with ⟨vp, hp, vq, hq, vr, hr, h⟩
      rcases of_value? hp with ⟨hvp, rfl⟩
      rcases of_value? hq with ⟨hvq, rfl⟩
      rcases of_value? hr with ⟨hvr, rfl⟩
      split at h
      · cases h
        have h1 : (vp * 4 + vq / 16) % 256 / 4 = vp := by
          omega
        have h2 : (vp * 4 + vq / 16) % 256 % 4 * 16 + (vq % 16 * 16 + vr / 4) % 256 / 16 = vq := by
          omega
        have h3 : (vq % 16 * 16 + vr / 4) % 256 % 16 * 4 = vr := by
          omega
        simp only [encode, UInt8.toNat_ofNat', Nat.reducePow, h1, h2, h3]
      · cases h
  | case3 p q =>
      simp only [Option.bind_eq_bind, Option.bind_eq_some_iff] at h
      rcases h with ⟨vp, hp, vq, hq, h⟩
      rcases of_value? hp with ⟨hvp, rfl⟩
      rcases of_value? hq with ⟨hvq, rfl⟩
      split at h
      · cases h
        have h1 : (vp * 4 + vq / 16) % 256 / 4 = vp := by
          omega
        have h2 : (vp * 4 + vq / 16) % 256 % 4 * 16 = vq := by
          omega
        simp only [encode, UInt8.toNat_ofNat', Nat.reducePow, h1, h2]
      · cases h
  | case4 => cases h
  | case5 =>
      cases h
      rfl

/-! ## Texts -/

/-- Each symbol spells six bits, and the last one may be filled up. -/
theorem length_encode (b : Bytes) : (encode b).length = (4 * b.length + 2) / 3 := by
  fun_induction encode b with
  | case1 a b c rest ih =>
      simp only [List.length_cons, ih]
      omega
  | case2 a b => simp
  | case3 a => simp
  | case4 => simp

/-- A text is made of symbols. -/
theorem of_mem_encode {b : Bytes} {x : UInt8} (h : x ∈ encode b) : ∃ v < 64, symbol v = x := by
  fun_induction encode b with
  | case1 a b c rest ih =>
      have ha := a.toNat_lt
      have hb := b.toNat_lt
      have hc := c.toNat_lt
      simp only [List.mem_cons] at h
      rcases h with rfl | rfl | rfl | rfl | hrest
      · exact ⟨_, by omega, rfl⟩
      · exact ⟨_, by omega, rfl⟩
      · exact ⟨_, by omega, rfl⟩
      · exact ⟨_, by omega, rfl⟩
      · exact ih hrest
  | case2 a b =>
      have ha := a.toNat_lt
      have hb := b.toNat_lt
      simp only [List.mem_cons, List.not_mem_nil, or_false] at h
      rcases h with rfl | rfl | rfl
      · exact ⟨_, by omega, rfl⟩
      · exact ⟨_, by omega, rfl⟩
      · exact ⟨_, by omega, rfl⟩
  | case3 a =>
      have ha := a.toNat_lt
      simp only [List.mem_cons, List.not_mem_nil, or_false] at h
      rcases h with rfl | rfl
      · exact ⟨_, by omega, rfl⟩
      · exact ⟨_, by omega, rfl⟩
  | case4 => cases h

/-- A spelling has neither blanks nor line ends, so it can stand in a line. -/
theorem isVisible_of_mem_encode {b : Bytes} {x : UInt8} (h : x ∈ encode b) :
    Ascii.isVisible x = true := by
  rcases of_mem_encode h with ⟨v, hv, rfl⟩
  exact isVisible_symbol hv

/-! ## Padding -/

theorem symbol_ne_padding {v : Nat} (h : v < 64) : symbol v ≠ padding := by
  revert v
  decide

/-- Padding can be told from symbols, and so be taken off. -/
theorem padding_notMem_encode (b : Bytes) : padding ∉ encode b := by
  intro h
  rcases of_mem_encode h with ⟨v, hv, hsymbol⟩
  exact symbol_ne_padding hv hsymbol

/-- What was filled up is stripped again. -/
theorem strip_fill_encode (b : Bytes) : strip (fill (encode b)) = encode b := by
  have hpadding : ∀ n, ∀ x ∈ List.replicate n padding, (x == padding) = true := by
    intro n x hx
    rw [List.eq_of_mem_replicate hx, beq_self_eq_true]
  have hsymbols : (encode b).reverse.dropWhile (· == padding) = (encode b).reverse := by
    refine Bytes.dropWhile_eq_self fun x hx => ?_
    rw [beq_eq_false_iff_ne]
    rintro rfl
    exact padding_notMem_encode b (List.mem_reverse.1 hx)
  rw [strip, fill, List.reverse_append, List.reverse_replicate,
    List.dropWhile_append_of_pos (hpadding _), hsymbols, List.reverse_reverse]

theorem decodePadded?_encodePadded (b : Bytes) : decodePadded? (encodePadded b) = some b := by
  rw [decodePadded?, encodePadded, strip_fill_encode, if_pos rfl, decode?_encode]

theorem encodePadded_of_decodePadded? {text b : Bytes} (h : decodePadded? text = some b) :
    encodePadded b = text := by
  unfold decodePadded? at h
  split at h
  · rename_i hfilled
    rw [encodePadded, encode_of_decode? h, hfilled]
  · cases h

/-- Padding fills up to groups of four symbols. -/
theorem length_encodePadded (b : Bytes) : (encodePadded b).length = 4 * ((b.length + 2) / 3) := by
  rw [encodePadded, fill, List.length_append, List.length_replicate, length_encode]
  omega

theorem isVisible_of_mem_encodePadded {b : Bytes} {x : UInt8} (h : x ∈ encodePadded b) :
    Ascii.isVisible x = true := by
  rcases List.mem_append.1 h with h | h
  · exact isVisible_of_mem_encode h
  · rw [List.eq_of_mem_replicate h]
    rfl

/-- Groups of three bytes need no padding. -/
theorem padding_notMem_encodePadded {b : Bytes} (h : b.length % 3 = 0) :
    padding ∉ encodePadded b := by
  have hcount : (4 - (encode b).length % 4) % 4 = 0 := by
    rw [length_encode]
    omega
  rw [encodePadded, fill, hcount, List.replicate_zero, List.append_nil]
  exact padding_notMem_encode b

/-- Other groups do. -/
theorem getLast?_encodePadded {b : Bytes} (h : b.length % 3 ≠ 0) :
    (encodePadded b).getLast? = some padding := by
  have hcount : (4 - (encode b).length % 4) % 4 ≠ 0 := by
    rw [length_encode]
    omega
  rw [encodePadded, fill, List.getLast?_append, List.getLast?_replicate, if_neg hcount]
  rfl

end Base64.Strict
end AgeCrypt
