import AgeCrypt.Proofs.Bech32.Codec

/-!
# What the checksum detects

A step of the remainder can be undone: what the generators add shows in the five lowest bits, which
nothing else reaches, so no two remainders of thirty bits are taken to the same one
(`remainderStep_inj`).  Six symbols are no more than the thirty bits, so other symbols in a stretch
of at most six leave another remainder (`foldl_remainderStep_inj_symbols`), and what follows the
stretch does not make up for it.

So a key string in which symbols were replaced within six neighbours is decoded to
`checksumMismatch`, whatever its length (`decode_of_burst`).  That the checks before that of the
checksum pass needs two things: the symbols are symbols, and the text is still of one case.
-/

namespace AgeCrypt
namespace Bech32

open Regroup

/-! ## Steps can be undone -/

theorem selection_eq_xor (top init : UInt32) :
    selection top generators.zipIdx init = selection top generators.zipIdx 0 ^^^ init := by
  have hnone : selection 0 generators.zipIdx init = init := rfl
  have hsum := selection_xor top 0 generators.zipIdx 0 init
  rwa [hnone, UInt32.xor_zero, UInt32.zero_xor] at hsum

/-- The five lowest bits of what the generators add tell which of them were selected. -/
theorem eq_zero_of_selection_mod {top : UInt32} (htop : top.toNat < 32)
    (h : (selection top generators.zipIdx 0).toNat % 32 = 0) : top = 0 := by
  have hall : ∀ n < 32, (selection (UInt32.ofNat n) generators.zipIdx 0).toNat % 32 = 0 → n = 0 := by
    decide
  refine UInt32.toNat_inj.1 (hall top.toNat htop ?_)
  rwa [UInt32.ofNat_toNat]

/-- Only the zero remainder steps to zero: the lowest bits of the generators tell what was added. -/
theorem eq_zero_of_remainderStep {chk : UInt32} (hchk : chk.toNat < 2 ^ 30)
    (h : remainderStep chk 0 = 0) : chk = 0 := by
  have hadded : selection (chk >>> 25) generators.zipIdx 0 = (chk &&& 0x1ffffff) <<< 5 := by
    rw [remainderStep_eq, selection_eq_xor, UInt32.xor_eq_zero_iff] at h
    exact h.trans (UInt32.xor_zero ..)
  have hmoved := congrArg UInt32.toNat hadded
  rw [toNat_shifted] at hmoved
  have hhigh : (chk >>> 25).toNat = chk.toNat / 2 ^ 25 :=
    (UInt32.toNat_shiftRight ..).trans (Nat.shiftRight_eq_div_pow ..)
  have htop : chk >>> 25 = 0 := by
    refine eq_zero_of_selection_mod ?_ ?_
    · rw [hhigh]
      omega
    · rw [hmoved, Nat.mul_mod_left]
  -- nothing was selected, so nothing was there to be moved up
  have hnone : selection 0 generators.zipIdx 0 = 0 := rfl
  rw [htop, hnone, UInt32.toNat_zero] at hmoved
  rw [htop, UInt32.toNat_zero] at hhigh
  refine UInt32.toNat_inj.1 ?_
  rw [UInt32.toNat_zero]
  omega

/-- Different remainders stay different under the same symbol. -/
theorem remainderStep_inj {a b : UInt32} (ha : a.toNat < 2 ^ 30) (hb : b.toNat < 2 ^ 30) {v : UInt8}
    (h : remainderStep a v = remainderStep b v) : a = b := by
  have hsum := remainderStep_xor a b v v
  rw [h, UInt8.xor_self, UInt32.xor_self] at hsum
  refine UInt32.xor_eq_zero_iff.1 (eq_zero_of_remainderStep ?_ hsum)
  rw [UInt32.toNat_xor]
  exact Nat.xor_lt_two_pow ha hb

/-- Symbols that follow do not bring remainders together. -/
theorem foldl_remainderStep_inj {values : Bytes} (hfits : Fits 5 values) {a b : UInt32}
    (ha : a.toNat < 2 ^ 30) (hb : b.toNat < 2 ^ 30)
    (h : values.foldl remainderStep a = values.foldl remainderStep b) : a = b := by
  induction values generalizing a b with
  | nil => exact h
  | cons v values ih =>
      have hv : v.toNat < 2 ^ 5 := hfits v (List.mem_cons_self ..)
      have hrest : Fits 5 values := fun w hw => hfits w (List.mem_cons_of_mem _ hw)
      exact remainderStep_inj ha hb
        (ih hrest (toNat_remainderStep_lt a hv) (toNat_remainderStep_lt b hv) h)

/-! ## A stretch of symbols -/

/-- At most six symbols are known by the remainder that they leave behind others. -/
theorem foldl_remainderStep_inj_symbols {chk : UInt32} {a b : Bytes} (ha : Fits 5 a)
    (hb : Fits 5 b) (hlen : a.length = b.length) (hshort : b.length ≤ 6)
    (h : a.foldl remainderStep chk = b.foldl remainderStep chk) : a = b := by
  have hzero : (0 : UInt32).toNat < 2 ^ (5 * 0) := by
    decide
  have hspell : ∀ {c : Bytes}, Fits 5 c → c.length ≤ 6 →
      spell 5 c = bits (5 * c.length) (c.foldl remainderStep 0).toNat := by
    intro c hc hlen
    have hbits := (bits_foldl_remainderStep hzero (by omega) hc).1
    rw [Nat.zero_add] at hbits
    exact hbits.symm
  have hadded : a.foldl remainderStep 0 = b.foldl remainderStep 0 := by
    rw [foldl_remainderStep_eq chk a, foldl_remainderStep_eq chk b, hlen,
      UInt32.xor_right_inj] at h
    exact h
  refine spell_inj ha hb hlen ?_
  rw [hspell ha (hlen ▸ hshort), hspell hb hshort, hadded, hlen]

/-- The remainder of a key string is taken in three stretches, one after another. -/
theorem remainder_append_symbols (human front stretch back : Bytes) :
    remainder (expand human ++ (front ++ stretch ++ back)) =
      back.foldl remainderStep
        (stretch.foldl remainderStep (remainder (expand human ++ front))) := by
  simp only [remainder, List.foldl_append]

/-- Other symbols in a stretch of at most six are not verified. -/
theorem eq_of_verify {human front back a b : Bytes} (ha : Fits 5 a) (hb : Fits 5 b)
    (hback : Fits 5 back) (hlen : a.length = b.length) (hshort : b.length ≤ 6)
    (hverify : verify human (front ++ a ++ back) = true)
    (hverify' : verify human (front ++ b ++ back) = true) : a = b := by
  by_cases hnil : b = []
  · rw [hnil, List.length_nil, List.length_eq_zero_iff] at hlen
    rw [hnil, hlen]
  have hnil' : a ≠ [] := by
    rwa [← List.length_pos_iff, hlen, List.length_pos_iff]
  rw [verify, beq_iff_eq, remainder_append_symbols] at hverify hverify'
  exact foldl_remainderStep_inj_symbols ha hb hlen hshort
    (foldl_remainderStep_inj hback (toNat_foldl_remainderStep_lt hnil' ha _)
      (toNat_foldl_remainderStep_lt hnil hb _) (hverify.trans hverify'.symm))

/-! ## Key strings -/

/-- Symbols are what has a lower-case form in the alphabet. -/
theorem exists_values {symbols : Bytes} (h : ∀ x ∈ symbols, Ascii.toLower x ∈ alphabet) :
    ∃ values, Fits 5 values ∧ values.map symbol = symbols.map Ascii.toLower := by
  have hall : ∀ x ∈ alphabet, ∃ n < 32, symbol (UInt8.ofNat n) = x := by
    decide +kernel
  induction symbols with
  | nil => exact ⟨[], fun v hv => absurd hv List.not_mem_nil, rfl⟩
  | cons x symbols ih =>
      rcases List.forall_mem_cons.1 h with ⟨hx, hsymbols⟩
      rcases hall _ hx with ⟨n, hn, hsymbol⟩
      rcases ih hsymbols with ⟨values, hfits, hvalues⟩
      have hvalue : (UInt8.ofNat n).toNat = n :=
        UInt8.toNat_ofNat_of_lt' (Nat.lt_trans hn (by decide))
      refine ⟨UInt8.ofNat n :: values, List.forall_mem_cons.2 ⟨?_, hfits⟩, ?_⟩
      · rwa [hvalue]
      · rw [List.map_cons, List.map_cons, hsymbol, hvalues]

theorem symbol_mem_alphabet {v : UInt8} (hv : v.toNat < 2 ^ 5) : symbol v ∈ alphabet := by
  have hlen : v.toNat < alphabet.length := hv
  rw [symbol, List.getD_eq_getElem?_getD, List.getElem?_eq_getElem hlen]
  exact List.getElem_mem hlen

/-- The symbols of a key string are what stands behind its separator. -/
theorem exists_front {human data before rest : Bytes}
    (h : encodeBytes human data = .ok (before ++ rest)) (hbehind : human.length < before.length) :
    ∃ front all, before = human ++ separator :: front ∧
      (front ++ rest).mapM value? = some all ∧ verify human all = true ∧
        (human ≠ [] ∧ checksumLength ≤ (front ++ rest).length) ∧
          human.all Ascii.isVisible = true := by
  rcases decodeBytes_eq_ok_iff_checks.1 (decodeBytes_of_encodeBytes h) with
    ⟨-, symbols, hcut, hplaced, hvisible, all, hall, hverify, -⟩
  have htext := (splitLast_eq_some_iff.1 hcut).1
  rcases List.append_eq_append_iff.1 htext with ⟨short, hshort, -⟩ | ⟨behind, hbefore, hrest⟩
  · -- the human-readable part alone does not reach so far
    have hlen := congrArg List.length hshort
    rw [List.length_append] at hlen
    omega
  · cases behind with
    | nil =>
        rw [List.append_nil] at hbefore
        rw [hbefore] at hbehind
        exact absurd hbehind (Nat.lt_irrefl _)
    | cons x front =>
        rw [List.cons_append, List.cons.injEq] at hrest
        rcases hrest with ⟨rfl, rfl⟩
        exact ⟨front, all, hbefore, hall, hverify, hplaced, hvisible⟩

/-- What stands behind the separator is spelled with the alphabet. -/
theorem mem_alphabet_of_encodeBytes {human data before rest : Bytes}
    (h : encodeBytes human data = .ok (before ++ rest)) (hbehind : human.length < before.length) :
    ∀ x ∈ rest, Ascii.toLower x ∈ alphabet := by
  intro x hx
  rcases exists_front h hbehind with ⟨front, all, -, hall, -⟩
  rcases mapM_value?_eq_some_iff.1 hall with ⟨hfits, hsymbols⟩
  have hlower : Ascii.toLower x ∈ all.map symbol :=
    hsymbols ▸ List.mem_map_of_mem (List.mem_append_right front hx)
  rcases List.mem_map.1 hlower with ⟨v, hv, hsymbol⟩
  rw [← hsymbol]
  exact symbol_mem_alphabet (hfits v hv)

/-- The check of the checksum is the one that fails if all the checks before it pass. -/
theorem decodeBytes_of_not_verify {text human symbols all : Bytes}
    (hunmixed : ¬ (text.any Ascii.isLower = true ∧ text.any Ascii.isUpper = true))
    (hcut : splitLast separator text = some (human, symbols))
    (hplaced : human ≠ [] ∧ checksumLength ≤ symbols.length)
    (hvisible : human.all Ascii.isVisible = true) (hall : symbols.mapM value? = some all)
    (hverify : verify human all = false) : decodeBytes text = .error .checksumMismatch := by
  have hplaced' : ¬ (human = [] ∨ symbols.length < checksumLength) := by
    rwa [not_or, Nat.not_lt]
  rw [decodeBytes, if_neg hunmixed, hcut]
  simp only [if_neg hplaced', hvisible, hall, hverify, not_true_eq_false, if_false,
    Bool.false_eq_true, not_false_eq_true, if_true]

/-- Other symbols within a stretch of at most six behind the separator. -/
theorem decodeBytes_of_burst {human data before stretch stretch' after : Bytes}
    (h : encodeBytes human data = .ok (before ++ (stretch ++ after)))
    (hbehind : human.length < before.length) (hshort : stretch.length ≤ 6)
    (hlen : stretch'.length = stretch.length)
    (hsymbols : ∀ x ∈ stretch', Ascii.toLower x ∈ alphabet)
    (hunmixed : ¬ ((before ++ (stretch' ++ after)).any Ascii.isLower = true ∧
      (before ++ (stretch' ++ after)).any Ascii.isUpper = true))
    (hother : stretch'.map Ascii.toLower ≠ stretch.map Ascii.toLower) :
    decodeBytes (before ++ (stretch' ++ after)) = .error .checksumMismatch := by
  rcases exists_front h hbehind with ⟨front, all, rfl, hall, hverify, ⟨hne, hlong⟩, hvisible⟩
  rcases mapM_value?_eq_some_iff.1 hall with ⟨hfits, hspelled⟩
  rw [List.map_append, List.map_append] at hspelled
  rcases List.map_eq_append_iff.1 hspelled with ⟨f, rest, rfl, hf, hrest⟩
  rcases List.map_eq_append_iff.1 hrest with ⟨v, a, rfl, hv, ha⟩
  rcases exists_values hsymbols with ⟨v', hfits', hv'⟩
  have hparts : Fits 5 f ∧ Fits 5 v ∧ Fits 5 a := by
    simpa only [Fits, List.forall_mem_append] using hfits
  have hread : (front ++ (stretch' ++ after)).mapM value? = some (f ++ (v' ++ a)) := by
    refine mapM_value?_eq_some_iff.2 ⟨?_, ?_⟩
    · simpa only [Fits, List.forall_mem_append] using And.intro hparts.1 ⟨hfits', hparts.2.2⟩
    · simp only [List.map_append, hf, hv', ha]
  have hvalues : v'.length = v.length := by
    have hv_len := congrArg List.length hv
    have hv'_len := congrArg List.length hv'
    simp only [List.length_map] at hv_len hv'_len
    omega
  have hwithin : v.length ≤ 6 := by
    have hv_len := congrArg List.length hv
    simp only [List.length_map] at hv_len
    omega
  rw [List.append_assoc, List.cons_append] at hunmixed ⊢
  refine decodeBytes_of_not_verify hunmixed
    (splitLast_append (separator_notMem_of_mapM hread) human) ⟨hne, ?_⟩ hvisible hread ?_
  · simp only [List.length_append] at hlong ⊢
    omega
  · rw [← Bool.not_eq_true]
    intro hverify'
    rw [← List.append_assoc] at hverify hverify'
    have hsame := eq_of_verify hfits' hparts.2.1 hparts.2.2 hvalues hwithin hverify' hverify
    rw [hsame] at hv'
    exact hother (hv'.symm.trans hv)

/-- In a text of one case letters are told apart without their case. -/
theorem eq_of_toLower_eq {b : Bytes}
    (hunmixed : ¬ (b.any Ascii.isLower = true ∧ b.any Ascii.isUpper = true)) {x y : UInt8}
    (hx : x ∈ b) (hy : y ∈ b) (h : Ascii.toLower x = Ascii.toLower y) : x = y := by
  cases hsmall : b.any Ascii.isLower with
  | false =>
      rw [List.any_eq_false] at hsmall
      rw [← Ascii.toUpper_toLower (Bool.eq_false_iff.2 (hsmall x hx)), h,
        Ascii.toUpper_toLower (Bool.eq_false_iff.2 (hsmall y hy))]
  | true =>
      have hcapital : b.any Ascii.isUpper = false := by
        simpa [hsmall] using hunmixed
      rw [List.any_eq_false] at hcapital
      rwa [Ascii.toLower_of_not_isUpper (Bool.eq_false_iff.2 (hcapital x hx)),
        Ascii.toLower_of_not_isUpper (Bool.eq_false_iff.2 (hcapital y hy))] at h

/-- Two different neighbours that have changed places. -/
theorem decodeBytes_of_swap {human data before after : Bytes} {x y : UInt8}
    (h : encodeBytes human data = .ok (before ++ ([x, y] ++ after)))
    (hbehind : human.length < before.length) (hne : x ≠ y) :
    decodeBytes (before ++ ([y, x] ++ after)) = .error .checksumMismatch := by
  have hsymbols := mem_alphabet_of_encodeBytes h hbehind
  have hunmixed := (decodeBytes_eq_ok_iff_checks.1 (decodeBytes_of_encodeBytes h)).1
  have hswapped : ∀ p : UInt8 → Bool,
      (before ++ ([y, x] ++ after)).any p = (before ++ ([x, y] ++ after)).any p := by
    intro p
    simp [Bool.or_left_comm]
  have hshort : [x, y].length ≤ 6 := by
    simp
  refine decodeBytes_of_burst h hbehind hshort rfl ?_ ?_ ?_
  · intro z hz
    refine hsymbols z (List.mem_append_left after ?_)
    simpa [or_comm] using hz
  · rwa [hswapped, hswapped]
  · intro hsame
    have hhead : Ascii.toLower y = Ascii.toLower x := (List.cons.inj hsame).1
    exact hne (eq_of_toLower_eq hunmixed (by simp) (by simp) hhead.symm)

/-! ## Texts -/

/-- A text is refused as its bytes are. -/
theorem decode_ofAscii_of_error {text : Bytes} {e : Error} (hascii : ∀ x ∈ text, x < 128)
    (h : decodeBytes text = .error e) : decode (Text.ofAscii text) = .error e := by
  rw [decode, Text.utf8_ofAscii hascii, h]
  rfl

/-- The parts of what is encoded, as bytes. -/
theorem encodeBytes_of_encode_append {h before rest : String} {d : Bytes}
    (hencode : encode h d = .ok (before ++ rest)) :
    ∃ b r, before = Text.ofAscii b ∧ rest = Text.ofAscii r ∧
      encodeBytes (Text.utf8 h) d = .ok (b ++ r) ∧ (∀ x ∈ b ++ r, x < 128) ∧
        (Text.utf8 h).length = h.length := by
  rcases encode_eq_ok_iff_bytes.1 hencode with ⟨text, htext, hs⟩
  rcases Text.ofAscii_eq_append_iff.1 hs with ⟨b, r, rfl, hb, hr⟩
  rcases decodeBytes_eq_ok_iff.1 (decodeBytes_of_encodeBytes htext) with
    ⟨-, -, -, hvisible, values, hspells, hlower⟩
  refine ⟨b, r, hb, hr, htext, lt_of_map_toLower_eq hvisible hspells.1 hlower, ?_⟩
  rw [← Text.length_ofAscii, Text.ofAscii_utf8 (lt_of_isVisible hvisible)]

/-- Characters of the alphabet, in either case, as bytes. -/
theorem exists_ofAscii_of_symbols {s : String}
    (h : ∀ c ∈ s.toList, c.toLower ∈ (Text.ofAscii alphabet).toList) :
    ∃ w, s = Text.ofAscii w ∧ (∀ x ∈ w, x < 128) ∧ ∀ x ∈ w, Ascii.toLower x ∈ alphabet := by
  have hall : ∀ x ∈ alphabet, x < 128 := by
    decide +kernel
  rw [Text.toList_ofAscii] at h
  have hless : ∀ c ∈ s.toList, c.toNat < 128 := by
    intro c hc
    rcases List.mem_map.1 (h c hc) with ⟨x, hx, hchar⟩
    refine Text.toNat_lt_of_toLower ?_
    rw [← hchar, Text.toNat_char]
    exact hall x hx
  rcases Text.exists_ofAscii hless with ⟨w, hascii, rfl⟩
  refine ⟨w, rfl, hascii, fun x hx => ?_⟩
  have hchar : Text.char x ∈ (Text.ofAscii w).toList := by
    rw [Text.toList_ofAscii]
    exact List.mem_map_of_mem hx
  have hlower := h _ hchar
  rw [Text.toLower_char] at hlower
  rcases List.mem_map.1 hlower with ⟨y, hy, hsame⟩
  rwa [← Text.char_inj.1 hsame]

/-- A key string with other symbols somewhere within six neighbours behind its separator is refused
for its checksum, as long as its letters are still of one case: whatever the length of the string,
wherever the six stand, and however many of them have changed.  So is one with two different
neighbours that have changed places. -/
theorem decode_of_burst :
    (∀ (h : String) (d : Bytes) (before stretch stretch' after : String),
      encode h d = .ok (before ++ stretch ++ after) → h.length < before.length →
        stretch.length ≤ 6 → stretch'.length = stretch.length →
        (∀ c ∈ stretch'.toList, c.toLower ∈ (Text.ofAscii alphabet).toList) →
        ¬ ((∃ c ∈ (before ++ stretch' ++ after).toList, c.isLower = true) ∧
          ∃ c ∈ (before ++ stretch' ++ after).toList, c.isUpper = true) →
        stretch'.toLower ≠ stretch.toLower →
        decode (before ++ stretch' ++ after) = .error .checksumMismatch) ∧
      ∀ (h : String) (d : Bytes) (before after : String) (x y : Char),
        encode h d = .ok (before ++ String.ofList [x, y] ++ after) → h.length < before.length →
          x ≠ y → decode (before ++ String.ofList [y, x] ++ after) = .error .checksumMismatch := by
  constructor
  · intro h d before stretch stretch' after hencode hbehind hshort hlen hsymbols hunmixed hother
    rw [String.append_assoc] at hencode hunmixed ⊢
    rcases encodeBytes_of_encode_append hencode with ⟨b, r, rfl, hr, hbytes, hascii, hlength⟩
    rcases Text.ofAscii_eq_append_iff.1 hr.symm with ⟨w, a, rfl, rfl, rfl⟩
    rcases exists_ofAscii_of_symbols hsymbols with ⟨w', rfl, hascii', halphabet⟩
    simp only [List.forall_mem_append] at hascii
    have hascii_all : ∀ x ∈ b ++ (w' ++ a), x < 128 := by
      simp only [List.forall_mem_append]
      exact ⟨hascii.1, hascii', hascii.2.2⟩
    simp only [Text.length_ofAscii] at hbehind hshort hlen
    simp only [← Text.ofAscii_append, Text.exists_isLower_ofAscii,
      Text.exists_isUpper_ofAscii] at hunmixed ⊢
    rw [Text.toLower_ofAscii, Text.toLower_ofAscii, Ne, Text.ofAscii_inj] at hother
    refine decode_ofAscii_of_error hascii_all ?_
    exact decodeBytes_of_burst hbytes (hlength ▸ hbehind) hshort hlen halphabet hunmixed hother
  · intro h d before after x y hencode hbehind hne
    rw [String.append_assoc] at hencode ⊢
    rcases encodeBytes_of_encode_append hencode with ⟨b, r, rfl, hr, hbytes, hascii, hlength⟩
    rcases Text.ofAscii_eq_append_iff.1 hr.symm with ⟨w, a, rfl, hw, rfl⟩
    have hpair : w.map Text.char = [x, y] := by
      rw [← Text.toList_ofAscii, ← hw, String.toList_ofList]
    rcases List.map_eq_cons_iff.1 hpair with ⟨p, rest, rfl, rfl, hrest⟩
    rcases List.map_eq_cons_iff.1 hrest with ⟨q, nothing, rfl, rfl, hnothing⟩
    cases List.map_eq_nil_iff.1 hnothing
    have hswapped : String.ofList [Text.char q, Text.char p] = Text.ofAscii [q, p] := rfl
    have hascii_all : ∀ z ∈ b ++ ([q, p] ++ a), z < 128 := by
      intro z hz
      refine hascii z ?_
      simpa [or_left_comm] using hz
    rw [hswapped, ← Text.ofAscii_append, ← Text.ofAscii_append]
    refine decode_ofAscii_of_error hascii_all ?_
    rw [Text.length_ofAscii, ← hlength] at hbehind
    exact decodeBytes_of_swap hbytes hbehind fun hpq => hne (congrArg Text.char hpq)

/-- Six symbols of an upper-case key string are replaced, and two of them change places. -/
theorem decode_of_burst_six_symbols :
    encode "A1B" [0, 255] = .ok ("A1B1QRL" ++ "SFAP83" ++ "F") ∧
      decode ("A1B1QRL" ++ "QQQQQQ" ++ "F") = .error .checksumMismatch ∧
        decode ("A1B1QRLSFAP" ++ String.ofList ['3', '8'] ++ "F") = .error .checksumMismatch := by
  have hencode : encode "A1B" [0, 255] = .ok ("A1B1QRL" ++ "SFAP83" ++ "F") :=
    eq_ok_of_toOption (by decide +kernel)
  have hencode' : encode "A1B" [0, 255] =
      .ok ("A1B1QRLSFAP" ++ String.ofList ['8', '3'] ++ "F") := hencode
  refine ⟨hencode, ?_, ?_⟩
  · have hsymbols : ∀ c ∈ "QQQQQQ".toList, c.toLower ∈ (Text.ofAscii alphabet).toList := by
      have hsame : "QQQQQQ".toList = List.replicate 6 'Q' := rfl
      intro c hc
      rw [hsame, List.mem_replicate] at hc
      rw [hc.2]
      decide
    have hcapitals : ¬ ∃ c ∈ ("A1B1QRL" ++ "QQQQQQ" ++ "F").toList, c.isLower = true :=
      (not_congr (Text.exists_isLower_ofAscii (Bytes.ascii "A1B1QRLQQQQQQF"))).2 (by decide)
    have hother : "QQQQQQ".toLower ≠ "SFAP83".toLower := by
      decide +kernel
    exact decode_of_burst.1 _ _ _ _ _ _ hencode (by decide) (by decide) rfl hsymbols
      (fun hmixed => hcapitals hmixed.1) hother
  · exact decode_of_burst.2 _ _ _ _ _ _ hencode' (by decide) (by decide)

end Bech32
end AgeCrypt
