import AgeCrypt.Bech32.Codec
import AgeCrypt.Proofs.Bech32.Checksum
import AgeCrypt.Proofs.Text.Ascii

/-!
# Key strings are canonical

A key string is decoded just if it is, up to case, the one that `encode` makes of what it is decoded
to (`decode_iff_encode`).

The two sides are cut alike, although the human-readable part may contain separators: no symbol is
a separator, so the last one stands before the symbols (`splitLast_eq_some_iff`).  From there each
stage is an equivalence: symbols and values, values and checksum, values and data.  All of it is
shown for bytes first, in terms of `spelled`, the lower-case form; a text that passes is ASCII.
-/

namespace AgeCrypt
namespace Bech32

open Regroup

/-! ## The last separator -/

theorem splitLast_eq_none_iff {mark : UInt8} {text : Bytes} :
    splitLast mark text = none ↔ mark ∉ text := by
  induction text with
  | nil => simp [splitLast]
  | cons x text ih =>
      rw [splitLast, List.mem_cons, not_or, ← ih]
      cases splitLast mark text with
      | none => simp [eq_comm]
      | some cut => simp

/-- Where the mark does not come again, this is the cut. -/
theorem splitLast_append {mark : UInt8} {after : Bytes} (h : mark ∉ after) (before : Bytes) :
    splitLast mark (before ++ mark :: after) = some (before, after) := by
  induction before with
  | nil => simp [splitLast, splitLast_eq_none_iff.2 h]
  | cons x before ih => simp [splitLast, ih]

/-- The cut is at the last occurrence: none comes after it. -/
theorem splitLast_eq_some_iff {mark : UInt8} {text before after : Bytes} :
    splitLast mark text = some (before, after) ↔ text = before ++ mark :: after ∧ mark ∉ after := by
  constructor
  · intro h
    induction text generalizing before with
    | nil => cases h
    | cons x text ih =>
        rw [splitLast] at h
        cases hcut : splitLast mark text with
        | some cut =>
            rw [hcut] at h
            cases h
            rcases ih hcut with ⟨htext, hafter⟩
            exact ⟨by rw [htext, List.cons_append], hafter⟩
        | none =>
            simp only [hcut] at h
            split at h
            · rename_i hx
              cases h
              exact ⟨by rw [hx, List.nil_append], splitLast_eq_none_iff.1 hcut⟩
            · cases h
  · rintro ⟨rfl, hafter⟩
    exact splitLast_append hafter before

/-! ## Symbols -/

/-- Symbols stand for the values whose symbols they are in lower case. -/
theorem value?_eq_some_iff {s v : UInt8} :
    value? s = some v ↔ v.toNat < 2 ^ 5 ∧ symbol v = Ascii.toLower s := by
  constructor
  · intro h
    rcases Option.map_eq_some_iff.1 h with ⟨i, hi, rfl⟩
    rcases List.findIdx?_eq_some_iff_getElem.1 hi with ⟨hlt, hfound, -⟩
    have hindex : (UInt8.ofNat i).toNat = i :=
      UInt8.toNat_ofNat_of_lt' (Nat.lt_trans hlt (by decide))
    rw [hindex, symbol, hindex, List.getD_eq_getElem?_getD, List.getElem?_eq_getElem hlt]
    exact ⟨hlt, eq_of_beq hfound⟩
  · rintro ⟨hv, hsymbol⟩
    have hall : ∀ n < 32, value? (symbol (UInt8.ofNat n)) = some (UInt8.ofNat n) := by
      decide +kernel
    have hvalue := hall v.toNat hv
    rwa [UInt8.ofNat_toNat, hsymbol, value?, Ascii.toLower_toLower] at hvalue

/-- Symbols are read without their case, and a value has just one symbol. -/
theorem mapM_value?_eq_some_iff {symbols values : Bytes} :
    symbols.mapM value? = some values ↔
      Fits 5 values ∧ values.map symbol = symbols.map Ascii.toLower := by
  induction symbols generalizing values with
  | nil =>
      rw [List.mapM_nil, List.map_nil, List.map_eq_nil_iff]
      constructor
      · rintro ⟨⟩
        exact ⟨fun v hv => absurd hv List.not_mem_nil, rfl⟩
      · rintro ⟨-, rfl⟩
        rfl
  | cons s symbols ih =>
      simp only [List.mapM_cons, Option.bind_eq_bind, Option.bind_eq_some_iff, Option.pure_def,
        Option.some.injEq, value?_eq_some_iff, ih]
      constructor
      · rintro ⟨v, ⟨hv, hsymbol⟩, rest, ⟨hfits, hsymbols⟩, rfl⟩
        exact ⟨List.forall_mem_cons.2 ⟨hv, hfits⟩,
          by rw [List.map_cons, List.map_cons, hsymbol, hsymbols]⟩
      · rintro ⟨hfits, hsymbols⟩
        cases values with
        | nil => cases hsymbols
        | cons v rest =>
            rw [List.map_cons, List.map_cons, List.cons.injEq] at hsymbols
            rcases List.forall_mem_cons.1 hfits with ⟨hv, hrest⟩
            exact ⟨v, ⟨hv, hsymbols.1⟩, rest, ⟨hrest, hsymbols.2⟩, rfl⟩

/-- A symbol is visible, in lower case, and no separator. -/
theorem symbol_of_lt {v : UInt8} (hv : v.toNat < 2 ^ 5) :
    Ascii.isVisible (symbol v) = true ∧ Ascii.isUpper (symbol v) = false ∧
      symbol v ≠ separator := by
  have hall : ∀ n < 32, Ascii.isVisible (symbol (UInt8.ofNat n)) = true ∧
      Ascii.isUpper (symbol (UInt8.ofNat n)) = false ∧ symbol (UInt8.ofNat n) ≠ separator := by
    decide +kernel
  have hsymbol := hall v.toNat hv
  rwa [UInt8.ofNat_toNat] at hsymbol

/-- No symbol is a separator. -/
theorem separator_notMem_of_mapM {symbols values : Bytes}
    (h : symbols.mapM value? = some values) : separator ∉ symbols := by
  intro hmem
  rcases mapM_value?_eq_some_iff.1 h with ⟨hfits, hsymbols⟩
  have hlower : Ascii.toLower separator ∈ values.map symbol :=
    hsymbols ▸ List.mem_map_of_mem hmem
  rcases List.mem_map.1 hlower with ⟨v, hv, hsymbol⟩
  exact (symbol_of_lt (hfits v hv)).2.2 hsymbol

/-- The separator has no other case. -/
theorem toLower_eq_separator_iff {x : UInt8} : Ascii.toLower x = separator ↔ x = separator := by
  have hseparator : separator.toNat = 49 := rfl
  rw [← UInt8.toNat_inj, ← UInt8.toNat_inj, Ascii.toNat_toLower, hseparator]
  split
  · rename_i h
    have hbounds := Ascii.isUpper_iff.1 h
    omega
  · rfl

/-! ## The lower-case form -/

/-- The case of the human-readable part does not enter the checksum. -/
theorem expand_map_toLower (human : Bytes) : expand (human.map Ascii.toLower) = expand human := by
  rw [expand, Ascii.map_toLower_toLower, expand]

/-- The lower-case key string of five-bit values under a human-readable part. -/
def spelled (human values : Bytes) : Bytes :=
  human.map Ascii.toLower ++ separator :: (values ++ checksum human values).map symbol

/-- A spelling does not tell the case of the human-readable part. -/
@[simp] theorem spelled_map_toLower (human values : Bytes) :
    spelled (human.map Ascii.toLower) values = spelled human values := by
  rw [spelled, spelled, checksum, checksum, expand_map_toLower, Ascii.map_toLower_toLower]

/-- Data with its checksum is written in symbols. -/
theorem fits_append_checksum {values : Bytes} (h : Fits 5 values) (human : Bytes) :
    Fits 5 (values ++ checksum human values) := by
  intro v hv
  rcases List.mem_append.1 hv with hv | hv
  · exact h v hv
  · exact fits_checksum human values v hv

/-- What holds of the human-readable part, of the separator and of symbols holds all through. -/
theorem forall_mem_spelled {p : UInt8 → Prop} {human values : Bytes} (hfits : Fits 5 values)
    (hhuman : ∀ x ∈ human, p (Ascii.toLower x)) (hseparator : p separator)
    (hsymbol : ∀ v : UInt8, v.toNat < 2 ^ 5 → p (symbol v)) : ∀ x ∈ spelled human values, p x := by
  intro x hx
  rw [spelled, List.mem_append, List.mem_cons] at hx
  rcases hx with hx | rfl | hx
  · rcases List.mem_map.1 hx with ⟨y, hy, rfl⟩
    exact hhuman y hy
  · exact hseparator
  · rcases List.mem_map.1 hx with ⟨v, hv, rfl⟩
    exact hsymbol v (fits_append_checksum hfits human v hv)

theorem isVisible_of_mem_spelled {human values : Bytes} (hhuman : human.all Ascii.isVisible = true)
    (hfits : Fits 5 values) : ∀ x ∈ spelled human values, Ascii.isVisible x = true := by
  refine forall_mem_spelled hfits (fun x hx => ?_) (by decide) fun v hv => (symbol_of_lt hv).1
  rw [Ascii.isVisible_toLower]
  exact List.all_eq_true.1 hhuman x hx

/-- A spelling is in lower case. -/
theorem any_isUpper_spelled {human values : Bytes} (hfits : Fits 5 values) :
    (spelled human values).any Ascii.isUpper = false := by
  rw [List.any_eq_false]
  refine forall_mem_spelled hfits (fun x _ => ?_) (by decide) fun v hv => ?_
  · simp
  · simp [(symbol_of_lt hv).2.1]

/-- Text whose lower-case form is visible is ASCII. -/
theorem lt_of_map_toLower_eq {human values text : Bytes} (hhuman : human.all Ascii.isVisible = true)
    (hfits : Fits 5 values) (htext : text.map Ascii.toLower = spelled human values) :
    ∀ x ∈ text, x < 128 := by
  intro x hx
  have hvisible := isVisible_of_mem_spelled hhuman hfits _
    (htext ▸ List.mem_map_of_mem (f := Ascii.toLower) hx)
  rw [Ascii.isVisible_toLower] at hvisible
  exact (Ascii.of_isVisible hvisible).1

/-! ## Bytes -/

structure Writable (human : Bytes) : Prop where
  ne_nil : human ≠ []
  visible : human.all Ascii.isVisible = true
  unmixed : ¬ (human.any Ascii.isUpper = true ∧ human.any Ascii.isLower = true)

/-- What is written: the case of the human-readable part is the case of all symbols. -/
theorem encodeBytes_eq_ok_iff {human data text : Bytes} :
    encodeBytes human data = .ok text ↔ Writable human ∧ ∃ values, Spells data values ∧
      text = if human.any Ascii.isUpper then (spelled human values).map Ascii.toUpper
        else spelled human values := by
  rcases exists_regroup_eight data with ⟨values, hregroup, hspells⟩
  have hvalues : ∀ {p : Bytes → Prop}, (∃ v, Spells data v ∧ p v) ↔ p values := by
    intro p
    exact ⟨fun ⟨v, hv, hp⟩ => hv.unique hspells ▸ hp, fun hp => ⟨values, hspells, hp⟩⟩
  rw [hvalues]
  unfold encodeBytes
  split
  · rename_i hbad
    refine ⟨fun h => (by cases h), fun ⟨hw, _⟩ => ?_⟩
    rcases hbad with hnil | hhidden
    · exact absurd hnil hw.ne_nil
    · exact absurd hw.visible hhidden
  · rename_i hgood
    rw [not_or, Decidable.not_not] at hgood
    split
    · rename_i hmixed
      exact ⟨fun h => (by cases h), fun ⟨hw, _⟩ => absurd hmixed hw.unmixed⟩
    · rename_i hunmixed
      have hw : Writable human := ⟨hgood.1, hgood.2, hunmixed⟩
      rw [hregroup]
      simp only [bind, Except.bind, Except.ok.injEq, hw, true_and]
      exact eq_comm

/-- The lower-case form of a text is what `encodeBytes` makes of the lower-case human-readable part
just if it is spelled so. -/
theorem encodeBytes_map_toLower_eq_ok_iff {human data text : Bytes} :
    encodeBytes (human.map Ascii.toLower) data = .ok text ↔
      human ≠ [] ∧ human.all Ascii.isVisible = true ∧
        ∃ values, Spells data values ∧ text = spelled human values := by
  have hlower : (human.map Ascii.toLower).any Ascii.isUpper = false := by
    simp
  rw [encodeBytes_eq_ok_iff, hlower]
  simp only [Bool.false_eq_true, if_false, spelled_map_toLower]
  constructor
  · rintro ⟨hw, hspelled⟩
    exact ⟨fun h => hw.ne_nil (by rw [h, List.map_nil]), by simpa using hw.visible, hspelled⟩
  · rintro ⟨hne, hvisible, hspelled⟩
    refine ⟨⟨fun h => hne (List.map_eq_nil_iff.1 h), by simpa using hvisible, ?_⟩, hspelled⟩
    rw [hlower]
    rintro ⟨⟨⟩, -⟩

/-- The checks of `decodeBytes`, in the order in which they are made. -/
theorem decodeBytes_eq_ok_iff_checks {text human data : Bytes} :
    decodeBytes text = .ok (human, data) ↔
      ¬ (text.any Ascii.isLower = true ∧ text.any Ascii.isUpper = true) ∧
        ∃ symbols, splitLast separator text = some (human, symbols) ∧
          (human ≠ [] ∧ checksumLength ≤ symbols.length) ∧ human.all Ascii.isVisible = true ∧
            ∃ all, symbols.mapM value? = some all ∧ verify human all = true ∧
              regroup 5 8 false (all.take (all.length - checksumLength)) = .ok data := by
  unfold decodeBytes
  constructor
  · intro h
    split at h
    · cases h
    rename_i hunmixed
    split at h
    · cases h
    rename_i before symbols hcut
    split at h
    · cases h
    rename_i hplaced
    rw [not_or, Nat.not_lt] at hplaced
    split at h
    · cases h
    rename_i hvisible
    split at h
    · cases h
    rename_i all hall
    split at h
    · cases h
    rename_i hverify
    cases hregroup : regroup 5 8 false (all.take (all.length - checksumLength)) with
    | error e =>
        rw [hregroup] at h
        cases h
    | ok bytes =>
        rw [hregroup] at h
        cases h
        exact ⟨hunmixed, symbols, hcut, hplaced, Decidable.not_not.1 hvisible, all, hall,
          Decidable.not_not.1 hverify, hregroup⟩
  · rintro ⟨hunmixed, symbols, hcut, ⟨hne, hlong⟩, hvisible, all, hall, hverify, hregroup⟩
    have hplaced : ¬ (human = [] ∨ symbols.length < checksumLength) := by
      simp [hne, hlong]
    rw [if_neg hunmixed, hcut]
    simp only [if_neg hplaced, hvisible, hall, hverify, hregroup]
    rfl

/-- Symbols are read as data just if, in lower case, they are those of its values and of the
checksum. -/
theorem exists_values_iff {human symbols data : Bytes} :
    (checksumLength ≤ symbols.length ∧ ∃ all, symbols.mapM value? = some all ∧
        verify human all = true ∧
          regroup 5 8 false (all.take (all.length - checksumLength)) = .ok data) ↔
      ∃ values, Spells data values ∧
        symbols.map Ascii.toLower = (values ++ checksum human values).map symbol := by
  constructor
  · rintro ⟨hlong, all, hall, hverify, hregroup⟩
    rcases mapM_value?_eq_some_iff.1 hall with ⟨hfits, hsymbols⟩
    have hlen : all.length = symbols.length := by
      simpa using congrArg List.length hsymbols
    have hsplit := List.take_append_drop (all.length - checksumLength) all
    have hdrop : (all.drop (all.length - checksumLength)).length = checksumLength := by
      rw [List.length_drop]
      omega
    have hchecked : all.drop (all.length - checksumLength) =
        checksum human (all.take (all.length - checksumLength)) := by
      refine (verify_append_iff (fun v hv => hfits v (List.mem_of_mem_drop hv)) hdrop).1 ?_
      rw [hsplit, hverify]
    refine ⟨_, (regroup_five_eq_ok_iff fun v hv => hfits v (List.mem_of_mem_take hv)).1 hregroup,
      ?_⟩
    rw [← hchecked, hsplit, hsymbols]
  · rintro ⟨values, hspells, hsymbols⟩
    have hfits := fits_append_checksum hspells.1 human
    have hlen : symbols.length = values.length + checksumLength := by
      simpa using congrArg List.length hsymbols
    refine ⟨by omega, values ++ checksum human values,
      mapM_value?_eq_some_iff.2 ⟨hfits, hsymbols.symm⟩, ?_, ?_⟩
    · exact (verify_append_iff (fits_checksum human values) (length_checksum human values)).2 rfl
    · rw [List.length_append, length_checksum, Nat.add_sub_cancel, List.take_left]
      exact (regroup_five_eq_ok_iff hspells.1).2 hspells

/-- Text is cut before its symbols just if its lower-case form is spelled by what stands first. -/
theorem exists_symbols_iff {text human values : Bytes} (hfits : Fits 5 values) :
    (∃ symbols, splitLast separator text = some (human, symbols) ∧
        symbols.map Ascii.toLower = (values ++ checksum human values).map symbol) ↔
      human <+: text ∧ text.map Ascii.toLower = spelled human values := by
  have hseparator : Ascii.toLower separator = separator := by
    decide
  constructor
  · rintro ⟨symbols, hcut, hsymbols⟩
    rcases splitLast_eq_some_iff.1 hcut with ⟨rfl, -⟩
    refine ⟨List.prefix_append _ _, ?_⟩
    rw [List.map_append, List.map_cons, hsymbols, hseparator, spelled]
  · rintro ⟨⟨rest, rfl⟩, hspelled⟩
    rw [List.map_append, spelled, List.append_cancel_left_eq] at hspelled
    rcases List.map_eq_cons_iff.1 hspelled with ⟨x, symbols, rfl, hx, hsymbols⟩
    refine ⟨symbols, splitLast_eq_some_iff.2 ⟨?_, fun hmem => ?_⟩, hsymbols⟩
    · rw [toLower_eq_separator_iff.1 hx]
    · exact separator_notMem_of_mapM
        (mapM_value?_eq_some_iff.2 ⟨fits_append_checksum hfits human, hsymbols.symm⟩) hmem

/-- What `decodeBytes` accepts: text of one case that is, in lower case, spelled by its own
beginning. -/
theorem decodeBytes_eq_ok_iff {text human data : Bytes} :
    decodeBytes text = .ok (human, data) ↔
      ¬ (text.any Ascii.isLower = true ∧ text.any Ascii.isUpper = true) ∧ human <+: text ∧
        human ≠ [] ∧ human.all Ascii.isVisible = true ∧
          ∃ values, Spells data values ∧ text.map Ascii.toLower = spelled human values := by
  rw [decodeBytes_eq_ok_iff_checks]
  refine and_congr_right fun _ => ?_
  constructor
  · rintro ⟨symbols, hcut, ⟨hne, hlong⟩, hvisible, hread⟩
    rcases exists_values_iff.1 ⟨hlong, hread⟩ with ⟨values, hspells, hsymbols⟩
    rcases (exists_symbols_iff hspells.1).1 ⟨symbols, hcut, hsymbols⟩ with ⟨hfirst, hspelled⟩
    exact ⟨hfirst, hne, hvisible, values, hspells, hspelled⟩
  · rintro ⟨hfirst, hne, hvisible, values, hspells, hspelled⟩
    rcases (exists_symbols_iff hspells.1).2 ⟨hfirst, hspelled⟩ with ⟨symbols, hcut, hsymbols⟩
    rcases exists_values_iff.2 ⟨values, hspells, hsymbols⟩ with ⟨hlong, hread⟩
    exact ⟨symbols, hcut, ⟨hne, hlong⟩, hvisible, hread⟩

/-- The written form has one case, begins with its human-readable part and is spelled by it. -/
theorem decodeBytes_of_encodeBytes {human data text : Bytes}
    (h : encodeBytes human data = .ok text) : decodeBytes text = .ok (human, data) := by
  rcases encodeBytes_eq_ok_iff.1 h with ⟨hw, values, hspells, htext⟩
  have hupper : (spelled human values).any Ascii.isUpper = false := any_isUpper_spelled hspells.1
  have hlower := Ascii.map_toLower_of_any hupper
  rw [decodeBytes_eq_ok_iff]
  split at htext
  · rename_i hcapital
    have hsmall : human.any Ascii.isLower = false := by
      simpa [hcapital] using hw.unmixed
    subst htext
    refine ⟨?_, ?_, hw.ne_nil, hw.visible, values, hspells, ?_⟩
    · rw [List.any_map]
      simp
    · rw [spelled, List.map_append, Ascii.map_toUpper_toLower_of_any hsmall]
      exact List.prefix_append _ _
    · rw [Ascii.map_toLower_toUpper, hlower]
  · rename_i hsmall
    subst htext
    refine ⟨?_, ?_, hw.ne_nil, hw.visible, values, hspells, hlower⟩
    · simp [hupper]
    · rw [spelled, Ascii.map_toLower_of_any (Bool.eq_false_iff.2 hsmall)]
      exact List.prefix_append _ _

/-! ## Texts -/

/-- A result may be known by its value alone. -/
theorem eq_ok_of_toOption {ε α : Type} {x : Except ε α} {a : α} (h : x.toOption = some a) :
    x = .ok a := by
  cases x with
  | error e => cases h
  | ok b =>
      cases h
      rfl

/-- Texts are encoded as their bytes are. -/
theorem encode_eq_ok_iff_bytes {h : String} {data : Bytes} {s : String} :
    encode h data = .ok s ↔
      ∃ text, encodeBytes (Text.utf8 h) data = .ok text ∧ Text.ofAscii text = s := by
  rw [encode]
  cases encodeBytes (Text.utf8 h) data with
  | error e => simp [Except.map]
  | ok text => simp [Except.map]

theorem encode_ofAscii_eq_ok_iff {human data : Bytes} (hascii : ∀ x ∈ human, x < 128)
    {s : String} :
    encode (Text.ofAscii human) data = .ok s ↔
      ∃ text, encodeBytes human data = .ok text ∧ Text.ofAscii text = s := by
  rw [encode_eq_ok_iff_bytes, Text.utf8_ofAscii hascii]

/-- Texts are decoded as their bytes are. -/
theorem decode_eq_ok_iff_bytes {s h : String} {data : Bytes} :
    decode s = .ok (h, data) ↔
      ∃ human, decodeBytes (Text.utf8 s) = .ok (human, data) ∧ Text.ofAscii human = h := by
  rw [decode]
  cases decodeBytes (Text.utf8 s) with
  | error e => simp [Except.map]
  | ok r =>
      rcases r with ⟨human, bytes⟩
      simp only [Except.map, Except.ok.injEq, Prod.mk.injEq]
      constructor
      · rintro ⟨hhuman, hbytes⟩
        exact ⟨human, ⟨rfl, hbytes⟩, hhuman⟩
      · rintro ⟨_, ⟨rfl, hbytes⟩, hhuman⟩
        exact ⟨hhuman, hbytes⟩

theorem lt_of_isVisible {human : Bytes} (h : human.all Ascii.isVisible = true) :
    ∀ x ∈ human, x < 128 :=
  fun x hx => (Ascii.of_isVisible (List.all_eq_true.1 h x hx)).1

/-- Both sides of `decode_iff_encode` for a text and a beginning of ASCII characters. -/
theorem decodeBytes_iff_encode {text human data : Bytes}
    (hhuman : human.all Ascii.isVisible = true) :
    decodeBytes text = .ok (human, data) ↔
      ¬ ((∃ c ∈ (Text.ofAscii text).toList, c.isLower = true) ∧
          ∃ c ∈ (Text.ofAscii text).toList, c.isUpper = true) ∧
        (Text.ofAscii human).toList <+: (Text.ofAscii text).toList ∧ human ≠ [] ∧
          encode (Text.ofAscii human).toLower data = .ok (Text.ofAscii text).toLower := by
  have hlower : ∀ x ∈ human.map Ascii.toLower, x < 128 :=
    lt_of_isVisible (by simpa using hhuman)
  rw [decodeBytes_eq_ok_iff, Text.exists_isLower_ofAscii, Text.exists_isUpper_ofAscii,
    Text.prefix_ofAscii, Text.toLower_ofAscii, Text.toLower_ofAscii,
    encode_ofAscii_eq_ok_iff hlower]
  simp only [Text.ofAscii_inj, exists_eq_right, encodeBytes_map_toLower_eq_ok_iff, hhuman,
    true_and]
  exact and_congr_right fun _ => and_congr_right fun _ =>
    ⟨fun ⟨hne, hspelled⟩ => ⟨hne, hne, hspelled⟩, fun ⟨hne, _, hspelled⟩ => ⟨hne, hspelled⟩⟩

/-- A text whose lower-case form is written is ASCII. -/
theorem exists_ofAscii_of_encode {human data : Bytes} (hhuman : human.all Ascii.isVisible = true)
    {s : String} (h : encode (Text.ofAscii human).toLower data = .ok s.toLower) :
    ∃ text, (∀ x ∈ text, x < 128) ∧ s = Text.ofAscii text := by
  rw [Text.toLower_ofAscii, encode_ofAscii_eq_ok_iff (lt_of_isVisible (by simpa using hhuman))] at h
  rcases h with ⟨text, hencode, hs⟩
  rcases encodeBytes_map_toLower_eq_ok_iff.1 hencode with ⟨-, -, values, hspells, rfl⟩
  refine Text.exists_ofAscii fun c hc => Text.toNat_lt_of_toLower ?_
  have hmem : c.toLower ∈ (Text.ofAscii (spelled human values)).toList := by
    rw [hs, Text.toList_toLower]
    exact List.mem_map_of_mem hc
  rw [Text.toList_ofAscii] at hmem
  rcases List.mem_map.1 hmem with ⟨x, hx, hchar⟩
  rw [← hchar, Text.toNat_char]
  exact (Ascii.of_isVisible (isVisible_of_mem_spelled hhuman hspells.1 x hx)).1

/-- A text is decoded just if it is of one case, begins with a visible human-readable part and is,
in lower case, what that part in lower case and the data are encoded to.  So all that is encoded is
decoded to what it was made of, separators in the human-readable part included. -/
theorem decode_iff_encode :
    (∀ (s h : String) (d : Bytes), decode s = .ok (h, d) ↔
      ¬ ((∃ c ∈ s.toList, c.isLower = true) ∧ ∃ c ∈ s.toList, c.isUpper = true) ∧
        h.toList <+: s.toList ∧ h ≠ "" ∧ (∀ c ∈ h.toList, 33 ≤ c.toNat ∧ c.toNat ≤ 126) ∧
          encode h.toLower d = .ok s.toLower) ∧
      ∀ (s h : String) (d : Bytes), encode h d = .ok s → decode s = .ok (h, d) := by
  constructor
  · intro s h d
    rw [decode_eq_ok_iff_bytes]
    constructor
    · rintro ⟨human, hdecode, rfl⟩
      rcases decodeBytes_eq_ok_iff.1 hdecode with ⟨-, -, hne, hvisible, values, hspells, htext⟩
      have hs := Text.ofAscii_utf8 (lt_of_map_toLower_eq hvisible hspells.1 htext)
      rw [decodeBytes_iff_encode hvisible, hs] at hdecode
      rcases hdecode with ⟨hunmixed, hfirst, -, hencode⟩
      exact ⟨hunmixed, hfirst, Text.ofAscii_ne_empty hne, (Text.isVisible_ofAscii human).2 hvisible,
        hencode⟩
    · rintro ⟨hunmixed, hfirst, hne, hvisible, hencode⟩
      rcases Text.exists_ofAscii fun c hc => Nat.lt_of_le_of_lt (hvisible c hc).2 (by decide) with
        ⟨human, -, rfl⟩
      rw [Text.isVisible_ofAscii] at hvisible
      rcases exists_ofAscii_of_encode hvisible hencode with ⟨text, hascii, rfl⟩
      rw [Text.utf8_ofAscii hascii]
      refine ⟨human, (decodeBytes_iff_encode hvisible).2 ⟨hunmixed, hfirst, ?_, hencode⟩, rfl⟩
      rintro rfl
      exact hne rfl
  · intro s h d hencode
    rw [decode_eq_ok_iff_bytes]
    cases htext : encodeBytes (Text.utf8 h) d with
    | error e =>
        rw [encode, htext] at hencode
        cases hencode
    | ok text =>
        rw [encode, htext] at hencode
        cases hencode
        have hdecode := decodeBytes_of_encodeBytes htext
        rcases decodeBytes_eq_ok_iff.1 hdecode with ⟨-, -, -, hvisible, values, hspells, hlower⟩
        refine ⟨Text.utf8 h, ?_, Text.ofAscii_utf8 (lt_of_isVisible hvisible)⟩
        rw [Text.utf8_ofAscii (lt_of_map_toLower_eq hvisible hspells.1 hlower), hdecode]

/-- The last separator counts, in either case. -/
theorem decode_iff_encode_two_separators :
    encode "A1B" [0, 255] = .ok "A1B1QRLSFAP83F" ∧
      decode "A1B1QRLSFAP83F" = .ok ("A1B", [0, 255]) ∧
        decode "a1b1qrlsfap83f" = .ok ("a1b", [0, 255]) := by
  have hbytes : (encodeBytes (Bytes.ascii "A1B") [0, 255]).toOption =
      some (Bytes.ascii "A1B1QRLSFAP83F") := by
    decide +kernel
  have hencode : encode "A1B" [0, 255] = .ok "A1B1QRLSFAP83F" := by
    have hascii : ∀ x ∈ Bytes.ascii "A1B", x < 128 := lt_of_isVisible rfl
    refine (encode_ofAscii_eq_ok_iff hascii).2 ⟨Bytes.ascii "A1B1QRLSFAP83F", ?_, rfl⟩
    cases htext : encodeBytes (Bytes.ascii "A1B") [0, 255] with
    | error e =>
        rw [htext] at hbytes
        cases hbytes
    | ok text =>
        rw [htext] at hbytes
        exact congrArg Except.ok (Option.some.inj hbytes)
  have hdecode := decode_iff_encode.2 _ _ _ hencode
  have hlower : encode "a1b" [0, 255] = .ok "a1b1qrlsfap83f" := by
    have hsame := ((decode_iff_encode.1 _ _ _).1 hdecode).2.2.2.2
    have hhuman : "A1B".toLower = "a1b" := Text.toLower_ofAscii (Bytes.ascii "A1B")
    have htext : "A1B1QRLSFAP83F".toLower = "a1b1qrlsfap83f" :=
      Text.toLower_ofAscii (Bytes.ascii "A1B1QRLSFAP83F")
    rwa [hhuman, htext] at hsame
  exact ⟨hencode, hdecode, decode_iff_encode.2 _ _ _ hlower⟩

end Bech32
end AgeCrypt
