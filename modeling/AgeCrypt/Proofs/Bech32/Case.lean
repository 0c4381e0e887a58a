import AgeCrypt.Proofs.Bech32.Codec

/-!
# The case of a key string

A key string is written in one case, so it is known by its lower-case form up to one choice
(`unmixed_iff_forms`).  `decodeBytes` leaves that choice to the text: for each kind and data it
accepts two texts (`decodeBytes_of_kind_iff`).  `encode` takes it from the human-readable part, so
it gives a decoded text back in the same case just if the human-readable part has a letter that
shows the case, or if there is no capital to lose (`encode_of_decode`).
-/

namespace AgeCrypt
namespace Bech32

open Regroup

/-! ## Two forms -/

/-- A text of one case is one of the two forms of its lower-case form. -/
theorem unmixed_iff_forms {text small : Bytes} (hsmall : small.any Ascii.isUpper = false) :
    (¬ (text.any Ascii.isLower = true ∧ text.any Ascii.isUpper = true) ∧
        text.map Ascii.toLower = small) ↔
      text = small ∨ text = small.map Ascii.toUpper := by
  constructor
  · rintro ⟨hunmixed, rfl⟩
    cases hlower : text.any Ascii.isLower with
    | false => exact .inr (Ascii.map_toUpper_toLower_of_any hlower).symm
    | true =>
        have hupper : text.any Ascii.isUpper = false := by
          simpa [hlower] using hunmixed
        exact .inl (Ascii.map_toLower_of_any hupper).symm
  · rintro (rfl | rfl)
    · exact ⟨by simp [hsmall], Ascii.map_toLower_of_any hsmall⟩
    · refine ⟨?_, ?_⟩
      · simp [List.any_map]
      · rw [Ascii.map_toLower_toUpper, Ascii.map_toLower_of_any hsmall]

/-- For a kind, whatever its case, and data there are two texts. -/
theorem decodeBytes_of_kind_iff {kind data values text : Bytes} (hkind : Writable kind)
    (hspells : Spells data values) :
    (∃ human, decodeBytes text = .ok (human, data) ∧
        human.map Ascii.toLower = kind.map Ascii.toLower) ↔
      text = spelled kind values ∨ text = (spelled kind values).map Ascii.toUpper := by
  rw [← unmixed_iff_forms (any_isUpper_spelled hspells.1)]
  constructor
  · rintro ⟨human, hdecode, hsame⟩
    rcases decodeBytes_eq_ok_iff.1 hdecode with ⟨hunmixed, -, -, -, values', hspells', hlower⟩
    refine ⟨hunmixed, ?_⟩
    rw [hlower, hspells'.unique hspells, ← spelled_map_toLower, hsame, spelled_map_toLower]
  · rintro ⟨hunmixed, hlower⟩
    -- the kind as the text has it
    rw [spelled] at hlower
    rcases List.map_eq_append_iff.1 hlower with ⟨human, rest, rfl, hhuman, hrest⟩
    refine ⟨human, decodeBytes_eq_ok_iff.2
      ⟨hunmixed, List.prefix_append .., ?_, ?_, values, hspells, ?_⟩, hhuman⟩
    · rintro rfl
      exact hkind.ne_nil (List.map_eq_nil_iff.1 hhuman.symm)
    · have hvisible : (kind.map Ascii.toLower).all Ascii.isVisible = true := by
        simpa using hkind.visible
      rw [← hhuman] at hvisible
      simpa using hvisible
    · rw [hlower, ← spelled, ← spelled_map_toLower kind, ← hhuman, spelled_map_toLower]

/-- The two texts differ if the kind has a letter. -/
theorem spelled_ne_map_toUpper {kind values : Bytes}
    (hletter : (kind.map Ascii.toLower).any Ascii.isLower = true) :
    spelled kind values ≠ (spelled kind values).map Ascii.toUpper := by
  intro hsame
  have hsmall : (spelled kind values).any Ascii.isLower = true := by
    rw [spelled, List.any_append, hletter, Bool.true_or]
  rw [hsame, List.any_map] at hsmall
  simp at hsmall

/-! ## Encoding what was decoded -/

theorem any_of_isPrefix {p : UInt8 → Bool} {human text : Bytes} (hfirst : human <+: text)
    (h : human.any p = true) : text.any p = true := by
  rcases hfirst with ⟨rest, rfl⟩
  rw [List.any_append, h, Bool.true_or]

/-- The case is taken from the human-readable part. -/
theorem encodeBytes_of_decodeBytes {text human data : Bytes}
    (h : decodeBytes text = .ok (human, data)) :
    encodeBytes human data =
      .ok (if human.any Ascii.isUpper then text else text.map Ascii.toLower) := by
  rcases decodeBytes_eq_ok_iff.1 h with
    ⟨hunmixed, hfirst, hne, hvisible, values, hspells, hlower⟩
  have hwritable : Writable human :=
    ⟨hne, hvisible, fun hmixed =>
      hunmixed ⟨any_of_isPrefix hfirst hmixed.2, any_of_isPrefix hfirst hmixed.1⟩⟩
  refine encodeBytes_eq_ok_iff.2 ⟨hwritable, values, hspells, ?_⟩
  rw [← hlower]
  split
  · rename_i hcapital
    have hsmall : text.any Ascii.isLower = false := by
      simpa [any_of_isPrefix hfirst hcapital] using hunmixed
    exact (Ascii.map_toUpper_toLower_of_any hsmall).symm
  · rfl

/-- The case is kept where the human-readable part shows it, and where there is no capital to
lose. -/
theorem encodeBytes_of_decodeBytes_iff {text human data : Bytes}
    (h : decodeBytes text = .ok (human, data)) :
    encodeBytes human data = .ok text ↔
      (human.any Ascii.isUpper = true ∨ human.any Ascii.isLower = true) ∨
        ¬ text.any Ascii.isUpper = true := by
  rcases decodeBytes_eq_ok_iff.1 h with ⟨hunmixed, hfirst, -⟩
  rw [encodeBytes_of_decodeBytes h, Except.ok.injEq]
  cases hcapital : human.any Ascii.isUpper with
  | true => simp
  | false =>
      simp only [Bool.false_eq_true, if_false, false_or]
      constructor
      · intro hsame
        right
        rw [← hsame]
        simp
      · rintro (hsmall | hlow)
        · exact Ascii.map_toLower_of_any
            (by simpa [any_of_isPrefix hfirst hsmall] using hunmixed)
        · exact Ascii.map_toLower_of_any (Bool.eq_false_iff.2 hlow)

/-! ## Texts -/

/-- All that is decoded is ASCII. -/
theorem lt_of_decodeBytes {text human data : Bytes} (h : decodeBytes text = .ok (human, data)) :
    (∀ x ∈ text, x < 128) ∧ ∀ x ∈ human, x < 128 := by
  rcases decodeBytes_eq_ok_iff.1 h with ⟨-, -, -, hvisible, values, hspells, hlower⟩
  exact ⟨lt_of_map_toLower_eq hvisible hspells.1 hlower, lt_of_isVisible hvisible⟩

/-- What is decoded is a text of ASCII characters. -/
theorem decode_eq_ok_iff_ofAscii {s h : String} {data : Bytes} :
    decode s = .ok (h, data) ↔
      ∃ text human, s = Text.ofAscii text ∧ h = Text.ofAscii human ∧
        decodeBytes text = .ok (human, data) := by
  rw [decode_eq_ok_iff_bytes]
  constructor
  · rintro ⟨human, hbytes, rfl⟩
    exact ⟨Text.utf8 s, human, (Text.ofAscii_utf8 (lt_of_decodeBytes hbytes).1).symm, rfl, hbytes⟩
  · rintro ⟨text, human, rfl, rfl, hbytes⟩
    exact ⟨human, by rw [Text.utf8_ofAscii (lt_of_decodeBytes hbytes).1, hbytes], rfl⟩

/-- A text has a letter just if it has one of either case. -/
theorem exists_isAlpha_ofAscii (b : Bytes) :
    (∃ c ∈ (Text.ofAscii b).toList, c.isAlpha = true) ↔
      b.any Ascii.isUpper = true ∨ b.any Ascii.isLower = true := by
  have hletter : ∀ c : Char, c.isAlpha = (c.isUpper || c.isLower) := fun _ => rfl
  rw [← Text.exists_isUpper_ofAscii, ← Text.exists_isLower_ofAscii]
  simp only [hletter, Bool.or_eq_true, and_or_left, exists_or]

/-- A decoded text is encoded again to itself, case included, just if its human-readable part has a
letter or the text has no capital.  A human-readable part without letters is encoded in lower
case. -/
theorem encode_of_decode {s h : String} {data : Bytes} (hdecode : decode s = .ok (h, data)) :
    (encode h data = .ok s ↔
        (∃ c ∈ h.toList, c.isAlpha = true) ∨ ¬ ∃ c ∈ s.toList, c.isUpper = true) ∧
      ((¬ ∃ c ∈ h.toList, c.isAlpha = true) → encode h data = .ok s.toLower) := by
  rcases decode_eq_ok_iff_ofAscii.1 hdecode with ⟨text, human, rfl, rfl, hbytes⟩
  have hascii := (lt_of_decodeBytes hbytes).2
  rw [exists_isAlpha_ofAscii, Text.exists_isUpper_ofAscii, encode_ofAscii_eq_ok_iff hascii]
  simp only [Text.ofAscii_inj, exists_eq_right]
  refine ⟨encodeBytes_of_decodeBytes_iff hbytes, fun hcaseless => ?_⟩
  have hcapital : ¬ human.any Ascii.isUpper = true := fun hany => hcaseless (.inl hany)
  rw [Text.toLower_ofAscii, encode_ofAscii_eq_ok_iff hascii, encodeBytes_of_decodeBytes hbytes,
    if_neg hcapital]
  exact ⟨_, rfl, rfl⟩

/-- A capital in the human-readable part keeps the text in upper case; without a letter there the
text comes back in lower case. -/
theorem encode_of_decode_capitals :
    (decode "A12UEL5L" = .ok ("A", []) ∧ encode "A" [] = .ok "A12UEL5L") ∧
      decode "?1EZYFCL" = .ok ("?", []) ∧ encode "?" [] = .ok "?1EZYFCL".toLower := by
  have hletter : decode "A12UEL5L" = .ok ("A", []) :=
    eq_ok_of_toOption (by decide +kernel)
  have hmark : decode "?1EZYFCL" = .ok ("?", []) :=
    eq_ok_of_toOption (by decide +kernel)
  have hcaseless : ¬ ∃ c ∈ "?".toList, c.isAlpha = true :=
    (not_congr (exists_isAlpha_ofAscii [63])).2 (by decide)
  exact ⟨⟨hletter, (encode_of_decode hletter).1.2 (.inl ⟨'A', by decide, by decide⟩)⟩, hmark,
    (encode_of_decode hmark).2 hcaseless⟩

/-- No letter of the human-readable part shows that the text is in upper case. -/
theorem encode_of_decode_caseless :
    decode "?1EZYFCL" = .ok ("?", []) ∧ encode "?" [] = .ok "?1ezyfcl" ∧
      encode "?" [] ≠ .ok "?1EZYFCL" := by
  have hencode : encode "?" [] = .ok "?1ezyfcl" :=
    eq_ok_of_toOption (by decide +kernel)
  refine ⟨eq_ok_of_toOption (by decide +kernel), hencode, fun hsame => ?_⟩
  rw [hencode, Except.ok.injEq] at hsame
  exact absurd hsame (by decide)

end Bech32
end AgeCrypt
