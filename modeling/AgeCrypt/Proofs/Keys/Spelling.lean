import AgeCrypt.Keys.X25519
import AgeCrypt.Proofs.Bech32.Case

/-!
# The spellings of a key

The text of a key is a key string under the kind of the key.  Reading ignores the case of the kind
and asks for one case all through, so a key is read from two texts: the small and the capital form
of its own (`decodeKey_eq_ok_iff_encodeKey`).  Public keys are written in small letters and secret
keys in capitals, and no text is read as both (`key_spellings`).
-/

namespace AgeCrypt

open Bech32 Bech32.Regroup

variable {kind : String}

/-! ## Reading -/

/-- A text is read as a key if its bytes decode to the bytes of the key, under the right name in
either case. -/
theorem decodeKey_eq_ok_iff {s : String} {key : Block 32} :
    decodeKey kind s = .ok key ↔
      ∃ text human, s = Text.ofAscii text ∧ decodeBytes text = .ok (human, key.bytes) ∧
        human.map Ascii.toLower = (Text.utf8 kind).map Ascii.toLower := by
  constructor
  · intro h
    unfold decodeKey at h
    split at h
    · cases h
    · rename_i found data hdecode
      rcases decode_eq_ok_iff_ofAscii.1 hdecode with ⟨text, human, rfl, rfl, hbytes⟩
      rw [Text.utf8_ofAscii (lt_of_decodeBytes hbytes).2] at h
      split at h
      · cases h
      · rename_i hkind
        rw [ne_eq, Decidable.not_not] at hkind
        cases hblock : Block.ofBytes? 32 data with
        | none =>
            rw [hblock] at h
            cases h
        | some block =>
            rw [hblock] at h
            cases h
            rw [← Block.bytes_of_ofBytes? hblock] at hbytes
            exact ⟨text, human, rfl, hbytes, hkind⟩
  · rintro ⟨text, human, rfl, hbytes, hkind⟩
    have hdecode : decode (Text.ofAscii text) = .ok (Text.ofAscii human, key.bytes) :=
      decode_eq_ok_iff_ofAscii.2 ⟨text, human, rfl, rfl, hbytes⟩
    rw [decodeKey, hdecode]
    simp only [Text.utf8_ofAscii (lt_of_decodeBytes hbytes).2, hkind, ne_eq, not_true_eq_false,
      if_false, Block.ofBytes?_bytes]

/-- The kinds of a text agree up to case. -/
theorem map_toLower_of_decodeKey {other s : String} {key key' : Block 32}
    (h : decodeKey kind s = .ok key) (h' : decodeKey other s = .ok key') :
    (Text.utf8 kind).map Ascii.toLower = (Text.utf8 other).map Ascii.toLower := by
  rcases decodeKey_eq_ok_iff.1 h with ⟨text, human, rfl, hbytes, hkind⟩
  rcases decodeKey_eq_ok_iff.1 h' with ⟨text', human', htext, hbytes', hother⟩
  rw [Text.ofAscii_inj] at htext
  rw [← htext, hbytes, Except.ok.injEq, Prod.mk.injEq] at hbytes'
  rw [← hkind, ← hother, hbytes'.1]

/-! ## Writing -/

section

variable (hkind : Writable (Text.utf8 kind)) (key : Block 32)
include hkind

/-- The text of a key, by the values of its bytes. -/
theorem exists_values_encodeKey :
    ∃ text values, encodeKey kind key = Text.ofAscii text ∧ Spells key.bytes values ∧
      encodeBytes (Text.utf8 kind) key.bytes = .ok text ∧
        text = if (Text.utf8 kind).any Ascii.isUpper then
          (spelled (Text.utf8 kind) values).map Ascii.toUpper
          else spelled (Text.utf8 kind) values := by
  rcases exists_regroup_eight key.bytes with ⟨values, -, hspells⟩
  have hbytes := encodeBytes_eq_ok_iff.2 ⟨hkind, values, hspells, rfl⟩
  refine ⟨_, values, ?_, hspells, hbytes, rfl⟩
  rw [encodeKey, encode_eq_ok_iff_bytes.2 ⟨_, hbytes, rfl⟩]

/-- A key string is visible ASCII and begins with its kind. -/
theorem exists_encodeKey :
    ∃ text : Bytes, encodeKey kind key = Text.ofAscii text ∧
      (∀ x ∈ text, Ascii.isVisible x = true) ∧ Text.utf8 kind <+: text := by
  rcases exists_values_encodeKey hkind key with ⟨text, -, hkey, -, hencode, -⟩
  have hbytes := decodeBytes_of_encodeBytes hencode
  rcases decodeBytes_eq_ok_iff.1 hbytes with ⟨-, hprefix, -, hvisible, values, hspells, hlower⟩
  refine ⟨text, hkey, fun x hx => ?_, hprefix⟩
  have hmapped := isVisible_of_mem_spelled hvisible hspells.1 _
    (hlower ▸ List.mem_map_of_mem (f := Ascii.toLower) hx)
  rwa [Ascii.isVisible_toLower] at hmapped

/-- Both forms of the text of a key. -/
theorem exists_toLower_encodeKey :
    ∃ values, Spells key.bytes values ∧
      (encodeKey kind key).toLower = Text.ofAscii (spelled (Text.utf8 kind) values) ∧
        (encodeKey kind key).toUpper =
          Text.ofAscii ((spelled (Text.utf8 kind) values).map Ascii.toUpper) := by
  rcases exists_values_encodeKey hkind key with ⟨text, values, hkey, hspells, -, rfl⟩
  have hsmall : (spelled (Text.utf8 kind) values).any Ascii.isUpper = false :=
    any_isUpper_spelled hspells.1
  have hlower := Ascii.map_toLower_of_any hsmall
  refine ⟨values, hspells, ?_, ?_⟩
  · rw [hkey, Text.toLower_ofAscii, Text.ofAscii_inj]
    split
    · rw [Ascii.map_toLower_toUpper, hlower]
    · exact hlower
  · rw [hkey, Text.toUpper_ofAscii, Text.ofAscii_inj]
    split
    · exact Ascii.map_toUpper_toUpper _
    · rfl

/-- A key is read from the two forms of its text, and from no other text. -/
theorem decodeKey_eq_ok_iff_encodeKey {s : String} :
    decodeKey kind s = .ok key ↔
      s = (encodeKey kind key).toLower ∨ s = (encodeKey kind key).toUpper := by
  rcases exists_toLower_encodeKey hkind key with ⟨values, hspells, hlower, hupper⟩
  rw [hlower, hupper, decodeKey_eq_ok_iff]
  -- the values of the bytes are the same whichever text they are read from
  constructor
  · rintro ⟨text, human, rfl, hbytes, hsame⟩
    rw [Text.ofAscii_inj, Text.ofAscii_inj]
    exact (decodeBytes_of_kind_iff hkind hspells).1 ⟨human, hbytes, hsame⟩
  · intro hs
    have hform : ∃ text, s = Text.ofAscii text ∧ (text = spelled (Text.utf8 kind) values ∨
        text = (spelled (Text.utf8 kind) values).map Ascii.toUpper) := by
      rcases hs with rfl | rfl
      · exact ⟨_, rfl, .inl rfl⟩
      · exact ⟨_, rfl, .inr rfl⟩
    rcases hform with ⟨text, rfl, htext⟩
    rcases (decodeBytes_of_kind_iff hkind hspells).2 htext with ⟨human, hbytes, hsame⟩
    exact ⟨text, human, rfl, hbytes, hsame⟩

/-- The two spellings of a key are two texts, since its name has a letter. -/
theorem toLower_encodeKey_ne_toUpper
    (hletter : ((Text.utf8 kind).map Ascii.toLower).any Ascii.isLower = true) :
    (encodeKey kind key).toLower ≠ (encodeKey kind key).toUpper := by
  rcases exists_toLower_encodeKey hkind key with ⟨values, -, hlower, hupper⟩
  rw [hlower, hupper, Ne, Text.ofAscii_inj]
  exact spelled_ne_map_toUpper hletter

/-- The kind says which of the two forms is written. -/
theorem encodeKey_eq_toLower_or_toUpper :
    encodeKey kind key = if (Text.utf8 kind).any Ascii.isUpper then (encodeKey kind key).toUpper
      else (encodeKey kind key).toLower := by
  rcases exists_values_encodeKey hkind key with ⟨text, values, hkey, hspells, -, rfl⟩
  rw [hkey, Text.toLower_ofAscii, Text.toUpper_ofAscii]
  split
  · rw [Ascii.map_toUpper_toUpper]
  · rw [Ascii.map_toLower_of_any (any_isUpper_spelled hspells.1)]

end

/-! ## Both kinds of keys -/

namespace PublicKey

theorem writable_kind : Writable (Text.utf8 PublicKey.kind) :=
  ⟨by decide, by decide, by decide⟩

theorem parse_eq_ok_iff {s : String} {k : PublicKey} :
    PublicKey.parse s = .ok k ↔ decodeKey PublicKey.kind s = .ok k.point := by
  rw [PublicKey.parse]
  cases decodeKey PublicKey.kind s with
  | error e => exact ⟨nofun, nofun⟩
  | ok block => exact ⟨fun h => by cases h; rfl, fun h => by cases h; rfl⟩

theorem parse_eq_ok_iff_text {s : String} {k : PublicKey} :
    PublicKey.parse s = .ok k ↔ s = k.text.toLower ∨ s = k.text.toUpper :=
  parse_eq_ok_iff.trans (decodeKey_eq_ok_iff_encodeKey writable_kind k.point)

/-- It is written in small letters. -/
theorem toLower_text (k : PublicKey) : k.text.toLower = k.text :=
  (encodeKey_eq_toLower_or_toUpper writable_kind k.point).symm

/-- A public key is read back from its text. -/
theorem parse_text (k : PublicKey) : PublicKey.parse k.text = .ok k :=
  parse_eq_ok_iff_text.2 (.inl k.toLower_text.symm)

theorem text_ne_toUpper (k : PublicKey) : k.text ≠ k.text.toUpper := fun hsame =>
  toLower_encodeKey_ne_toUpper writable_kind k.point (by decide) (k.toLower_text.trans hsame)

end PublicKey

namespace SecretKey

theorem writable_kind : Writable (Text.utf8 SecretKey.kind) :=
  ⟨by decide, by decide, by decide⟩

theorem parse_eq_ok_iff {s : String} {k : SecretKey} :
    SecretKey.parse s = .ok k ↔ decodeKey SecretKey.kind s = .ok k.secret := by
  rw [SecretKey.parse]
  cases decodeKey SecretKey.kind s with
  | error e => exact ⟨nofun, nofun⟩
  | ok block => exact ⟨fun h => by cases h; rfl, fun h => by cases h; rfl⟩

theorem parse_eq_ok_iff_text {s : String} {k : SecretKey} :
    SecretKey.parse s = .ok k ↔ s = k.text.toLower ∨ s = k.text.toUpper :=
  parse_eq_ok_iff.trans (decodeKey_eq_ok_iff_encodeKey writable_kind k.secret)

/-- It is written in capitals. -/
theorem toUpper_text (k : SecretKey) : k.text.toUpper = k.text :=
  (encodeKey_eq_toLower_or_toUpper writable_kind k.secret).symm

/-- A secret key is read back from its text. -/
theorem parse_text (k : SecretKey) : SecretKey.parse k.text = .ok k :=
  parse_eq_ok_iff_text.2 (.inr k.toUpper_text.symm)

theorem text_ne_toLower (k : SecretKey) : k.text ≠ k.text.toLower := fun hsame =>
  toLower_encodeKey_ne_toUpper writable_kind k.secret (by decide)
    (hsame.symm.trans k.toUpper_text.symm)

end SecretKey

/-- No text is read as a key of both kinds: the kinds are not the same up to case. -/
theorem not_parse_both (s : String) (k : PublicKey) (l : SecretKey) :
    ¬ (PublicKey.parse s = .ok k ∧ SecretKey.parse s = .ok l) := by
  rintro ⟨hpublic, hsecret⟩
  have hsame := map_toLower_of_decodeKey (PublicKey.parse_eq_ok_iff.1 hpublic)
    (SecretKey.parse_eq_ok_iff.1 hsecret)
  exact absurd hsame (by decide)

/-- A key is read from its text and from the text in the other case, which is another text, and
from nothing else.  No text is read as a public and as a secret key. -/
theorem key_spellings :
    (∀ (s : String) (b : Block 32), PublicKey.parse s = .ok ⟨b⟩ ↔
        s = (PublicKey.mk b).text ∨ s = (PublicKey.mk b).text.toUpper) ∧
      (∀ (s : String) (b : Block 32), SecretKey.parse s = .ok ⟨b⟩ ↔
        s = (SecretKey.mk b).text ∨ s = (SecretKey.mk b).text.toLower) ∧
      (∀ b : Block 32, (PublicKey.mk b).text ≠ (PublicKey.mk b).text.toUpper ∧
        (SecretKey.mk b).text ≠ (SecretKey.mk b).text.toLower) ∧
      ∀ (s : String) (k : PublicKey) (l : SecretKey),
        ¬ (PublicKey.parse s = .ok k ∧ SecretKey.parse s = .ok l) := by
  refine ⟨fun s b => ?_, fun s b => ?_, fun b => ?_, not_parse_both⟩
  · rw [PublicKey.parse_eq_ok_iff_text, PublicKey.toLower_text]
  · rw [SecretKey.parse_eq_ok_iff_text, SecretKey.toUpper_text, or_comm]
  · exact ⟨PublicKey.text_ne_toUpper ⟨b⟩, SecretKey.text_ne_toLower ⟨b⟩⟩

end AgeCrypt
