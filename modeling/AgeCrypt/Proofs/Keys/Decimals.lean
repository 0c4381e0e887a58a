import Mathlib.Algebra.Group.Nat.Defs
import AgeCrypt.Proofs.Keys.Ceilings
import AgeCrypt.Proofs.Keys.Wrapping

/-!
# Work factors of any length

A work factor may have any number of digits, and is read as a number of 32 bits.  The texts that are
read are the canonical decimal forms of positive numbers; a number of more than 32 bits is read as
the largest one (`WorkFactor.parse_of_canonical`), every other text is refused
(`WorkFactor.parse_of_not_canonical`).  A ceiling is a byte, so what it decides about the number
that was read, it decides about the number that was written
(`PassphraseIdentity.unwrapStanza_of_canonical`).  Both are put together in
`work_factors_read_exactly`.
-/

namespace AgeCrypt

open Crypto

/-! ## Canonical forms -/

namespace WorkFactor

/-- A text is the canonical decimal form of a positive number: only digits, and no leading zero. -/
structure Canonical (s : String) (v : Nat) : Prop where
  ne_empty : s ≠ ""
  isDigit : ∀ c ∈ s.toList, c.isDigit = true
  head?_ne : s.toList.head? ≠ some '0'
  value : Nat.ofDigitChars 10 s.toList 0 = v

/-- The canonical forms are the texts that numbers are written as. -/
theorem canonical_iff {s : String} {v : Nat} : Canonical s v ↔ 0 < v ∧ s = text v := by
  constructor
  · rintro ⟨hne, hdigits, hzero, hvalue⟩
    have hnonempty : s.toList.map digit ≠ [] := by
      rw [Ne, List.map_eq_nil_iff, String.toList_eq_nil_iff]
      exact hne
    have hhead : (s.toList.map digit).head? ≠ some 48 := by
      rw [List.head?_map]
      intro h
      rcases Option.map_eq_some_iff.1 h with ⟨c, hc, hdigit⟩
      have hnat : c.toNat = 48 := by
        rw [← toNat_digit (hdigits c (List.mem_of_mem_head? hc)), hdigit]
        rfl
      have hchar : c = '0' := Char.toNat_inj.1 hnat
      exact hzero (hchar ▸ hc)
    have hall : ∀ x ∈ s.toList.map digit, Ascii.isDigit x = true := by
      intro x hx
      rcases List.mem_map.1 hx with ⟨c, hc, rfl⟩
      exact isDigit_digit (hdigits c hc)
    rcases toDigits_ofDigits hnonempty hhead hall with ⟨hpos, hspelled⟩
    rw [ofDigits_map_digit hdigits, hvalue] at hpos hspelled
    refine ⟨hpos, ?_⟩
    rw [← Text.utf8_inj, utf8_text, hspelled, ← utf8_ofList_of_isDigit hdigits,
      String.ofList_toList]
  · rintro ⟨hpos, rfl⟩
    have htext : (text v).toList = Nat.toDigits 10 v := String.toList_ofList
    constructor
    · intro hempty
      rw [hempty] at htext
      exact Nat.toDigits_ne_nil htext.symm
    · rw [htext]
      exact fun c hc => isDigit_of_mem_toDigits hc
    · rw [htext]
      exact head?_toDigits_ne hpos
    · rw [htext]
      exact Nat.ofDigitChars_ten_toDigits

/-- Canonical decimals are read as they are, up to the largest number that there is room for. -/
theorem parse_of_canonical {s : String} {v : Nat} (h : Canonical s v) :
    parse s = .ok (min v (2 ^ 32 - 1)) := by
  rcases canonical_iff.1 h with ⟨hpos, rfl⟩
  exact parse_text hpos

/-- A text that is refused is refused for one reason. -/
theorem parse_eq_ok_or (s : String) :
    (∃ v, parse s = .ok v) ∨ parse s = .error .invalidWorkFactor := by
  rw [parse_eq]
  split
  · exact .inr rfl
  · exact .inl ⟨_, rfl⟩

/-- Whatever is not a canonical decimal is refused. -/
theorem parse_of_not_canonical {s : String} (h : ¬ ∃ v, Canonical s v) :
    parse s = .error .invalidWorkFactor := by
  rcases parse_eq_ok_or s with ⟨v, hv⟩ | herror
  · rcases parse_eq_ok_iff.1 hv with ⟨n, hpos, hs, -⟩
    exact absurd ⟨n, canonical_iff.2 ⟨hpos, hs⟩⟩ h
  · exact herror

end WorkFactor

/-! ## Ceilings -/

namespace PassphraseIdentity

variable {S : Suite} {i : PassphraseIdentity} {s : Stanza} {salt : Block 16} {factorText : String}

/-- What becomes of a passphrase stanza once its work factor has been read. -/
def follow (S : Suite) (i : PassphraseIdentity) (s : Stanza) (salt : Block 16) (logN : Nat) :
    Except Refusal FileKey :=
  if i.maxWorkFactor < logN then
    .error (.fatal (.workFactorTooLarge logN i.maxWorkFactor))
  else if s.body.length ≠ fileKeySize + tagSize then
    .error (.fatal .invalidPassphraseStanza)
  else
    settle S s (passphraseWrapping S i.passphrase salt logN)

/-- A stanza is never refused for its work factor once it is followed. -/
theorem settle_ne_workFactorTooLarge {answer : Option (Block 32)} {found max : Nat} :
    settle S s answer ≠ .error (.fatal (.workFactorTooLarge found max)) := by
  unfold settle
  cases answer with
  | none => simp
  | some wrapping =>
      dsimp only
      split <;> simp

/-- The ceiling is exceeded exactly by what is above it. -/
theorem follow_eq_workFactorTooLarge_iff {logN : Nat} :
    (∃ found max, i.follow S s salt logN = .error (.fatal (.workFactorTooLarge found max))) ↔
      i.maxWorkFactor < logN := by
  unfold follow
  constructor
  · rintro ⟨found, max, h⟩
    split at h
    · assumption
    · split at h
      · cases h
      · exact absurd h settle_ne_workFactorTooLarge
  · intro hmax
    exact ⟨_, _, if_pos hmax⟩

/-- A ceiling that is a byte is exceeded by what is read exactly if it is by what is written; below
it, both are the same. -/
theorem lt_saturated_iff (hbyte : i.maxWorkFactor < 256) (v : Nat) :
    (i.maxWorkFactor < min v (2 ^ 32 - 1) ↔ i.maxWorkFactor < v) ∧
      (v ≤ i.maxWorkFactor → min v (2 ^ 32 - 1) = v) := by
  omega

variable [Base64]

/-- With a proper salt all depends on how the work factor is read. -/
theorem unwrapStanza_of_args (htag : s.tag = passphraseTag)
    (hargs : s.args = [Text.ofAscii (Base64.encode salt.bytes), factorText]) :
    i.unwrapStanza S s =
      match WorkFactor.parse factorText with
      | .error e => .error (.fatal e)
      | .ok logN => i.follow S s salt logN := by
  rw [unwrapStanza_eq]
  simp only [request, htag, hargs, salt_eq_some_iff.2 rfl, ne_eq, not_true_eq_false, if_false]
  cases WorkFactor.parse factorText with
  | error cause => rfl
  | ok logN =>
      unfold follow
      by_cases hmax : i.maxWorkFactor < logN
      · simp only [if_pos hmax]
      · by_cases hbody : s.body.length ≠ fileKeySize + tagSize
        · simp only [if_neg hmax, if_pos hbody]
        · simp only [if_neg hmax, if_neg hbody]
          rfl

theorem unwrapStanza_of_canonical {v : Nat} (hcanonical : WorkFactor.Canonical factorText v)
    (htag : s.tag = passphraseTag)
    (hargs : s.args = [Text.ofAscii (Base64.encode salt.bytes), factorText]) :
    i.unwrapStanza S s = i.follow S s salt (min v (2 ^ 32 - 1)) := by
  rw [unwrapStanza_of_args htag hargs, WorkFactor.parse_of_canonical hcanonical]

theorem unwrapStanza_of_not_canonical (hcanonical : ¬ ∃ v, WorkFactor.Canonical factorText v)
    (htag : s.tag = passphraseTag)
    (hargs : s.args = [Text.ofAscii (Base64.encode salt.bytes), factorText]) :
    i.unwrapStanza S s = .error (.fatal .invalidWorkFactor) := by
  rw [unwrapStanza_of_args htag hargs, WorkFactor.parse_of_not_canonical hcanonical]

end PassphraseIdentity

/-! ## Both together -/

/-- A work factor in canonical form, of whatever length, is read as the number that it spells, or as
the largest number of 32 bits where that is less; every other text is refused.  Every positive
number is written in canonical form, and what a recipient writes is read as its work factor.  An
identity whose ceiling is a byte refuses a stanza as asking for too much exactly if the number that
is written there is above the ceiling, and follows any other at that very number. -/
theorem work_factors_read_exactly [Base64] :
    (∀ s v, WorkFactor.Canonical s v →
        0 < v ∧ WorkFactor.parse s = .ok (min v (2 ^ 32 - 1))) ∧
      (∀ s, (¬ ∃ v, WorkFactor.Canonical s v) →
        WorkFactor.parse s = .error .invalidWorkFactor) ∧
      (∀ v, 0 < v → WorkFactor.Canonical (WorkFactor.text v) v) ∧
      (∀ (S : Suite) (r : PassphraseRecipient) (fileKey : FileKey) (tape tape' : Tape)
          (stanzas : List Stanza), r.Obtained → r.wrap S fileKey tape = .ok (stanzas, tape') →
        ∃ s saltText factorText, stanzas = [s] ∧ s.args = [saltText, factorText] ∧
          WorkFactor.parse factorText = .ok r.workFactor) ∧
      ∀ (S : Suite) (i : PassphraseIdentity) (s : Stanza) (salt : Block 16) (factorText : String),
        i.maxWorkFactor < 256 → s.tag = passphraseTag →
        s.args = [Text.ofAscii (Base64.encode salt.bytes), factorText] →
        ((¬ ∃ v, WorkFactor.Canonical factorText v) →
            i.unwrapStanza S s = .error (.fatal .invalidWorkFactor)) ∧
          ∀ v, WorkFactor.Canonical factorText v →
            ((∃ found max,
                i.unwrapStanza S s = .error (.fatal (.workFactorTooLarge found max))) ↔
              i.maxWorkFactor < v) ∧
            (i.maxWorkFactor < v → i.unwrapStanza S s =
              .error (.fatal (.workFactorTooLarge (min v (2 ^ 32 - 1)) i.maxWorkFactor))) ∧
            (v ≤ i.maxWorkFactor → i.unwrapStanza S s =
              if s.body.length ≠ fileKeySize + tagSize then
                .error (.fatal .invalidPassphraseStanza)
              else
                PassphraseIdentity.settle S s (passphraseWrapping S i.passphrase salt v)) := by
  refine ⟨fun s v h => ⟨(WorkFactor.canonical_iff.1 h).1, WorkFactor.parse_of_canonical h⟩,
    fun s => WorkFactor.parse_of_not_canonical,
    fun v hpos => WorkFactor.canonical_iff.2 ⟨hpos, rfl⟩, ?_, ?_⟩
  · intro S r fileKey tape tape' stanzas hr hwrap
    rcases PassphraseRecipient.of_wrap_ok hwrap with ⟨salt, wrapping, -, hstanzas⟩
    exact ⟨_, _, _, hstanzas, rfl, WorkFactor.parse_text_of_isWritten hr.isWritten⟩
  · intro S i s salt factorText hbyte htag hargs
    refine ⟨fun h => PassphraseIdentity.unwrapStanza_of_not_canonical h htag hargs, fun v h => ?_⟩
    rcases PassphraseIdentity.lt_saturated_iff hbyte v with ⟨habove, hsame⟩
    rw [PassphraseIdentity.unwrapStanza_of_canonical h htag hargs]
    refine ⟨PassphraseIdentity.follow_eq_workFactorTooLarge_iff.trans habove, fun hmax => ?_,
      fun hmax => ?_⟩
    · exact if_pos (habove.2 hmax)
    · rw [hsame hmax]
      exact if_neg (Nat.not_lt.2 hmax)

/-- A number that no 32 bits hold is read as the largest one, and refused under the standard
ceiling; with a zero in front it is no work factor at all. -/
theorem work_factors_read_exactly_twenty_digits :
    WorkFactor.parse (WorkFactor.text 99999999999999999999) = .ok 4294967295 ∧
      (⟨"p", 22⟩ : PassphraseIdentity).unwrapStanza .standard
          (PassphraseIdentity.demanding 99999999999999999999) =
        .error (.fatal (.workFactorTooLarge 4294967295 22)) ∧
      WorkFactor.parse (String.ofList ['0', '1', '0']) = .error .invalidWorkFactor := by
  rcases work_factors_read_exactly with ⟨hread, hrefused, hwritten, -, hceiling⟩
  have hlong := hwritten 99999999999999999999 (by decide)
  have hstanza := hceiling .standard ⟨"p", 22⟩
    (PassphraseIdentity.demanding 99999999999999999999) (Block.zeros 16) _ (by decide) rfl rfl
  refine ⟨(hread _ _ hlong).2, ((hstanza.2 _ hlong).2.1 (by decide)), hrefused _ ?_⟩
  rintro ⟨v, hv⟩
  exact hv.head?_ne (by rw [String.toList_ofList]; rfl)

end AgeCrypt
