import AgeCrypt.Proofs.Asking
import AgeCrypt.Proofs.Header.Grammar
import AgeCrypt.Proofs.Keys.WorkFactor
import AgeCrypt.Keys.Passphrase

/-!
# What a passphrase asks for

Stretching a passphrase is as much work as its work factor says, so it matters which derivations are
made, and not only what comes of them.  A stanza that does not pass all checks asks for nothing; one
that does asks once (`PassphraseIdentity.request_eq_ok_iff`).  The stanzas of a header ask one after
the other (`PassphraseIdentity.askingAny`), until one is no mismatch.
-/

namespace AgeCrypt

open Crypto

/-- The suite with another way to stretch passphrases. -/
def Crypto.Suite.stretchingBy (S : Suite) (f : Stretching) : Suite :=
  { S with stretch := fun passphrase salt logN => f ⟨passphrase, salt, logN⟩ }

/-- A search stanza by stanza comes to what the answers to single stanzas come to. -/
theorem run_firstAnswer (f : Stretching) (ask : Stanza → Stretches (Except Refusal FileKey))
    (stanzas : List Stanza) :
    (firstAnswer ask stanzas).run f = Id.run (firstAnswer (fun s => (ask s).run f) stanzas) := by
  induction stanzas with
  | nil => rfl
  | cons s rest ih =>
      have hanswer : Id.run ((ask s).run f) = (ask s).run f := rfl
      rw [firstAnswer, Asking.run_bind, firstAnswer, Id.run_bind, hanswer]
      rcases (ask s).run f with (_ | cause) | key
      · exact ih
      · rfl
      · rfl

namespace PassphraseIdentity

variable [Base64] {S : Suite} {i : PassphraseIdentity} {s : Stanza}

/-- The file key in the first stanza that does not answer a mismatch, by asking. -/
def askingAny (S : Suite) (i : PassphraseIdentity) :
    List Stanza → Stretches (Except Refusal FileKey) :=
  firstAnswer (i.asking S)

/-- A stanza is unwrapped by the derivation that it asks for. -/
theorem unwrapStanza_eq (S : Suite) (i : PassphraseIdentity) (s : Stanza) :
    i.unwrapStanza S s =
      match i.request s with
      | .error refusal => .error refusal
      | .ok q => settle S s (S.stretching q) := by
  rw [unwrapStanza, asking]
  cases i.request s <;> rfl

/-- With answers from `f` a stanza is unwrapped as if passphrases were stretched by `f`. -/
theorem run_asking (f : Stretching) :
    (i.asking S s).run f = i.unwrapStanza (S.stretchingBy f) s := rfl

/-- With answers from `f` stanzas are unwrapped as if passphrases were stretched by `f`. -/
theorem run_askingAny (f : Stretching) (stanzas : List Stanza) :
    (i.askingAny S stanzas).run f = (i.identity (S.stretchingBy f)).unwrap stanzas :=
  run_firstAnswer f _ stanzas

/-- A salt has one spelling. -/
theorem salt_eq_some_iff {text : String} {salt : Block 16} :
    (Base64.decode? (Text.utf8 text)).bind (Block.ofBytes? 16) = some salt ↔
      text = Text.ofAscii (Base64.encode salt.bytes) := by
  constructor
  · intro h
    rcases Option.bind_eq_some_iff.1 h with ⟨bytes, hbytes, hsalt⟩
    rw [← Text.utf8_inj, Stanza.utf8_ofAscii_encode, Block.bytes_of_ofBytes? hsalt,
      Base64.encode_of_decode? hbytes]
  · rintro rfl
    rw [Stanza.utf8_ofAscii_encode, Base64.decode?_encode, Option.bind_some, Block.ofBytes?_bytes]

/-- What a stanza must be to ask for a derivation, and for which one it asks. -/
theorem request_eq_ok_iff {q : Derivation} :
    i.request s = .ok q ↔ s.tag = passphraseTag ∧ s.body.length = fileKeySize + tagSize ∧
      ∃ (salt : Block 16) (n : Nat), 0 < n ∧
        s.args = [Text.ofAscii (Base64.encode salt.bytes), WorkFactor.text n] ∧
        min n WorkFactor.saturation ≤ i.maxWorkFactor ∧
        q = passphraseDerivation i.passphrase salt (min n WorkFactor.saturation) := by
  unfold request
  constructor
  · intro h
    split at h
    · cases h
    rename_i htag
    split at h
    · rename_i saltText factorText hargs
      split at h
      · cases h
      rename_i salt hsalt
      split at h
      · cases h
      rename_i logN hparse
      split at h
      · cases h
      rename_i hmax
      split at h
      · cases h
      rename_i hbody
      cases h
      rcases WorkFactor.parse_eq_ok_iff.1 hparse with ⟨n, hpos, rfl, rfl⟩
      rw [salt_eq_some_iff.1 hsalt] at hargs
      exact ⟨Decidable.not_not.1 htag, Decidable.not_not.1 hbody, salt, n, hpos, hargs,
        Nat.not_lt.1 hmax, rfl⟩
    · cases h
  · rintro ⟨htag, hbody, salt, n, hpos, hargs, hmax, rfl⟩
    simp only [htag, hargs, salt_eq_some_iff.2 rfl, WorkFactor.parse_text hpos, hbody,
      Nat.not_lt.2 hmax, ne_eq, not_true_eq_false, if_false]

/-- A stanza asks for the derivation that it requests, or for none. -/
theorem asked_asking (f : Stretching) :
    (i.asking S s).asked f = [] ∨ ∃ q, i.request s = .ok q ∧ (i.asking S s).asked f = [q] := by
  unfold asking
  cases hrequest : i.request s with
  | error refusal => exact .inl rfl
  | ok q => exact .inr ⟨q, rfl, rfl⟩

/-- The first stanza is asked for first, and others at most after it. -/
theorem asked_askingAny_cons (f : Stretching) (s : Stanza) (rest : List Stanza) :
    (i.askingAny S (s :: rest)).asked f = (i.asking S s).asked f ∨
      (i.askingAny S (s :: rest)).asked f =
        (i.asking S s).asked f ++ (i.askingAny S rest).asked f := by
  rw [askingAny, firstAnswer, Asking.asked_bind]
  split
  · exact .inr rfl
  · exact .inl (List.append_nil _)

/-- Stanzas of other types ask for nothing. -/
theorem asked_askingAny_of_other (f : Stretching) {stanzas : List Stanza}
    (hother : ∀ s ∈ stanzas, s.tag ≠ passphraseTag) : (i.askingAny S stanzas).asked f = [] := by
  induction stanzas with
  | nil => rfl
  | cons s rest ih =>
      have hs : (i.asking S s).asked f = [] := by
        rcases asked_asking (S := S) (i := i) (s := s) f with hnone | ⟨q, hq, -⟩
        · exact hnone
        · exact absurd (request_eq_ok_iff.1 hq).1 (hother s (List.mem_cons_self ..))
      have hrest := ih fun r hr => hother r (List.mem_cons_of_mem _ hr)
      rcases asked_askingAny_cons (S := S) (i := i) f s rest with h | h
      · rw [h, hs]
      · rw [h, hs, hrest, List.append_nil]

/-- Where passphrase stanzas have no company, a passphrase asks once, if at all. -/
theorem asked_askingAny (f : Stretching) {stanzas : List Stanza}
    (halone : ∀ s ∈ stanzas, s.tag = passphraseTag → stanzas = [s]) :
    (i.askingAny S stanzas).asked f = [] ∨
      ∃ s q, stanzas = [s] ∧ i.request s = .ok q ∧ (i.askingAny S stanzas).asked f = [q] := by
  by_cases hother : ∀ s ∈ stanzas, s.tag ≠ passphraseTag
  · exact .inl (asked_askingAny_of_other f hother)
  · have hsome : ∃ s ∈ stanzas, s.tag = passphraseTag := by
      simpa using hother
    rcases hsome with ⟨s, hs, htag⟩
    have hsingle := halone s hs htag
    subst hsingle
    have hasked : (i.askingAny S [s]).asked f = (i.asking S s).asked f := by
      rcases asked_askingAny_cons (S := S) (i := i) f s [] with h | h
      · exact h
      · rw [h]
        exact List.append_nil _
    rw [hasked]
    rcases asked_asking (S := S) (i := i) (s := s) f with hnone | ⟨q, hq, hone⟩
    · exact .inl hnone
    · exact .inr ⟨s, q, rfl, hq, hone⟩

end PassphraseIdentity
end AgeCrypt
