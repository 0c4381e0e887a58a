import AgeCrypt.Base64.Standard
import AgeCrypt.Proofs.Keys.Asking

/-!
# The work factors that are asked for

Writing checks a work factor against both ends of its range, wherever it comes from, so every
recipient asks for one derivation at a work factor that is written
(`PassphraseRecipient.Obtained.isWritten`).  Reading checks the ceiling of the identity only: a
stanza is followed at any work factor from 1 up to the ceiling
(`PassphraseIdentity.exists_asked_iff`).  So there is a work factor that is followed and never
written, and another one wherever the ceiling is above the range (`asked_work_factors`).
-/

namespace AgeCrypt

open Crypto

variable {S : Suite} {f : Stretching}

/-! ## Writing -/

namespace PassphraseRecipient

/-- The recipients that can be made, with whatever arguments. -/
inductive Obtained : PassphraseRecipient → Prop where
  | created {passphrase : String} {limits : ScryptLimits} {r : PassphraseRecipient}
      (h : create passphrase limits = .ok r) : Obtained r
  | changed {r r' : PassphraseRecipient} {logN : Nat} (h : Obtained r)
      (hset : r.withWorkFactor logN = .ok r') : Obtained r'

/-- Only work factors that are written can be set. -/
theorem withWorkFactor_eq_ok_iff {r r' : PassphraseRecipient} {logN : Nat} :
    r.withWorkFactor logN = .ok r' ↔
      WorkFactor.isWritten logN = true ∧ r' = { r with workFactor := logN } := by
  unfold withWorkFactor
  constructor
  · intro h
    split at h
    · rename_i hwritten
      cases h
      exact ⟨hwritten, rfl⟩
    · cases h
  · rintro ⟨hwritten, rfl⟩
    rw [if_pos hwritten]

/-- Every way to make a recipient ends with the check. -/
theorem Obtained.isWritten {r : PassphraseRecipient} (h : r.Obtained) :
    WorkFactor.isWritten r.workFactor = true := by
  cases h with
  | created h =>
      unfold create at h
      split at h
      · cases h
      · rcases withWorkFactor_eq_ok_iff.1 h with ⟨hwritten, rfl⟩
        exact hwritten
  | changed _ hset =>
      rcases withWorkFactor_eq_ok_iff.1 hset with ⟨hwritten, rfl⟩
      exact hwritten

/-- Every work factor that is written is one that some recipient has. -/
theorem exists_obtained {n : Nat} (h : WorkFactor.isWritten n = true) :
    ∃ r : PassphraseRecipient, r.Obtained ∧ r.workFactor = n := by
  have hcreated : create "p" { workFactor := n } = .ok ⟨"p", n⟩ := by
    rw [create, if_neg (by decide)]
    exact withWorkFactor_eq_ok_iff.2 ⟨h, rfl⟩
  exact ⟨⟨"p", n⟩, .created hcreated, rfl⟩

/-- Wrapping asks once, at the work factor of the recipient. -/
theorem asked_asking [Base64] (r : PassphraseRecipient) (fileKey : FileKey) (tape : Tape) :
    ∃ q, (r.asking S fileKey tape).asked f = [q] ∧ q.logN = r.workFactor := by
  let q := passphraseDerivation r.passphrase (tape.draw 16).1 r.workFactor
  refine ⟨q, ?_, rfl⟩
  rw [asking, Asking.asked_ask]
  cases f q <;> rfl

end PassphraseRecipient

/-! ## Reading -/

namespace PassphraseIdentity

variable {i : PassphraseIdentity}

/-- The identities that can be made, with whatever arguments: a ceiling is a byte. -/
inductive Obtained : PassphraseIdentity → Prop where
  | created {passphrase : String} {limits : ScryptLimits} {i : PassphraseIdentity}
      (hbyte : limits.maxWorkFactor < 256) (h : create passphrase limits = .ok i) : Obtained i
  | changed {i : PassphraseIdentity} {max : Nat} (h : Obtained i) (hbyte : max < 256) :
      Obtained (i.withMaxWorkFactor max)

theorem Obtained.maxWorkFactor_lt (h : i.Obtained) : i.maxWorkFactor < 256 := by
  cases h with
  | created hbyte h =>
      unfold create at h
      split at h
      · cases h
      · cases h
        exact hbyte
  | changed _ hbyte => exact hbyte

variable [Base64]

/-- A passphrase stanza that is complete and gives `n` as its work factor. -/
def Demands (s : Stanza) (n : Nat) : Prop :=
  s.tag = passphraseTag ∧ s.body.length = fileKeySize + tagSize ∧
    ∃ salt : Block 16, s.args = [Text.ofAscii (Base64.encode salt.bytes), WorkFactor.text n]

def demanding (n : Nat) : Stanza where
  tag := passphraseTag
  args := [Text.ofAscii (Base64.encode (Block.zeros 16).bytes), WorkFactor.text n]
  body := List.replicate (fileKeySize + tagSize) 0

theorem demands_demanding (n : Nat) : Demands (demanding n) n :=
  ⟨rfl, List.length_replicate, _, rfl⟩

/-- A stanza is followed at the work factor that it demands, from 1 to the ceiling. -/
theorem exists_asked_iff (hbyte : i.maxWorkFactor < 256) {s : Stanza} {n : Nat} :
    (∃ q ∈ (i.asking S s).asked f, q.logN = n) ↔
      0 < n ∧ n ≤ i.maxWorkFactor ∧ Demands s n := by
  have hsaturation : 256 ≤ WorkFactor.saturation := by
    decide
  constructor
  · rintro ⟨q, hq, rfl⟩
    rcases asked_asking (S := S) (i := i) (s := s) f with hnone | ⟨q', hrequest, hone⟩
    · rw [hnone] at hq
      cases hq
    · rw [hone, List.mem_singleton] at hq
      subst hq
      rcases request_eq_ok_iff.1 hrequest with ⟨htag, hbody, salt, m, hpos, hargs, hmax, rfl⟩
      -- below the ceiling, which is a byte, nothing saturates
      have hsame : min m WorkFactor.saturation = m := by omega
      rw [hsame] at hmax ⊢
      exact ⟨hpos, hmax, htag, hbody, salt, hargs⟩
  · rintro ⟨hpos, hmax, htag, hbody, salt, hargs⟩
    have hsame : min n WorkFactor.saturation = n := by omega
    have hceiling : min n WorkFactor.saturation ≤ i.maxWorkFactor := by omega
    have hrequest := request_eq_ok_iff.2 ⟨htag, hbody, salt, n, hpos, hargs, hceiling, rfl⟩
    have hasked : (i.asking S s).asked f =
        [passphraseDerivation i.passphrase salt (min n WorkFactor.saturation)] := by
      rw [asking, hrequest]
      rfl
    exact ⟨_, hasked ▸ List.mem_cons_self .., hsame⟩

/-- A stanza asks for nothing that is never written, unless it demands 1, or more than the range has
and not more than the ceiling. -/
theorem asked_isWritten_iff (hbyte : i.maxWorkFactor < 256) {s : Stanza} :
    (∀ q ∈ (i.asking S s).asked f, WorkFactor.isWritten q.logN = true) ↔
      ∀ n, Demands s n → n ≤ i.maxWorkFactor → n ≠ 1 ∧ n ≤ WorkFactor.greatest := by
  constructor
  · intro h n hdemands hmax
    by_cases hpos : 0 < n
    · rcases (exists_asked_iff hbyte).2 ⟨hpos, hmax, hdemands⟩ with ⟨q, hq, rfl⟩
      have hrange := WorkFactor.isWritten_iff.1 (h q hq)
      exact ⟨by omega, hrange.2⟩
    · have hzero : n = 0 := by omega
      subst hzero
      exact ⟨by decide, by decide⟩
  · intro h q hq
    rcases (exists_asked_iff hbyte).1 ⟨q, hq, rfl⟩ with ⟨hpos, hmax, hdemands⟩
    have hrange := h q.logN hdemands hmax
    exact WorkFactor.isWritten_iff.2 ⟨by omega, hrange.2⟩

end PassphraseIdentity

/-- Recipients ask for one derivation each, at the work factors of the range and at no others.
Identities follow a stanza at the work factor it demands, from 1 up to their ceiling, so they ask
for a work factor that is never written exactly at stanzas that demand 1, or more than the range
has; and there are such stanzas for every identity that follows any. -/
theorem asked_work_factors [Base64] (S : Suite) (f : Stretching) :
    (∀ r : PassphraseRecipient, r.Obtained → ∀ fileKey tape,
        (r.asking S fileKey tape).run f = r.wrap (S.stretchingBy f) fileKey tape ∧
          ∃ q, (r.asking S fileKey tape).asked f = [q] ∧ q.logN = r.workFactor ∧
            WorkFactor.isWritten q.logN = true) ∧
      (∀ n, WorkFactor.isWritten n = true ↔
        ∃ r : PassphraseRecipient, r.Obtained ∧ r.workFactor = n) ∧
      ∀ i : PassphraseIdentity, i.Obtained →
        (∀ s, (i.asking S s).run f = i.unwrapStanza (S.stretchingBy f) s) ∧
          (∀ s n, (∃ q ∈ (i.asking S s).asked f, q.logN = n) ↔
            0 < n ∧ n ≤ i.maxWorkFactor ∧ PassphraseIdentity.Demands s n) ∧
          (∀ s, (∀ q ∈ (i.asking S s).asked f, WorkFactor.isWritten q.logN = true) ↔
            ∀ n, PassphraseIdentity.Demands s n → n ≤ i.maxWorkFactor →
              n ≠ 1 ∧ n ≤ WorkFactor.greatest) ∧
          ((∀ s, ∀ q ∈ (i.asking S s).asked f, WorkFactor.isWritten q.logN = true) ↔
            i.maxWorkFactor = 0) := by
  refine ⟨fun r hr fileKey tape => ⟨rfl, ?_⟩, fun n => ⟨?_, ?_⟩, ?_⟩
  · rcases r.asked_asking (S := S) (f := f) fileKey tape with ⟨q, hq, hlogN⟩
    exact ⟨q, hq, hlogN, hlogN ▸ hr.isWritten⟩
  · exact PassphraseRecipient.exists_obtained
  · rintro ⟨r, hr, rfl⟩
    exact hr.isWritten
  · intro i hi
    have hbyte := hi.maxWorkFactor_lt
    refine ⟨fun s => PassphraseIdentity.run_asking f,
      fun s n => PassphraseIdentity.exists_asked_iff hbyte,
      fun s => PassphraseIdentity.asked_isWritten_iff hbyte, fun hall => ?_, fun hzero s => ?_⟩
    · refine Nat.eq_zero_of_not_pos fun hone => ?_
      have hrange := (PassphraseIdentity.asked_isWritten_iff hbyte).1
        (hall (PassphraseIdentity.demanding 1)) 1 (PassphraseIdentity.demands_demanding 1) hone
      exact hrange.1 rfl
    · refine (PassphraseIdentity.asked_isWritten_iff hbyte).2 fun n _ hmax => ?_
      have hn : n = 0 := by omega
      subst hn
      exact ⟨by decide, by decide⟩

/-- A passphrase with the standard ceiling follows a stanza at the work factor 1, and with a higher
ceiling at 31; no recipient writes either. -/
theorem asked_work_factors_outside :
    (∃ q ∈ ((⟨"p", 22⟩ : PassphraseIdentity).asking .standard
        (PassphraseIdentity.demanding 1)).asked Suite.standard.stretching, q.logN = 1) ∧
      (∃ q ∈ ((⟨"p", 40⟩ : PassphraseIdentity).asking .standard
        (PassphraseIdentity.demanding 31)).asked Suite.standard.stretching, q.logN = 31) ∧
      ¬ (∃ r : PassphraseRecipient, r.Obtained ∧ r.workFactor = 1) ∧
      ¬ ∃ r : PassphraseRecipient, r.Obtained ∧ r.workFactor = 31 := by
  have hcreated : PassphraseIdentity.Obtained ⟨"p", 22⟩ := by
    have hmade : PassphraseIdentity.create "p" {} = .ok ⟨"p", 22⟩ := by
      rw [PassphraseIdentity.create, if_neg (by decide)]
    exact .created (by decide) hmade
  have hraised : PassphraseIdentity.Obtained ⟨"p", 40⟩ := .changed hcreated (by decide)
  rcases asked_work_factors .standard Suite.standard.stretching with ⟨-, hwritten, hread⟩
  refine ⟨((hread _ hcreated).2.1 _ _).2 ⟨by decide, by decide, ?_⟩,
    ((hread _ hraised).2.1 _ _).2 ⟨by decide, by decide, ?_⟩, ?_, ?_⟩
  · exact PassphraseIdentity.demands_demanding 1
  · exact PassphraseIdentity.demands_demanding 31
  · rw [← hwritten]
    decide
  · rw [← hwritten]
    decide

end AgeCrypt
