import AgeCrypt.Proofs.Io.Intake

/-!
# Calls on a sink

Whoever writes to a sink may make single writes, writes of all there is, and flushes, in any order
(`Call`).  What calls bring is put together by `broughtBy`, and what they are told was taken by
`acceptedBy`.

A sink that does not fail and whose writes take all that they are offered takes all that any calls
bring, and awaits then what is to come after them (`performEach_of_steady`).
-/

namespace AgeCrypt
namespace ByteSink

/-- A call that is made on a sink. -/
inductive Call where
  | write (b : Bytes)
  | writeAll (b : Bytes)
  | flush
deriving DecidableEq, Repr

def Call.bytes : Call → Bytes
  | write b => b
  | writeAll b => b
  | flush => []

/-- The bytes that a call was told were taken. -/
def Call.accepted (call : Call) : Except IoError Nat → Bytes
  | .ok n => call.bytes.take n
  | .error _ => []

/-- The bytes that calls were told were taken, in their order. -/
def acceptedBy (calls : List Call) (answers : List (Except IoError Nat)) : Bytes :=
  (List.zipWith Call.accepted calls answers).flatten

def Call.isRefused : Call → Except IoError Nat → Bool
  | flush, _ => false
  | _, .ok _ => false
  | _, .error _ => true

/-- How many writes are answered with an error. -/
def refusals (calls : List Call) (answers : List (Except IoError Nat)) : Nat :=
  (List.zipWith Call.isRefused calls answers).count true

theorem refusals_cons (call : Call) (calls : List Call) (answer : Except IoError Nat)
    (answers : List (Except IoError Nat)) :
    refusals (call :: calls) (answer :: answers) =
      (call.isRefused answer).toNat + refusals calls answers := by
  rw [refusals, List.zipWith_cons_cons, List.count_cons, Nat.add_comm, refusals]
  cases call.isRefused answer <;> rfl

variable {τ : Type} [ByteSink τ]

def broughtBy (calls : List Call) : Bytes :=
  calls.flatMap Call.bytes

def perform (t : τ) : Call → Except IoError Nat × τ
  | .write b => ByteSink.write t b
  | .writeAll b =>
      match ByteSink.writeAll t b with
      | (.ok (), u) => (.ok b.length, u)
      | (.error e, u) => (.error e, u)
  | .flush =>
      match ByteSink.flush t with
      | (.ok (), u) => (.ok 0, u)
      | (.error e, u) => (.error e, u)

/-- Make one call after another; errors do not stop them. -/
def performEach (t : τ) : List Call → List (Except IoError Nat) × τ
  | [] => ([], t)
  | call :: calls =>
      let (r, u) := perform t call
      let (rs, v) := performEach u calls
      (r :: rs, v)

theorem broughtBy_append (a b : List Call) : broughtBy (a ++ b) = broughtBy a ++ broughtBy b :=
  List.flatMap_append

section

variable {stays : τ → Prop} {awaits : τ → Bytes → Prop} {safe : τ → Prop}

/-- A call takes all that it brings, and what is to come after it is still to come. -/
theorem perform_of_steady (hsteady : Steady stays) (I : Intake awaits safe)
    (htakes : ∀ {t : τ}, stays t → ∀ b, ∃ u, ByteSink.write t b = (.ok b.length, u) ∧ stays u)
    {t : τ} (hstays : stays t) {call : Call} {more : Bytes} (h : awaits t (call.bytes ++ more)) :
    ∃ u, perform t call = (.ok call.bytes.length, u) ∧ stays u ∧ awaits u more := by
  cases call with
  | write b =>
      rcases htakes hstays b with ⟨u, hu, hafter⟩
      have hoffered := I.offered (t := t) (b := b) h
      rw [hu] at hoffered
      cases hoffered with
      | taken hkept =>
          rw [List.drop_length] at hkept
          exact ⟨u, hu, hafter, hkept⟩
  | writeAll b =>
      rcases hsteady.writeAll hstays b with ⟨u, hu, hafter⟩
      have hgiven := I.writeAll (t := t) (b := b) h
      rw [hu] at hgiven
      refine ⟨u, ?_, hafter, hgiven.of_ok⟩
      simp only [perform, hu, Call.bytes]
  | flush =>
      rcases hsteady.flush_ok hstays with ⟨u, hu, hafter⟩
      have hflushed := I.awaits_flush h
      rw [hu] at hflushed
      refine ⟨u, ?_, hafter, hflushed⟩
      simp only [perform, hu]
      rfl

/-- Every call of a run takes all that it brings. -/
theorem performEach_of_steady (hsteady : Steady stays) (I : Intake awaits safe)
    (htakes : ∀ {t : τ}, stays t → ∀ b, ∃ u, ByteSink.write t b = (.ok b.length, u) ∧ stays u)
    {t : τ} (hstays : stays t) {calls : List Call} {more : Bytes}
    (h : awaits t (broughtBy calls ++ more)) :
    ∃ u, performEach t calls = (calls.map fun call => .ok call.bytes.length, u) ∧ stays u ∧
      awaits u more := by
  induction calls generalizing t with
  | nil => exact ⟨t, rfl, hstays, h⟩
  | cons call calls ih =>
      rw [broughtBy, List.flatMap_cons, List.append_assoc] at h
      rcases perform_of_steady hsteady I htakes hstays h with ⟨u, hu, hafter, hkept⟩
      rcases ih hafter hkept with ⟨v, hv, hlater⟩
      refine ⟨v, ?_, hlater⟩
      simp only [performEach, hu, hv, List.map_cons]

end

end ByteSink
end AgeCrypt
