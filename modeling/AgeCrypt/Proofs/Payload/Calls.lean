import AgeCrypt.Proofs.Io.Calls
import AgeCrypt.Proofs.Payload.Canonical

/-!
# Calls of a payload writer

Over a sink that does not fail, nothing of the calls that write a payload shows in what a payload
writer leaves: every call takes all that it brings (`performEach_of_ready`), and what is there in
the end is the sealed form of what they brought together (`contents_of_calls`).

One call keeps both that the writer has not failed (`Ready`) and what it is still to be given
(`Sealing`).
-/

namespace AgeCrypt
namespace Payload

open Crypto

variable {S : Suite} {key : Block 32}

/-- Every chunk adds a tag, and there is one for each 64 KiB begun, at least one. -/
theorem length_sealFrom (counter : Nat) (plaintext : Bytes) :
    (sealFrom S key counter plaintext).length =
      plaintext.length + tagSize * max 1 ((plaintext.length + (chunkSize - 1)) / chunkSize) := by
  fun_induction sealFrom S key counter plaintext with
  | case1 counter plaintext hlen =>
      have hone : (plaintext.length + (chunkSize - 1)) / chunkSize ≤ 1 := by
        rw [Nat.div_le_iff_le_mul_add_pred (by decide)]
        omega
      rw [S.length_encrypt, Nat.max_eq_left hone, Nat.mul_one]
  | case2 counter plaintext hlen ih =>
      let rest := plaintext.length - chunkSize
      have hsize : 0 < chunkSize := by
        decide
      have hsplit : plaintext.length = rest + chunkSize := by
        omega
      have hmore : (plaintext.length + (chunkSize - 1)) / chunkSize =
          (rest + (chunkSize - 1)) / chunkSize + 1 := by
        rw [hsplit, Nat.add_right_comm, Nat.add_div_right _ hsize]
      have hfirst : 1 ≤ (rest + (chunkSize - 1)) / chunkSize := by
        rw [Nat.le_div_iff_mul_le hsize]
        omega
      have hlast : (plaintext.drop chunkSize).length = rest := List.length_drop
      calc
        (S.encrypt key (nonce counter false) (plaintext.take chunkSize)
              ++ sealFrom S key (counter + 1) (plaintext.drop chunkSize)).length
            = chunkSize + tagSize
                + (rest + tagSize * max 1 ((rest + (chunkSize - 1)) / chunkSize)) := by
          rw [List.length_append, S.length_encrypt, ih, hlast,
            List.length_take_of_le (Nat.le_of_not_le hlen)]
        _ = plaintext.length
              + tagSize * max 1 ((plaintext.length + (chunkSize - 1)) / chunkSize) := by
          rw [hmore, Nat.max_eq_right hfirst, Nat.max_eq_right (Nat.le_add_left 1 _), Nat.mul_add]
          omega

end Payload

namespace PayloadWriter

open Crypto Payload ByteSink HoldingSink

variable {S : Suite} {τ : Type} [ByteSink τ]

section

variable {stays : τ → Prop} {awaits : τ → Bytes → Prop} {safe : τ → Prop}

/-- Every call of a run takes all that it brings. -/
theorem performEach_of_ready (hsteady : Steady stays) (I : Intake awaits safe)
    {w : PayloadWriter S τ} (hready : w.Ready stays) {calls : List Call} {more : Bytes}
    (h : Sealing awaits safe w (broughtBy calls ++ more)) :
    ∃ v, performEach w calls = (calls.map fun call => .ok call.bytes.length, v) ∧ v.Ready stays ∧
      Sealing awaits safe v more :=
  performEach_of_steady (steady hsteady) (Sealing.intake I) (write_of_ready hsteady) hready h

end

/-- Whatever the calls, a payload writer over a sink that does not fail takes all that they bring,
and leaves the one sealed form of that. -/
theorem contents_of_calls {S : Suite} {τ : Type} [ByteSink τ] [HoldingSink τ] {sink : τ}
    (hsink : Unfailing sink) (key : Block 32) (calls : List Call) :
    ∃ w t, performEach (start S key sink) calls =
        (calls.map fun call => .ok call.bytes.length, w) ∧
      w.finish = (.ok (), t) ∧
      contents t = contents sink ++ sealAll S key (broughtBy calls) ∧
      SealedAs S key (broughtBy calls) (sealAll S key (broughtBy calls)) ∧
      (sealAll S key (broughtBy calls)).length =
        (broughtBy calls).length
          + tagSize * max 1 (((broughtBy calls).length + (chunkSize - 1)) / chunkSize) := by
  let whole := contents sink ++ sealAll S key (broughtBy calls)
  have hready : (start S key sink).Ready Unfailing := ⟨rfl, hsink⟩
  have hstart : Sealing (fun (t : τ) rest => contents t ++ rest = whole)
      (fun t => contents t <+: whole) (start S key sink) (broughtBy calls ++ []) := by
    rw [List.append_nil]
    exact .start rfl
  rcases performEach_of_ready steady_unfailing (HoldingSink.intake whole) hready hstart with
    ⟨w, hw, hwritten, hsealing⟩
  rcases hwritten.finish steady_unfailing with ⟨t, ht, -⟩
  have hgiven := hsealing.finish (HoldingSink.intake whole)
  rw [ht] at hgiven
  refine ⟨w, t, hw, ht, ?_, sealedAs_iff.2 rfl, length_sealFrom 0 _⟩
  simpa using hgiven.of_ok

/-- Five bytes in uneven calls, one of them of nothing, over a sink that takes a byte at a time. -/
theorem contents_of_calls_five_bytes :
    ∃ w t, performEach (start .transparent (Block.zeros 32) ({ portion := some 1 } : ScriptedSink))
        [.write [1, 2], .flush, .write [], .writeAll [3], .flush, .write [4, 5]] =
        ([.ok 2, .ok 0, .ok 0, .ok 1, .ok 0, .ok 2], w) ∧
      w.finish = (.ok (), t) ∧
      t.contents.toList =
        Suite.transparent.encrypt (Block.zeros 32) (nonce 0 true) [1, 2, 3, 4, 5] := by
  have hsink : Unfailing ({ portion := some 1 } : ScriptedSink) :=
    ScriptedSink.unfailing (by decide) rfl rfl
  rcases contents_of_calls (S := .transparent) hsink (Block.zeros 32)
    [.write [1, 2], .flush, .write [], .writeAll [3], .flush, .write [4, 5]] with
    ⟨w, t, hw, ht, hcontents, -, -⟩
  refine ⟨w, t, hw, ht, hcontents.trans ?_⟩
  change [] ++ sealFrom _ _ 0 [1, 2, 3, 4, 5] = _
  rw [List.nil_append, sealFrom, if_pos (by decide)]

end PayloadWriter
end AgeCrypt
