import AgeCrypt.Base64.Standard
import AgeCrypt.Proofs.Armor.Writing
import AgeCrypt.Proofs.Io.Calls

/-!
# Calls of an armor writer

The lines of an armored text stand for the runs of 48 bytes from the front, and for what is left
(`text_eq_of_div`).

Over a sink that does not fail an armor writer takes all that any calls bring, leaves the armored
text of what they brought together, and never holds back what fills a line (`text_of_calls`).
-/

namespace AgeCrypt

/-- The runs that bytes are cut into, by their number, and what is left behind the full ones. -/
theorem Bytes.chunks_eq_of_div {size : Nat} (hsize : 0 < size) (b : Bytes) :
    b.chunks size =
      (List.range (b.length / size)).map (fun i => (b.drop (size * i)).take size)
        ++ if b.length % size = 0 then [] else [b.drop (size * (b.length / size))] := by
  fun_induction Bytes.chunks size b with
  | case1 b hstop =>
      have hnil : b = [] := hstop.resolve_right (Nat.ne_of_gt hsize)
      subst hnil
      simp
  | case2 b hgo ih =>
      by_cases hfull : size ≤ b.length
      · -- the runs behind the first are those of what is left of it
        have hdiv : b.length / size = (b.drop size).length / size + 1 := by
          rw [List.length_drop, ← Nat.div_eq_sub_div hsize hfull]
        have hmod : b.length % size = (b.drop size).length % size := by
          rw [List.length_drop, Nat.mod_eq_sub_mod hfull]
        have hdrop : ∀ i, (b.drop size).drop (size * i) = b.drop (size * (i + 1)) := by
          intro i
          rw [List.drop_drop, Nat.mul_succ, Nat.add_comm]
        rw [ih, hdiv, hmod, List.range_succ_eq_map, List.map_cons, List.map_map, List.cons_append]
        simp only [hdrop, Function.comp_def, Nat.succ_eq_add_one, Nat.mul_zero, List.drop_zero]
      · have hshort : b.length < size := Nat.lt_of_not_le hfull
        have hne : b.length ≠ 0 := by
          intro hzero
          exact hgo (.inl (List.length_eq_zero_iff.1 hzero))
        rw [List.drop_of_length_le (Nat.le_of_lt hshort), Bytes.chunks, if_pos (.inl rfl),
          Nat.div_eq_of_lt hshort, Nat.mod_eq_of_lt hshort, if_neg hne,
          List.take_of_length_le (Nat.le_of_lt hshort)]
        rfl

namespace Armor

/-- An armored text, run by run. -/
theorem text_eq_of_div [Base64] (file : Bytes) :
    text file = beginMarker ++ [Ascii.newline]
      ++ (List.range (file.length / 48)).flatMap
          (fun i => dataLine ((file.drop (48 * i)).take 48))
      ++ (if file.length % 48 = 0 then [] else dataLine (file.drop (48 * (file.length / 48))))
      ++ endMarker ++ [Ascii.newline] := by
  have hchunks : file.chunks 48 = _ := Bytes.chunks_eq_of_div (by decide) file
  rw [text, bytesPerLine, hchunks, List.flatMap_append, List.flatMap_map]
  by_cases hlast : file.length % 48 = 0
  · simp only [if_pos hlast, List.flatMap_nil, List.append_nil, List.append_assoc]
  · simp only [if_neg hlast, List.flatMap_cons, List.flatMap_nil, List.append_nil,
      List.append_assoc]

end Armor

namespace ArmorWriter

open Armor ByteSink HoldingSink

section

variable [Base64] {τ : Type} [ByteSink τ]
variable {stays : τ → Prop} {awaits : τ → Bytes → Prop} {safe : τ → Prop}

/-- Every call of a run takes all that it brings. -/
theorem performEach_of_armoring (hsteady : Steady stays) (I : Intake awaits safe)
    {w : ArmorWriter τ} (hstays : stays w.inner) {calls : List Call} {more : Bytes}
    (h : Armoring awaits w (broughtBy calls ++ more)) :
    ∃ v, performEach w calls = (calls.map fun call => .ok call.bytes.length, v) ∧
      stays v.inner ∧ Armoring awaits v more :=
  performEach_of_steady (steady hsteady) (Armoring.intake I) (write_of_steady hsteady) hstays h

/-- Whatever calls were made, less than a line is held back. -/
theorem length_pending_of_armoring (hsteady : Steady stays) (I : Intake awaits safe)
    {w : ArmorWriter τ} (hstays : stays w.inner) {calls : List Call}
    (h : Armoring awaits w (broughtBy calls)) (n : Nat) :
    (performEach w (calls.take n)).2.pending.length < bytesPerLine := by
  rw [← List.take_append_drop n calls, broughtBy_append] at h
  rcases performEach_of_armoring hsteady I hstays h with ⟨v, hv, -, harmoring⟩
  rw [hv]
  exact harmoring.length_lt

end

/-- What an armor writer leaves depends only on what its calls bring together.  Over a sink that
does not fail, however little of each write it takes, every call takes all that it brings, and in
the end there stand the begin marker, a line of 64 columns for each run of 48 bytes, a line for the
bytes that are left, which are fewer, if there are any, and the end marker.  After the start and
after every call fewer than 48 bytes are held back. -/
theorem text_of_calls [Base64] {τ : Type} [ByteSink τ] [HoldingSink τ] {sink : τ}
    (hsink : Unfailing sink) (calls : List Call) :
    let file := broughtBy calls
    ∃ w v t, start sink = .ok w ∧
      performEach w calls = (calls.map fun call => .ok call.bytes.length, v) ∧
      v.finish = (.ok (), t) ∧
      contents t = contents sink ++ (beginMarker ++ [Ascii.newline]
        ++ (List.range (file.length / 48)).flatMap
            (fun i => Base64.encodePadded ((file.drop (48 * i)).take 48) ++ [Ascii.newline])
        ++ (if file.length % 48 = 0 then []
            else Base64.encodePadded (file.drop (48 * (file.length / 48))) ++ [Ascii.newline])
        ++ endMarker ++ [Ascii.newline]) ∧
      (∀ i < file.length / 48, (Base64.encodePadded ((file.drop (48 * i)).take 48)).length = 64) ∧
      (file.drop (48 * (file.length / 48))).length < 48 ∧
      ∀ n, (performEach w (calls.take n)).2.pending.length < 48 := by
  intro file
  let whole := contents sink ++ text file
  have I := HoldingSink.intake (τ := τ) whole
  rcases start_of_taking steady_unfailing I.toTaking hsink rfl with
    ⟨w, hw, hstarted, harmoring⟩
  have hrun : Armoring (fun (t : τ) rest => contents t ++ rest = whole) w
      (broughtBy calls ++ []) := by
    rw [List.append_nil]
    exact harmoring
  rcases performEach_of_armoring steady_unfailing I hstarted hrun with ⟨v, hv, hstays, hended⟩
  rcases finish_of_steady steady_unfailing hstays with ⟨t, ht, -⟩
  have hgiven := hended.finish I
  rw [ht] at hgiven
  have hcontents : contents t = contents sink ++ text file := by
    simpa using hgiven.of_ok
  rw [text_eq_of_div] at hcontents
  refine ⟨w, v, t, hw, hv, ht, hcontents, ?_, ?_, fun n =>
    length_pending_of_armoring steady_unfailing I hstarted harmoring n⟩
  · intro i hi
    have hfull : ((file.drop (48 * i)).take 48).length = 48 := by
      rw [List.length_take, List.length_drop]
      omega
    rw [Base64.length_encodePadded, hfull]
  · rw [List.length_drop]
    omega

/-- Fifty bytes in uneven calls, the second of which fills a line, over a sink that takes a byte at
a time. -/
theorem text_of_calls_fifty_bytes :
    ∃ w v t, start ({ portion := some 1 } : ScriptedSink) = .ok w ∧
      performEach w [.write (List.replicate 47 7), .writeAll [7, 8], .flush, .write [9]] =
        ([.ok 47, .ok 2, .ok 0, .ok 1], v) ∧
      v.finish = (.ok (), t) ∧
      t.contents.toList = beginMarker ++ [Ascii.newline] ++ dataLine (List.replicate 48 7)
        ++ dataLine [8, 9] ++ endMarker ++ [Ascii.newline] := by
  have hsink : Unfailing ({ portion := some 1 } : ScriptedSink) :=
    ScriptedSink.unfailing (by decide) rfl rfl
  rcases text_of_calls hsink
    [.write (List.replicate 47 7), .writeAll [7, 8], .flush, .write [9]] with
    ⟨w, v, t, hw, hv, ht, hcontents, -, -, -⟩
  exact ⟨w, v, t, hw, hv, ht, hcontents⟩

end ArmorWriter
end AgeCrypt
