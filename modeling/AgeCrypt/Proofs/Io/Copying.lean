import AgeCrypt.Proofs.Io.Delivery
import AgeCrypt.Proofs.Io.Intake

/-!
# Copying

Moving all that a source has to a sink, a portion at a time.  A sink that does not fail is given all
that the source has before it fails, and the copying fails just if the source does
(`copy_of_giving`).
-/

namespace AgeCrypt
namespace ByteSink

open ByteSource

variable {σ τ : Type} [ByteSource σ] [ByteSink τ]

theorem portionSize_ne_zero : portionSize ≠ 0 := by
  decide

def copied (ending : Option IoError) : Except IoError Unit :=
  ending.elim (.ok ()) .error

/-- A sink that does not fail is given all that the source has, and the error of the source is that
of the copying. -/
theorem copy_of_giving {gives : σ → Bytes → Prop} {broken : σ → Prop} {ending : Option IoError}
    (G : Giving gives broken ending) {awaits : τ → Bytes → Prop} {safe stays : τ → Prop}
    (hsteady : Steady stays) (I : Taking awaits safe) {s : σ} {t : τ} {data more : Bytes}
    (hs : gives s data) (hstays : stays t) (ht : awaits t (data ++ more)) :
    ∃ s' u, copy s t = (copied ending, s', u) ∧ stays u ∧ awaits u more := by
  -- portion by portion; what the source has left and what the sink awaits stay the same
  fun_induction copy s t generalizing data with
  | case1 s t s' hread =>
      rcases (G.of_read_ok hs hread).1 rfl with hzero | ⟨hnil, hnone⟩
      · exact absurd hzero portionSize_ne_zero
      · rw [hnil, List.nil_append] at ht
        rw [hnone]
        exact ⟨s', t, rfl, hstays, ht⟩
  | case2 s t x b s' hread u hwrite ih =>
      rcases G.of_read_ok hs hread with ⟨-, rest, rfl, hrest⟩
      rw [List.append_assoc] at ht
      have hgiven := I.writeAll ht
      rw [hwrite] at hgiven
      rcases hsteady.writeAll hstays (x :: b) with ⟨v, hv, hkept⟩
      cases hwrite.symm.trans hv
      exact ih hrest hkept hgiven.of_ok
  | case3 s t x b s' hread e u hwrite =>
      rcases hsteady.writeAll hstays (x :: b) with ⟨v, hv, -⟩
      cases hwrite.symm.trans hv
  | case4 s t e s' hread hi ih =>
      rcases G.of_read_error hs hread with ⟨-, hrest⟩ | ⟨hno, -⟩
      · exact ih hrest hstays ht
      · cases hi.symm.trans hno
  | case5 s t e s' hread hi =>
      rcases G.of_read_error hs hread with ⟨hyes, -⟩ | ⟨-, hnil, hsome, -⟩
      · exact absurd hyes hi
      · rw [hnil, List.nil_append] at ht
        rw [hsome]
        exact ⟨s', t, rfl, hstays, ht⟩

/-- So a sink that does not fail is given all that is delivered. -/
theorem copy_of_taking {awaits : τ → Bytes → Prop} {safe stays : τ → Prop} (hsteady : Steady stays)
    (I : Taking awaits safe) {s : σ} {t : τ} {data more : Bytes} (hs : Delivers s data)
    (hstays : stays t) (ht : awaits t (data ++ more)) :
    ∃ s' u, copy s t = (.ok (), s', u) ∧ stays u ∧ awaits u more :=
  copy_of_giving (Delivers.giving none) hsteady I hs hstays ht

/-- And a holding one holds it in the end, behind what it held before. -/
theorem copy_to_holding [HoldingSink τ] {gives : σ → Bytes → Prop} {broken : σ → Prop}
    {ending : Option IoError} (G : Giving gives broken ending) {stays : τ → Prop}
    (hsteady : Steady stays) {s : σ} {t : τ} {data : Bytes} (hs : gives s data) (ht : stays t) :
    ∃ s' u, copy s t = (copied ending, s', u) ∧
      HoldingSink.contents u = HoldingSink.contents t ++ data := by
  have hintake := HoldingSink.intake (τ := τ) (HoldingSink.contents t ++ data)
  have hawaited : HoldingSink.contents t ++ (data ++ []) = HoldingSink.contents t ++ data := by
    rw [List.append_nil]
  rcases copy_of_giving G hsteady hintake.toTaking hs ht hawaited with ⟨s', u, hcopy, -, hcontents⟩
  exact ⟨s', u, hcopy, by simpa using hcontents⟩

end ByteSink
end AgeCrypt
