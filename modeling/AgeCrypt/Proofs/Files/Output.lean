import AgeCrypt.Files.Output
import AgeCrypt.Proofs.Io.Intake

/-!
# What an output file holds

An output file takes all that is written and never fails, so in the end it holds everything
(`steady`, and the instance of `HoldingSink`).  What has reached the file in the meantime is
another matter: as long as all that is written fits beside what is gathered, nothing has
(`taking_gathering`).
-/

namespace AgeCrypt
namespace OutputFile

open ByteSink

/-- Every write is remembered in full, stored or not. -/
theorem written_write (f : OutputFile) (b : Bytes) : (f.write b).written = f.written ++ b := by
  unfold write
  dsimp only
  split
  · rfl
  · split <;> rfl

instance : HoldingSink OutputFile where
  contents f := f.written.toList
  contents_of_ok := by
    intro f b n g h
    cases h
    rw [written_write, Array.toList_appendList, List.take_length]
  contents_of_error := by
    intro f b e g h
    cases h
  contents_flush := fun f => rfl

theorem contents_eq (f : OutputFile) : HoldingSink.contents f = f.written.toList := rfl

/-- A buffered file takes whatever it is offered. -/
theorem steady : Steady (fun _ : OutputFile => True) where
  accepted := fun _ _ => .taken List.length_pos_iff.2 trivial
  flush_ok := fun {f} _ => ⟨{ f with stored := f.written.size }, rfl, trivial⟩

/-- Nothing has reached the file, nor will while only `rest` is written. -/
structure Gathering (f : OutputFile) (rest : Bytes) : Prop where
  stored_eq : f.stored = 0
  fits : f.written.size + rest.length < capacity

/-- Until the buffer runs over, nothing is stored. -/
theorem Gathering.contents_eq {f : OutputFile} {rest : Bytes} (h : f.Gathering rest) :
    f.contents = [] := by
  rw [contents, h.stored_eq, List.take_zero]

/-- Writes only gather.  A flush would not. -/
theorem taking_gathering : Taking Gathering (fun _ => True) where
  safe_of_awaits := fun _ => trivial
  offered := by
    intro f b more h
    have hfits := h.fits
    rw [List.length_append] at hfits
    have hlarge : ¬ capacity ≤ b.length := by
      omega
    have hfull : ¬ capacity < f.written.size - f.stored + b.length := by
      omega
    have hwrite : f.write b = { written := f.written ++ b, stored := f.stored } := by
      simp only [OutputFile.write, if_neg hlarge, if_neg hfull]
    change Offered _ _ _ _ (.ok b.length, f.write b)
    rw [hwrite]
    refine .taken ⟨h.stored_eq, ?_⟩
    rw [List.drop_length, List.nil_append, Bytes.size_append]
    omega

end OutputFile
end AgeCrypt
