import AgeCrypt.Io.Sink

/-!
# Output files

A file that is being written.  What is written is gathered and reaches the file a good piece at a
time, so for a while the file holds less than was written.
-/

namespace AgeCrypt

structure OutputFile where
  -- Everything that was written.
  written : Array UInt8 := #[]
  -- How much of it has reached the file.
  stored : Nat := 0

namespace OutputFile

def capacity : Nat := 8192

def contents (f : OutputFile) : Bytes :=
  f.written.toList.take f.stored

/-- Write all of `b`.  If it does not fit beside what is gathered, that is stored first; what is too
large to be gathered is stored at once. -/
def write (f : OutputFile) (b : Bytes) : OutputFile :=
  let gathered := f.written.size - f.stored
  let all := f.written ++ b
  if capacity ≤ b.length then { written := all, stored := all.size }
  else if capacity < gathered + b.length then { written := all, stored := f.written.size }
  else { written := all, stored := f.stored }

instance : ByteSink OutputFile where
  write f b := (.ok b.length, f.write b)
  flush f := (.ok (), { f with stored := f.written.size })
  patience _ := 0
  taken_le := by
    intro t b n u h
    cases h
    exact Nat.le_refl _
  patience_of_ok := by
    intro t b n u _
    exact Nat.le_refl _
  patience_of_interrupted := by
    intro t b e u h
    cases h

end OutputFile

end AgeCrypt
