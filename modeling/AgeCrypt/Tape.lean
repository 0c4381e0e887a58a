import AgeCrypt.Bytes

/-!
# Random tapes

All randomness of an operation is drawn from one tape, front to back, so an operation is a function
of its tape.
-/

namespace AgeCrypt

/-- An endless run of random bytes, read up to a position. -/
structure Tape where
  byte : Nat → UInt8
  -- How many have been drawn.
  position : Nat := 0

namespace Tape

/-- The tape that repeats `seed`; all zeros if there is nothing to repeat. -/
def cycle (seed : Bytes) : Tape :=
  let a := seed.toArray
  { byte := fun i => a.getD (i % a.size) 0 }

def draw (n : Nat) (t : Tape) : Block n × Tape :=
  (⟨(List.range n).map fun i => t.byte (t.position + i), by simp⟩,
    { t with position := t.position + n })

end Tape

end AgeCrypt
