import AgeCrypt.Io.Sink

/-!
# Scripted devices

Sources and sinks whose behaviour is laid down in advance: how much they move at a time, and where
they fail.  Without such instructions they are plain byte strings in memory, so these are also the
sources and sinks that everything in memory goes through.
-/

namespace AgeCrypt

/-! ## Sources -/

/-- A source with laid-down behaviour. -/
structure ScriptedSource where
  -- The bytes still to come.
  data : Bytes
  given : Nat := 0
  -- The most that each successful read gives, in turn and from the start again; none means no
  -- limit.
  portions : Array Nat := #[]
  -- How many reads have succeeded.
  reads : Nat := 0
  -- Each error strikes once, when as many bytes as stand beside it have been given.
  faults : List (Nat × IoError) := []

namespace ScriptedSource

def ofBytes (data : Bytes) : ScriptedSource :=
  { data }

/-- The most that the next read may give of the `n` bytes asked for. -/
def allowance (s : ScriptedSource) (n : Nat) : Nat :=
  let n := match s.portions[s.reads % s.portions.size]? with
    | some portion => min n portion
    | none => n
  match s.faults with
  | [] => n
  | (place, _) :: _ => min n (place - s.given)

def give (s : ScriptedSource) (n : Nat) : Bytes × ScriptedSource :=
  let got := s.data.take (s.allowance n)
  (got, { s with
    data := s.data.drop (s.allowance n)
    given := s.given + got.length
    reads := s.reads + 1 })

/-- Read at most `n` bytes, or fail where the script has a fault. -/
def read (s : ScriptedSource) (n : Nat) : Except IoError Bytes × ScriptedSource :=
  match s.faults with
  | (place, e) :: rest =>
      if place ≤ s.given then
        (.error e, { s with faults := rest })
      else
        (.ok (s.give n).1, (s.give n).2)
  | [] => (.ok (s.give n).1, (s.give n).2)

theorem allowance_le (s : ScriptedSource) (n : Nat) : s.allowance n ≤ n := by
  unfold allowance
  split <;> split <;> simp only [Nat.min_def] <;> grind

instance : ByteSource ScriptedSource where
  read := read
  weight s := s.data.length + s.faults.length
  length_le := by
    intro s n b t h
    have hle := s.allowance_le n
    unfold read at h
    split at h
    · split at h
      · cases h
      · cases h
        simp only [give, List.length_take]
        omega
    · cases h
      simp only [give, List.length_take]
      omega
  weight_of_ok := by
    intro s n b t h
    unfold read at h
    split at h
    · split at h
      · cases h
      · cases h
        simp only [give, List.length_take, List.length_drop]
        omega
    · cases h
      simp only [give, List.length_take, List.length_drop]
      omega
  weight_of_error := by
    intro s n e t h
    unfold read at h
    split at h
    · rename_i hf
      split at h
      · cases h
        simp only [hf, List.length_cons]
        split <;> omega
      · cases h
    · cases h

end ScriptedSource

/-! ## Sinks -/

inductive WriteFault where
  | fails (e : IoError)
  | takesNothing
deriving DecidableEq, Repr

/-- A sink with laid-down behaviour. -/
structure ScriptedSink where
  -- The bytes taken so far.
  contents : Array UInt8 := #[]
  -- The most that one write takes; none means no limit.
  portion : Option Nat := none
  -- Each fault strikes once, when as many bytes as stand beside it have been taken.
  faults : List (Nat × WriteFault) := []
  -- The errors of the next flushes; those after them succeed.
  flushFaults : List IoError := []

namespace ScriptedSink

/-- The most that the next write takes; none means no limit. -/
def room (t : ScriptedSink) : Option Nat :=
  match t.portion, t.faults with
  | none, [] => none
  | some portion, [] => some portion
  | none, (place, _) :: _ => some (place - t.contents.size)
  | some portion, (place, _) :: _ => some (min portion (place - t.contents.size))

def fitting (t : ScriptedSink) (b : Bytes) : Bytes :=
  match t.room with
  | none => b
  | some n => b.take n

def take (t : ScriptedSink) (b : Bytes) : Nat × ScriptedSink :=
  ((t.fitting b).length, { t with contents := t.contents ++ t.fitting b })

/-- Take bytes, or fail where the script has a fault. -/
def write (t : ScriptedSink) (b : Bytes) : Except IoError Nat × ScriptedSink :=
  match t.faults with
  | (place, fault) :: rest =>
      if place ≤ t.contents.size then
        match fault with
        | .fails e => (.error e, { t with faults := rest })
        | .takesNothing => (.ok 0, { t with faults := rest })
      else
        (.ok (t.take b).1, (t.take b).2)
  | [] => (.ok (t.take b).1, (t.take b).2)

/-- Succeed, unless a flush fault is left. -/
def flush (t : ScriptedSink) : Except IoError Unit × ScriptedSink :=
  match t.flushFaults with
  | e :: rest => (.error e, { t with flushFaults := rest })
  | [] => (.ok (), t)

theorem length_fitting_le (t : ScriptedSink) (b : Bytes) : (t.fitting b).length ≤ b.length := by
  unfold fitting
  split
  · exact Nat.le_refl _
  · simp only [List.length_take]
    omega

instance : ByteSink ScriptedSink where
  write := write
  flush := flush
  patience t := t.faults.length
  taken_le := by
    intro t b n u h
    have hle := t.length_fitting_le b
    unfold write at h
    split at h
    · split at h
      · split at h
        · cases h
        · cases h
          omega
      · cases h
        exact hle
    · cases h
      exact hle
  patience_of_ok := by
    intro t b n u h
    unfold write at h
    split at h
    · rename_i hf
      split at h
      · split at h
        · cases h
        · cases h
          simp only [hf, List.length_cons]
          omega
      · cases h
        exact Nat.le_refl _
    · cases h
      exact Nat.le_refl _
  patience_of_interrupted := by
    intro t b e u h _
    unfold write at h
    split at h
    · rename_i hf
      split at h
      · split at h
        · cases h
          simp only [hf, List.length_cons]
          omega
        · cases h
      · cases h
    · cases h

end ScriptedSink

end AgeCrypt
