import AgeCrypt.Bytes
import AgeCrypt.Io.Error
import AgeCrypt.Io.Gathering

/-!
# Byte sources

A byte source is a state that can be read from: a read asks for at most `n` bytes and gives some of
them, an empty answer being the end of input, or an error.  A source may go on after an error.

Every source has a `weight` that bounds what it can still do: the bytes it gives and the times it is
interrupted are paid for from it.  So loops over a source end, and this module has the usual ones:

* `readFull` — up to `n` bytes, stopping early only at the end of input;
* `readExact` — exactly `n` bytes;
* `readToEnd` — all that is left.

All of them try again after an interruption and stop at any other error.
-/

namespace AgeCrypt

/-- A state that bytes can be read from. -/
class ByteSource (σ : Type) where
  read : σ → (n : Nat) → Except IoError Bytes × σ
  -- A bound on the bytes and interruptions still to come.
  weight : σ → Nat
  -- A read gives no more than was asked for.
  length_le : ∀ {s n b t}, read s n = (.ok b, t) → b.length ≤ n
  -- Bytes are paid for.
  weight_of_ok : ∀ {s n b t}, read s n = (.ok b, t) → weight t + b.length ≤ weight s
  -- An error costs nothing, unless it is an interruption.
  weight_of_error : ∀ {s n e t}, read s n = (.error e, t) →
    weight t + (if e.isInterrupted then 1 else 0) ≤ weight s

namespace ByteSource

variable {σ : Type} [ByteSource σ]

/-- Read up to `n` more bytes after those in `acc`, stopping early only at the end of input. -/
def readFullFrom (s : σ) (n : Nat) (acc : Array UInt8) : Except IoError (Array UInt8) × σ :=
  if n = 0 then
    (.ok acc, s)
  else
    match _h : read s n with
    | (.ok [], t) => (.ok acc, t)
    | (.ok (x :: b), t) => readFullFrom t (n - (x :: b).length) (acc ++ (x :: b))
    | (.error e, t) =>
        if e.isInterrupted then readFullFrom t n acc else (.error e, t)
termination_by weight s
decreasing_by
  · have := weight_of_ok _h
    simp only [List.length_cons] at this
    omega
  · rename_i hi
    have := weight_of_error _h
    simp only [hi, if_true] at this
    omega

/-- Read up to `n` bytes, stopping early only at the end of input. -/
def readFull (s : σ) (n : Nat) : Except IoError (Array UInt8) × σ :=
  readFullFrom s n #[]

/-- What a full read gathers was in the source. -/
theorem weight_readFullFrom_ok {s t : σ} {n : Nat} {acc got : Array UInt8}
    (h : readFullFrom s n acc = (.ok got, t)) : weight t + got.size ≤ weight s + acc.size := by
  fun_induction readFullFrom s n acc with
  | case1 s acc =>
      cases h
      omega
  | case2 s n acc _ t' hr =>
      cases h
      have := weight_of_ok hr
      omega
  | case3 s n acc _ x b t' hr ih =>
      have h0 := ih h
      have h1 := weight_of_ok hr
      simp only [Bytes.size_append] at h0
      omega
  | case4 s n acc _ e t' hr hi ih =>
      have h0 := ih h
      have h1 := weight_of_error hr
      omega
  | case5 s n acc _ e t' hr hi => cases h

/-- An error of a full read is no interruption and costs nothing. -/
theorem weight_readFullFrom_error {s t : σ} {n : Nat} {acc : Array UInt8} {e : IoError}
    (h : readFullFrom s n acc = (.error e, t)) :
    weight t ≤ weight s ∧ e.isInterrupted = false := by
  fun_induction readFullFrom s n acc with
  | case1 s acc => cases h
  | case2 s n acc _ t' hr => cases h
  | case3 s n acc _ x b t' hr ih =>
      have h0 := ih h
      have h1 := weight_of_ok hr
      exact ⟨by omega, h0.2⟩
  | case4 s n acc _ e' t' hr hi ih =>
      have h0 := ih h
      have h1 := weight_of_error hr
      exact ⟨by omega, h0.2⟩
  | case5 s n acc _ e' t' hr hi =>
      cases h
      have h1 := weight_of_error hr
      exact ⟨by omega, by simpa using hi⟩

/-- A full read gives no more than was asked for. -/
theorem size_readFullFrom_le {s t : σ} {n : Nat} {acc got : Array UInt8}
    (h : readFullFrom s n acc = (.ok got, t)) : got.size ≤ n + acc.size := by
  fun_induction readFullFrom s n acc with
  | case1 s acc =>
      cases h
      omega
  | case2 s n acc _ t' hr =>
      cases h
      omega
  | case3 s n acc _ x b t' hr ih =>
      have h0 := ih h
      have h1 := length_le hr
      simp only [Bytes.size_append, List.length_cons] at h0 h1
      omega
  | case4 s n acc _ e t' hr hi ih => exact ih h
  | case5 s n acc _ e t' hr hi => cases h

def readExact (s : σ) (n : Nat) : Except IoError (Block n) × σ :=
  match readFull s n with
  | (.ok got, t) =>
      match Block.ofBytes? n got.toList with
      | some b => (.ok b, t)
      | none => (.error .shortRead, t)
  | (.error e, t) => (.error e, t)

/-- Read all that is left, after what is in `acc`. -/
def readToEndFrom (s : σ) (g : Gathering) (acc : Array UInt8) :
    Except IoError (Array UInt8) × σ :=
  match _h : read s (g.request acc.size) with
  | (.ok [], t) => (.ok acc, t)
  | (.ok (x :: b), t) =>
      readToEndFrom t (g.accept acc.size (x :: b).length) (acc ++ (x :: b))
  | (.error e, t) =>
      if e.isInterrupted then readToEndFrom t g acc else (.error e, t)
termination_by weight s
decreasing_by
  · have := weight_of_ok _h
    simp only [List.length_cons] at this
    omega
  · rename_i hi
    have := weight_of_error _h
    simp only [hi, if_true] at this
    omega

/-- Reading to the end costs at least what it gives. -/
theorem weight_readToEndFrom_ok {s t : σ} {g : Gathering} {acc got : Array UInt8}
    (h : readToEndFrom s g acc = (.ok got, t)) : weight t + got.size ≤ weight s + acc.size := by
  fun_induction readToEndFrom s g acc with
  | case1 s g acc t' hr =>
      cases h
      have := weight_of_ok hr
      omega
  | case2 s g acc x b t' hr ih =>
      have h0 := ih h
      have h1 := weight_of_ok hr
      simp only [Bytes.size_append] at h0
      omega
  | case3 s g acc e t' hr hi ih =>
      have h0 := ih h
      have h1 := weight_of_error hr
      omega
  | case4 s g acc e t' hr hi => cases h

/-- An error on the way to the end is no interruption and costs nothing. -/
theorem weight_readToEndFrom_error {s t : σ} {g : Gathering} {acc : Array UInt8} {e : IoError}
    (h : readToEndFrom s g acc = (.error e, t)) :
    weight t ≤ weight s ∧ e.isInterrupted = false := by
  fun_induction readToEndFrom s g acc with
  | case1 s g acc t' hr => cases h
  | case2 s g acc x b t' hr ih =>
      have h0 := ih h
      have h1 := weight_of_ok hr
      exact ⟨by omega, h0.2⟩
  | case3 s g acc e' t' hr hi ih =>
      have h0 := ih h
      have h1 := weight_of_error hr
      exact ⟨by omega, h0.2⟩
  | case4 s g acc e' t' hr hi =>
      cases h
      have h1 := weight_of_error hr
      exact ⟨by omega, by simpa using hi⟩

def readToEnd (s : σ) : Except IoError Bytes × σ :=
  match readToEndFrom s (.start 0) #[] with
  | (.ok got, t) => (.ok got.toList, t)
  | (.error e, t) => (.error e, t)

/-- One read after another, each of at most the given number of bytes; errors do not stop them. -/
def readEach (s : σ) : List Nat → List (Except IoError Bytes) × σ
  | [] => ([], s)
  | n :: sizes =>
      let (r, t) := read s n
      let (rs, u) := readEach t sizes
      (r :: rs, u)

end ByteSource

/-- One of two sources is a source. -/
instance {σ ρ : Type} [ByteSource σ] [ByteSource ρ] : ByteSource (σ ⊕ ρ) where
  read s n :=
    match s with
    | .inl s => let (r, t) := ByteSource.read s n; (r, .inl t)
    | .inr s => let (r, t) := ByteSource.read s n; (r, .inr t)
  weight
    | .inl s => ByteSource.weight s
    | .inr s => ByteSource.weight s
  length_le := by
    intro s n b t h
    cases s <;>
      (obtain ⟨hr, rfl⟩ := Prod.mk.inj h; exact ByteSource.length_le (Prod.ext hr rfl))
  weight_of_ok := by
    intro s n b t h
    cases s <;>
      (obtain ⟨hr, rfl⟩ := Prod.mk.inj h; exact ByteSource.weight_of_ok (Prod.ext hr rfl))
  weight_of_error := by
    intro s n e t h
    cases s <;>
      (obtain ⟨hr, rfl⟩ := Prod.mk.inj h; exact ByteSource.weight_of_error (Prod.ext hr rfl))

end AgeCrypt
