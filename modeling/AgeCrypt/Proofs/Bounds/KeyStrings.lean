import AgeCrypt.Proofs.Bech32.Codec
import AgeCrypt.Proofs.Bounds.Streams

/-!
# The bounds of key strings

Between two values fewer bits are pending than a group has, so every difference and every shift of
the regrouping is in range (`regroupGuarded_eq`).  What it gives are values of five bits, all of
which have a symbol (`encodeGuarded_eq`).  A text is cut only after it has been found to be long
enough for the cuts (`decodeGuarded_eq`).

With what holds of the streams this gives `no_guard_stops`.
-/

namespace AgeCrypt

open Guarded

namespace Bech32

/-! ## Regrouping -/

namespace Regroup

def lowBitsGuarded (n : Nat) : Option UInt32 := do
  let top ← shiftLeft 1 n
  guard (1 ≤ top)
  some (top - 1)

def emitGuarded (target : Nat) (mask : UInt32) : (rounds : Nat) → State → Option State
  | 0, _ => none
  | rounds + 1, s =>
      if target ≤ s.pending then do
        let left ← minus s.pending target
        let group ← shiftRight s.acc left
        emitGuarded target mask rounds
          { s with pending := left, out := (group &&& mask).toUInt8 :: s.out }
      else
        some s

def pushGuarded (source target : Nat) (mask accMask : UInt32) (s : State) (value : UInt8) :
    Option (Except Error State) := do
  let v := value.toUInt32
  let high ← shiftRight v source
  if high ≠ 0 then
    some (.error .valueOutOfRange)
  else do
    let moved ← shiftLeft s.acc source
    let pending := s.pending + source
    let t ← emitGuarded target mask (pending + 1)
      { s with acc := (moved ||| v) &&& accMask, pending }
    some (.ok t)

def pushEachGuarded (source target : Nat) (mask accMask : UInt32) (s : State) :
    Bytes → Option (Except Error State)
  | [] => some (.ok s)
  | value :: values => do
      match ← pushGuarded source target mask accMask s value with
      | .error e => some (.error e)
      | .ok t => pushEachGuarded source target mask accMask t values

def restGuarded (target : Nat) (mask : UInt32) (s : State) : Option UInt32 := do
  let gap ← minus target s.pending
  let moved ← shiftLeft s.acc gap
  some (moved &&& mask)

end Regroup

open Regroup

def regroupGuarded (source target : Nat) (pad : Bool) (values : Bytes) :
    Option (Except Error Bytes) := do
  let mask ← lowBitsGuarded target
  let width ← minus (source + target) 1
  let accMask ← lowBitsGuarded width
  match ← pushEachGuarded source target mask accMask {} values with
  | .error e => some (.error e)
  | .ok s =>
      if pad then
        if s.pending > 0 then do
          let last ← restGuarded target mask s
          some (.ok (last.toUInt8 :: s.out).reverse)
        else
          some (.ok s.out.reverse)
      else if s.pending ≥ source then
        some (.error .paddingTooLong)
      else do
        let last ← restGuarded target mask s
        if last ≠ 0 then
          some (.error .paddingNotZero)
        else
          some (.ok s.out.reverse)

namespace Regroup

variable {source target : Nat}

theorem lowBitsGuarded_eq {n : Nat} (hn : n < 32) : lowBitsGuarded n = some (lowBits n) := by
  have hone : (1 : UInt32) ≤ 1 <<< UInt32.ofNat n := by
    rw [UInt32.le_iff_toNat_le, UInt32.toNat_shiftLeft, toNat_ofNat_mod hn, UInt32.toNat_one,
      Nat.one_shiftLeft, Nat.mod_eq_of_lt (Nat.pow_lt_pow_right (by decide) hn)]
    exact Nat.one_le_two_pow
  rw [lowBitsGuarded, shiftLeft_of_lt hn, Option.bind_eq_bind, Option.bind_some, guard_of hone]
  rfl

/-- After writing, less than a group is pending. -/
theorem pending_emit_lt (h0 : 0 < target) (s : State) : (emit target s).pending < target := by
  fun_induction emit target s with
  | case1 s hstop => exact hstop.resolve_left (Nat.pos_iff_ne_zero.1 h0)
  | case2 s hgo left ih => exact ih

/-- Each round writes a group, so there are no more rounds than pending bits. -/
theorem emitGuarded_eq (h0 : 0 < target) {s : State} (hpending : s.pending < 32) {rounds : Nat}
    (hrounds : s.pending < rounds) :
    emitGuarded target (lowBits target) rounds s = some (emit target s) := by
  obtain ⟨rounds, rfl⟩ := Nat.exists_eq_add_one.2 (Nat.zero_lt_of_lt hrounds)
  fun_induction emit target s generalizing rounds with
  | case1 s hstop =>
      have hless := hstop.resolve_left (Nat.pos_iff_ne_zero.1 h0)
      rw [emitGuarded, if_neg (Nat.not_le.2 hless)]
  | case2 s hgo left ih =>
      have hle : target ≤ s.pending := Nat.not_lt.1 fun hless => hgo (.inr hless)
      have hleft : s.pending - target < 32 := by omega
      obtain ⟨rounds, rfl⟩ : ∃ k, rounds = k + 1 := Nat.exists_eq_add_one.2 (by omega)
      rw [emitGuarded, if_pos hle, minus_of_le hle, Option.bind_eq_bind, Option.bind_some,
        shiftRight_of_lt hleft]
      exact ih hleft rounds (by simp only; omega)

/-- With less than a group pending, one more value has room in the accumulator. -/
theorem pushGuarded_eq (hs : source ≤ 8) (h0 : 0 < target) (h8 : target ≤ 8) {s : State}
    (hpending : s.pending < target) (value : UInt8) :
    pushGuarded source target (lowBits target) (lowBits (source + target - 1)) s value =
      some (push source target s value) := by
  have hsource : source < 32 := by omega
  rw [pushGuarded, push, shiftRight_of_lt hsource, Option.bind_eq_bind, Option.bind_some]
  split
  · rfl
  · have hfits : s.pending + source < 32 := by omega
    rw [shiftLeft_of_lt hsource, Option.bind_some]
    generalize ((s.acc <<< UInt32.ofNat source) ||| value.toUInt32) &&& _ = acc
    have hemit := emitGuarded_eq h0 (s := ⟨acc, s.pending + source, s.out⟩) hfits (Nat.lt_add_one _)
    dsimp only
    rw [hemit]
    rfl

/-- Between two values less than a group is pending. -/
theorem pending_push_lt (h0 : 0 < target) {s t : State} {value : UInt8}
    (h : push source target s value = .ok t) : t.pending < target := by
  rw [push] at h
  split at h
  · cases h
  · cases h
    exact pending_emit_lt h0 _

/-- No guard stops a reading that starts with less than a group pending, and it ends so. -/
theorem pushEachGuarded_eq (hs : source ≤ 8) (h0 : 0 < target) (h8 : target ≤ 8) {s : State}
    (hpending : s.pending < target) (values : Bytes) :
    pushEachGuarded source target (lowBits target) (lowBits (source + target - 1)) s values =
        some (values.foldlM (push source target) s) ∧
      ∀ t, values.foldlM (push source target) s = .ok t → t.pending < target := by
  induction values generalizing s with
  | nil =>
      refine ⟨rfl, fun t ht => ?_⟩
      cases ht
      exact hpending
  | cons value values ih =>
      rw [pushEachGuarded, pushGuarded_eq hs h0 h8 hpending, List.foldlM_cons]
      cases hpush : push source target s value with
      | error e => exact ⟨rfl, fun t ht => by cases ht⟩
      | ok u => exact ih (pending_push_lt h0 hpush)

/-- What is pending at the end is less than a group, so it can be moved to the top of one. -/
theorem restGuarded_eq (h8 : target ≤ 8) {s : State} (hpending : s.pending < target) :
    restGuarded target (lowBits target) s = some (rest target s) := by
  rw [restGuarded, minus_of_le (Nat.le_of_lt hpending), Option.bind_eq_bind, Option.bind_some,
    shiftLeft_of_lt (by omega)]
  rfl

end Regroup

/-- Regrouping between groups of at most eight bits is in range, whatever the values are. -/
theorem regroupGuarded_eq {source target : Nat} (hs : source ≤ 8) (h0 : 0 < target)
    (h8 : target ≤ 8) (pad : Bool) (values : Bytes) :
    regroupGuarded source target pad values = some (regroup source target pad values) := by
  rcases pushEachGuarded_eq hs h0 h8 (s := {}) h0 values with ⟨hpush, hless⟩
  have hmask := lowBitsGuarded_eq (n := target) (by omega)
  have haccMask := lowBitsGuarded_eq (n := source + target - 1) (by omega)
  have hwidth := minus_of_le (a := source + target) (b := 1) (by omega)
  simp only [regroupGuarded, hmask, hwidth, haccMask, hpush, Option.bind_eq_bind, Option.bind_some,
    regroup]
  cases hread : values.foldlM (push source target) {} with
  | error e => rfl
  | ok s =>
      have hrest := restGuarded_eq h8 (hless s hread)
      cases pad with
      | true =>
          simp only [if_true, hrest, Option.bind_some, bind, Except.bind]
          split <;> rfl
      | false =>
          simp only [Bool.false_eq_true, if_false, hrest, Option.bind_some, bind, Except.bind]
          split
          · rfl
          · split <;> rfl

/-! ## Checksums -/

/-- What is read for each element is read for all. -/
theorem mapM_eq_some_map {α β : Type} {f : α → Option β} {g : α → β} {l : List α}
    (h : ∀ x ∈ l, f x = some (g x)) : l.mapM f = some (l.map g) := by
  induction l with
  | nil => rfl
  | cons x l ih =>
      rw [List.mapM_cons, h x (List.mem_cons_self ..),
        ih fun y hy => h y (List.mem_cons_of_mem _ hy)]
      rfl

def remainderStepGuarded (chk : UInt32) (v : UInt8) : Option UInt32 := do
  let top ← shiftRight chk 25
  let moved ← shiftLeft (chk &&& 0x1ffffff) 5
  generators.zipIdx.foldlM
    (fun acc g => do
      let chosen ← shiftRight top g.2
      some (if chosen &&& 1 = 1 then acc ^^^ g.1 else acc))
    (moved ^^^ v.toUInt32)

def expandGuarded (human : Bytes) : Option Bytes := do
  let lower := human.map Ascii.toLower
  let high ← lower.mapM fun (b : UInt8) => shiftRightByte b 5
  some (high ++ 0 :: lower.map (fun (b : UInt8) => b &&& 31))

def checksumGuarded (human values : Bytes) : Option Bytes := do
  let spread ← expandGuarded human
  let r ← (spread ++ values ++ List.replicate checksumLength 0).foldlM remainderStepGuarded 1
  let m := r ^^^ 1
  (List.range checksumLength).mapM fun i => do
    let place ← minus 5 i
    let group ← shiftRight m (5 * place)
    some (group &&& 31).toUInt8

def verifyGuarded (human values : Bytes) : Option Bool := do
  let spread ← expandGuarded human
  let r ← (spread ++ values).foldlM remainderStepGuarded 1
  some (r == 1)

/-- A fold whose steps are all in range is in range. -/
theorem foldlM_eq_some_foldl {α β : Type} {f : β → α → Option β} {g : β → α → β} {l : List α}
    (h : ∀ b, ∀ x ∈ l, f b x = some (g b x)) (b : β) : l.foldlM f b = some (l.foldl g b) := by
  induction l generalizing b with
  | nil => rfl
  | cons x l ih =>
      rw [List.foldlM_cons, h b x (List.mem_cons_self ..)]
      exact ih (fun c y hy => h c y (List.mem_cons_of_mem _ hy)) _

theorem remainderStepGuarded_eq (chk : UInt32) (v : UInt8) :
    remainderStepGuarded chk v = some (remainderStep chk v) := by
  have hplace : ∀ g ∈ generators.zipIdx, g.2 < 32 := by
    decide
  have htop : shiftRight chk 25 = some (chk >>> 25) := shiftRight_of_lt (by decide)
  have hmoved : shiftLeft (chk &&& 0x1ffffff) 5 = some ((chk &&& 0x1ffffff) <<< 5) :=
    shiftLeft_of_lt (by decide)
  rw [remainderStepGuarded, htop, Option.bind_eq_bind, Option.bind_some, hmoved, Option.bind_some,
    remainderStep]
  refine foldlM_eq_some_foldl (fun acc g hg => ?_) _
  rw [shiftRight_of_lt (hplace g hg)]
  rfl

theorem foldlM_remainderStepGuarded_eq (values : Bytes) :
    values.foldlM remainderStepGuarded 1 = some (remainder values) :=
  foldlM_eq_some_foldl (fun chk v _ => remainderStepGuarded_eq chk v) 1

theorem expandGuarded_eq (human : Bytes) : expandGuarded human = some (expand human) := by
  have hhigh : ((human.map Ascii.toLower).mapM fun (b : UInt8) => shiftRightByte b 5) =
      some ((human.map Ascii.toLower).map fun (b : UInt8) => b >>> 5) :=
    mapM_eq_some_map fun b _ => shiftRightByte_of_lt (by decide)
  rw [expandGuarded]
  simp only [hhigh, Option.bind_eq_bind, Option.bind_some]
  rfl

theorem checksumGuarded_eq (human values : Bytes) :
    checksumGuarded human values = some (checksum human values) := by
  simp only [checksumGuarded, expandGuarded_eq, foldlM_remainderStepGuarded_eq,
    Option.bind_eq_bind, Option.bind_some]
  rw [checksum]
  refine mapM_eq_some_map fun i hi => ?_
  have hless : i < 6 := List.mem_range.1 hi
  rw [minus_of_le (by omega), Option.bind_some, shiftRight_of_lt (by omega)]
  rfl

theorem verifyGuarded_eq (human values : Bytes) :
    verifyGuarded human values = some (verify human values) := by
  rw [verifyGuarded, expandGuarded_eq, Option.bind_eq_bind, Option.bind_some,
    foldlM_remainderStepGuarded_eq]
  rfl

/-! ## Key strings -/

def encodeBytesGuarded (human data : Bytes) : Option (Except Error Bytes) :=
  if human = [] ∨ ¬ human.all Ascii.isVisible then
    some (.error .invalidHumanPart)
  else if human.any Ascii.isUpper ∧ human.any Ascii.isLower then
    some (.error .mixedCase)
  else do
    match ← regroupGuarded 8 5 true data with
    | .error e => some (.error e)
    | .ok values =>
        let sum ← checksumGuarded human values
        let symbols ← (values ++ sum).mapM fun v => alphabet[v.toNat]?
        let text := human.map Ascii.toLower ++ separator :: symbols
        some (.ok (if human.any Ascii.isUpper then text.map Ascii.toUpper else text))

/-- The position of the last occurrence of `mark`. -/
def lastPosition (mark : UInt8) : Bytes → Option Nat
  | [] => none
  | x :: rest =>
      match lastPosition mark rest with
      | some i => some (i + 1)
      | none => if x = mark then some 0 else none

/-- The text is cut at a position, and the separator that is there cut off. -/
def decodeBytesGuarded (text : Bytes) : Option (Except Error (Bytes × Bytes)) :=
  if text.any Ascii.isLower ∧ text.any Ascii.isUpper then
    some (.error .mixedCase)
  else
    match lastPosition separator text with
    | none => some (.error .separatorMisplaced)
    | some i =>
        if i < 1 ∨ text.length < i + checksumLength + 1 then
          some (.error .separatorMisplaced)
        else do
          let human ← upTo text i
          let rest ← behind text i
          if ¬ human.all Ascii.isVisible then
            some (.error .invalidCharacter)
          else do
            let symbols ← behind rest 1
            match symbols.mapM value? with
            | none => some (.error .invalidCharacter)
            | some values => do
                let fits ← verifyGuarded human values
                if ¬ fits then
                  some (.error .checksumMismatch)
                else do
                  let count ← minus values.length checksumLength
                  let payload ← upTo values count
                  match ← regroupGuarded 5 8 false payload with
                  | .error e => some (.error e)
                  | .ok data => some (.ok (human, data))

def encodeGuarded (human : String) (data : Bytes) : Option (Except Error String) :=
  (encodeBytesGuarded (Text.utf8 human) data).map fun r => r.map Text.ofAscii

def decodeGuarded (text : String) : Option (Except Error (String × Bytes)) :=
  (decodeBytesGuarded (Text.utf8 text)).map fun r => r.map fun r => (Text.ofAscii r.1, r.2)

/-- A value of five bits has a symbol. -/
theorem getElem?_alphabet {v : UInt8} (hv : v.toNat < 2 ^ 5) :
    alphabet[v.toNat]? = some (symbol v) := by
  have hlen : alphabet.length = 2 ^ 5 := by
    decide
  rw [symbol, List.getD_eq_getElem?_getD, List.getElem?_eq_getElem (hlen ▸ hv), Option.getD_some]

/-- Regrouped values and checksums have symbols. -/
theorem encodeBytesGuarded_eq (human data : Bytes) :
    encodeBytesGuarded human data = some (encodeBytes human data) := by
  unfold encodeBytesGuarded encodeBytes
  split
  · rfl
  · split
    · rfl
    · rcases exists_regroup_eight data with ⟨values, hregroup, hspells⟩
      have hfits := fits_append_checksum hspells.1 human
      have hsymbols : ((values ++ checksum human values).mapM fun v => alphabet[v.toNat]?) =
          some ((values ++ checksum human values).map symbol) :=
        mapM_eq_some_map fun v hv => getElem?_alphabet (hfits v hv)
      rw [regroupGuarded_eq (by decide) (by decide) (by decide), hregroup]
      simp only [Option.bind_eq_bind, Option.bind_some, checksumGuarded_eq, hsymbols]
      rfl

theorem encodeGuarded_eq (human : String) (data : Bytes) :
    encodeGuarded human data = some (encode human data) := by
  rw [encodeGuarded, encodeBytesGuarded_eq]
  rfl

/-- Cutting at the last position is cutting at the last occurrence. -/
theorem splitLast_eq_lastPosition (mark : UInt8) (text : Bytes) :
    splitLast mark text =
        (lastPosition mark text).map (fun i => (text.take i, text.drop (i + 1))) ∧
      ∀ i, lastPosition mark text = some i → i < text.length := by
  induction text with
  | nil => exact ⟨rfl, fun i hi => by cases hi⟩
  | cons x text ih =>
      rcases ih with ⟨hsplit, hless⟩
      rw [splitLast, lastPosition, hsplit]
      cases hlast : lastPosition mark text with
      | some i =>
          refine ⟨rfl, fun j hj => ?_⟩
          cases hj
          exact Nat.succ_lt_succ (hless i hlast)
      | none =>
          dsimp only [Option.map_none]
          split
          · refine ⟨rfl, fun j hj => ?_⟩
            cases hj
            exact Nat.succ_pos _
          · exact ⟨rfl, fun j hj => by cases hj⟩

/-- A text that is long enough for a separator and a checksum is long enough for all cuts. -/
theorem decodeBytesGuarded_eq (text : Bytes) :
    decodeBytesGuarded text = some (decodeBytes text) := by
  rcases splitLast_eq_lastPosition separator text with ⟨hsplit, hless⟩
  unfold decodeBytesGuarded decodeBytes
  split
  · rfl
  · rw [hsplit]
    cases hlast : lastPosition separator text with
    | none => rfl
    | some i =>
        have hi := hless i hlast
        have hafter : (text.drop i).drop 1 = text.drop (i + 1) := by
          rw [List.drop_drop, Nat.add_comm]
        have hcount : (text.drop (i + 1)).length = text.length - (i + 1) := List.length_drop
        have hone : 1 ≤ (text.drop i).length := by
          rw [List.length_drop]
          omega
        have hplaced : (i < 1 ∨ text.length < i + checksumLength + 1) ↔
            (text.take i = [] ∨ (text.drop (i + 1)).length < checksumLength) := by
          rw [← List.length_eq_zero_iff, List.length_take, hcount]
          omega
        simp only [Option.map_some, hplaced]
        split
        · rfl
        · rename_i hlong
          simp only [upTo_of_le (Nat.le_of_lt hi), behind_of_le (Nat.le_of_lt hi), behind_of_le hone,
            hafter, Option.bind_eq_bind, Option.bind_some]
          split
          · rfl
          · cases hvalues : (text.drop (i + 1)).mapM value? with
            | none => rfl
            | some values =>
                have hlength : values.length = (text.drop (i + 1)).length := by
                  have hmap := congrArg List.length (mapM_value?_eq_some_iff.1 hvalues).2
                  rw [List.length_map, List.length_map] at hmap
                  exact hmap
                have hsum : checksumLength ≤ values.length := by
                  rw [hlength]
                  exact Nat.not_lt.1 fun hshort => hlong (.inr hshort)
                simp only [verifyGuarded_eq, Option.bind_some, minus_of_le hsum,
                  upTo_of_le (Nat.sub_le ..),
                  regroupGuarded_eq (show 5 ≤ 8 by decide) (by decide) (Nat.le_refl 8)]
                split
                · rfl
                · cases regroup 5 8 false (values.take (values.length - checksumLength)) <;> rfl

theorem decodeGuarded_eq (text : String) : decodeGuarded text = some (decode text) := by
  rw [decodeGuarded, decodeBytesGuarded_eq]
  rfl

end Bech32

/-! ## All together -/

open Crypto Payload ByteSource ByteSink

/-- Over any source and any sink, after any calls, failed ones too: the payload writer holds back no
more than a chunk, neither reader has handed out more than it has decoded, and with every operation
guarded all calls get the answers that they get without guards.  So do encoding and decoding of key
strings, for any texts and data. -/
theorem no_guard_stops [Base64] :
    (∀ (S : Suite) (τ : Type) [ByteSink τ] (key : Block 32) (sink : τ) (calls : List Call),
        (performEach (PayloadWriter.start S key sink) calls).2.chunk.size ≤ chunkSize ∧
          performEachGuarded PayloadWriter.writeGuarded (PayloadWriter.start S key sink) calls =
            some (performEach (PayloadWriter.start S key sink) calls)) ∧
      (∀ (S : Suite) (σ : Type) [ByteSource σ] (key : Block 32) (source : σ) (sizes : List Nat),
        (readEach (PayloadReader.start S key source) sizes).2.window.taken ≤
            (readEach (PayloadReader.start S key source) sizes).2.window.bytes.size ∧
          readEachGuarded PayloadReader.readGuarded (PayloadReader.start S key source) sizes =
            some (readEach (PayloadReader.start S key source) sizes)) ∧
      (∀ (σ : Type) [ByteSource σ] (text : Buffered σ) (sizes : List Nat),
        (readEach ({ inner := text } : ArmorReader σ) sizes).2.window.taken ≤
            (readEach ({ inner := text } : ArmorReader σ) sizes).2.window.bytes.size ∧
          readEachGuarded ArmorReader.readGuarded { inner := text } sizes =
            some (readEach { inner := text } sizes)) ∧
      (∀ (τ : Type) [ByteSink τ] (w : ArmorWriter τ) (calls : List Call),
        performEachGuarded ArmorWriter.writeGuarded w calls = some (performEach w calls)) ∧
      (∀ (human : String) (data : Bytes),
        Bech32.encodeGuarded human data = some (Bech32.encode human data)) ∧
      ∀ text : String, Bech32.decodeGuarded text = some (Bech32.decode text) := by
  exact ⟨fun S τ _ => PayloadWriter.calls_in_range, fun S σ _ => PayloadReader.reads_in_range,
    fun σ _ => ArmorReader.reads_in_range, fun τ _ => ArmorWriter.calls_in_range,
    Bech32.encodeGuarded_eq, Bech32.decodeGuarded_eq⟩

end AgeCrypt
