import AgeCrypt.Proofs.Payload.Reading
import AgeCrypt.Proofs.Payload.Writing

/-!
# What an ideal cipher lets through

Suppose that under the key of a payload nothing opens but the chunks that were sealed, each under
its own nonce (`Ideal`).  Then whoever feeds a payload reader can make it stop, but cannot make it
hand out anything else than the plaintext from its beginning on, nor end where the plaintext does
not (`reads_authentic`).

The invariant `Authentic` ties what has been handed out to the number of the next chunk and to the
window.  It says nothing about the source, so it survives whatever the source does: errors that drop
half-read chunks, and reads that go on after them.
-/

namespace AgeCrypt
namespace Payload

open Crypto

/-- Under `key` nothing opens but the chunks of `plaintext`, each under its own nonce. -/
def Ideal (S : Suite) (key : Block 32) (plaintext : Bytes) : Prop :=
  ∀ n c m, S.decrypt? key n c = some m ↔
    (n, m) ∈ chunksFrom 0 plaintext ∧ c = S.encrypt key n m

/-- There is a chunk number `i`: the first, or one that begins before the end. -/
def Started (plaintext : Bytes) (i : Nat) : Prop :=
  i = 0 ∨ i * chunkSize < plaintext.length

/-- `chunk` is chunk number `i` of `plaintext`, and `last` says whether it is the last one. -/
structure IsChunk (plaintext : Bytes) (i : Nat) (last : Bool) (chunk : Bytes) : Prop where
  started : Started plaintext i
  eq_take : chunk = (plaintext.drop (i * chunkSize)).take chunkSize
  last_iff : last = true ↔ plaintext.length ≤ (i + 1) * chunkSize

variable {S : Suite} {key : Block 32} {plaintext : Bytes}

/-- The chunks of a plaintext that is not too long have numbers that a nonce can spell. -/
theorem Started.lt_counterLimit {i : Nat} (h : Started plaintext i)
    (hlen : plaintext.length ≤ counterLimit * chunkSize) : i < counterLimit := by
  rcases h with rfl | h
  · exact Nat.pow_pos (by decide)
  · exact Nat.lt_of_mul_lt_mul_right (Nat.lt_of_lt_of_le h hlen)

/-- What is among the chunks stands at one of their numbers. -/
theorem isChunk_of_mem {counter : Nat} {n : Block 12} {chunk : Bytes}
    (h : (n, chunk) ∈ chunksFrom counter plaintext) :
    ∃ i last, n = nonce (counter + i) last ∧ IsChunk plaintext i last chunk := by
  fun_induction chunksFrom counter plaintext with
  | case1 counter plaintext hlen =>
      cases List.mem_singleton.1 h
      refine ⟨0, true, rfl, .inl rfl, ?_, ?_⟩
      · simp [List.take_of_length_le hlen]
      · simpa using hlen
  | case2 counter plaintext hlen ih =>
      rcases List.mem_cons.1 h with heq | hmem
      · cases heq
        refine ⟨0, false, rfl, .inl rfl, ?_, ?_⟩
        · simp
        · simpa using hlen
      · rcases ih hmem with ⟨i, last, hn, hstarted, hchunk, hlast⟩
        have hnext : (i + 1) * chunkSize = chunkSize + i * chunkSize := by
          rw [Nat.add_mul, Nat.one_mul, Nat.add_comm]
        refine ⟨i + 1, last, ?_, ?_, ?_, ?_⟩
        · rw [hn, Nat.add_assoc, Nat.add_comm 1 i]
        · refine .inr ?_
          rcases hstarted with rfl | hi
          · omega
          · rw [List.length_drop] at hi
            omega
        · rw [hchunk, List.drop_drop, hnext]
        · rw [hlast, List.length_drop, Nat.add_mul (i + 1), Nat.one_mul]
          omega

/-- Under the nonce of a number only the chunk of that number opens. -/
theorem Ideal.isChunk (hideal : Ideal S key plaintext)
    (hlen : plaintext.length ≤ counterLimit * chunkSize) {i : Nat} (hi : Started plaintext i)
    {last : Bool} {sealed chunk : Bytes}
    (h : S.decrypt? key (nonce i last) sealed = some chunk) : IsChunk plaintext i last chunk := by
  have hmem := ((hideal _ _ _).1 h).1
  rcases isChunk_of_mem hmem with ⟨j, last', hnonce, hchunk⟩
  rw [Nat.zero_add] at hnonce
  -- the nonce tells where the chunk belongs
  rcases nonce_inj hnonce with ⟨hlast, hcounter⟩
  have hij : i = j := hcounter (hi.lt_counterLimit hlen) (hchunk.started.lt_counterLimit hlen)
  subst hlast hij
  exact hchunk

/-- A chunk that others follow is full, and there is a next one. -/
theorem IsChunk.started_next {i : Nat} {chunk : Bytes} (h : IsChunk plaintext i false chunk) :
    Started plaintext (i + 1) := by
  refine .inr (Nat.lt_of_not_le fun hle => ?_)
  have hlast := h.last_iff.2 hle
  cases hlast

theorem IsChunk.ne_nil {i : Nat} {chunk : Bytes} (h : IsChunk plaintext i false chunk) :
    chunk ≠ [] := by
  rcases h.started_next with h0 | hmore
  · cases h0
  · rw [Nat.add_mul] at hmore
    rw [h.eq_take, ← List.length_pos_iff, List.length_take, List.length_drop]
    simp only [chunkSize] at hmore ⊢
    omega

/-- A chunk takes the plaintext from where it begins to where the next one does. -/
theorem IsChunk.take_append {i : Nat} {last : Bool} {chunk : Bytes}
    (h : IsChunk plaintext i last chunk) :
    plaintext.take (i * chunkSize) ++ chunk = plaintext.take ((i + 1) * chunkSize) := by
  rw [h.eq_take, Nat.add_mul, Nat.one_mul, List.take_add]

/-- The last chunk takes it to its end. -/
theorem IsChunk.take_append_last {i : Nat} {chunk : Bytes} (h : IsChunk plaintext i true chunk) :
    plaintext.take (i * chunkSize) ++ chunk = plaintext := by
  rw [h.take_append, List.take_of_length_le (h.last_iff.1 rfl)]

/-! ## A whole payload -/

/-- What opens without a fault from a chunk on is the plaintext from there to its end. -/
theorem Ideal.take_append_of_openFrom (hideal : Ideal S key plaintext)
    (hlen : plaintext.length ≤ counterLimit * chunkSize) {i : Nat} (hi : Started plaintext i)
    {sealed p : Bytes} (h : openFrom S key i sealed = (p, none)) :
    plaintext.take (i * chunkSize) ++ p = plaintext := by
  fun_induction openFrom S key i sealed generalizing p with
  | case1 => cases h
  | case2 => cases h
  | case3 => cases h
  | case4 i sealed hne htag chunk hopen rest fault hr ih =>
      cases h
      have hchunk := hideal.isChunk hlen hi (of_openChunk_false hopen).2
      rw [← List.append_assoc, hchunk.take_append]
      exact ih hchunk.started_next hr
  | case5 i sealed hne htag chunk hopen hdrop =>
      cases h
      exact (hideal.isChunk hlen hi (of_openChunk_true hopen)).take_append_last
  | case6 => cases h

/-- Under an ideal cipher a payload opens just if it is the sealed form of the plaintext. -/
theorem Ideal.openAll_iff (hideal : Ideal S key plaintext)
    (hlen : plaintext.length ≤ counterLimit * chunkSize) {sealed p : Bytes} :
    openAll S key sealed = (p, none) ↔ p = plaintext ∧ sealed = sealAll S key plaintext := by
  constructor
  · intro h
    have hp : p = plaintext := by
      simpa using hideal.take_append_of_openFrom hlen (.inl rfl) h
    have hseal : ∀ n c m, S.decrypt? key n c = some m → S.encrypt key n m = c := by
      intro n c m hopen
      exact ((hideal n c m).1 hopen).2.symm
    rcases sealFrom_of_openFrom hseal h with ⟨hsealed, -, -⟩
    subst hp
    exact ⟨rfl, hsealed.symm⟩
  · rintro ⟨rfl, rfl⟩
    refine openFrom_sealFrom ?_ ?_ fun h => absurd rfl h
    · intro c hc
      exact (hideal _ _ _).2 ⟨hc, rfl⟩
    · intro n hn
      rw [Option.eq_none_iff_forall_ne_some]
      intro q hq
      -- the number of a full last chunk is started, and no chunk of it has others behind
      have hstarted : Started p n := by
        refine .inr ?_
        rw [hn, Nat.add_mul]
        simp only [chunkSize]
        omega
      rw [Nat.zero_add] at hq
      have hlast := (hideal.isChunk hlen hstarted hq).last_iff.2 (Nat.le_of_eq hn)
      cases hlast

/-! ## An ideal cipher -/

/-- A suite that has taken note of some chunks and opens nothing else. -/
def admitting (S : Suite) (chunks : List (Block 12 × Bytes)) : Suite :=
  { S with
    decrypt? := fun key n c =>
      (chunks.find? fun x => x.1 = n ∧ c = S.encrypt key x.1 x.2).map Prod.snd
    length_of_decrypt := by
      intro key n c m h
      rcases Option.map_eq_some_iff.1 h with ⟨x, hfind, rfl⟩
      have hx := List.find?_some hfind
      simp only [decide_eq_true_eq] at hx
      rw [hx.2, S.length_encrypt] }

/-- Taking note of chunks does not change how they are sealed. -/
theorem sealAll_admitting (chunks : List (Block 12 × Bytes)) (key : Block 32) (plaintext : Bytes) :
    sealAll (admitting S chunks) key plaintext = sealAll S key plaintext := by
  rw [sealAll, sealAll, sealFrom_eq_flatMap, sealFrom_eq_flatMap]
  rfl

/-- Such a suite is ideal for the payload whose chunks it has noted. -/
theorem ideal_admitting (hopen : S.OpensSealed) (key : Block 32) (plaintext : Bytes) :
    Ideal (admitting S (chunksFrom 0 plaintext)) key plaintext := by
  intro n c m
  change ((chunksFrom 0 plaintext).find? fun x => x.1 = n ∧ c = S.encrypt key x.1 x.2).map Prod.snd =
    some m ↔ _ ∧ c = S.encrypt key n m
  constructor
  · intro h
    rcases Option.map_eq_some_iff.1 h with ⟨x, hfind, rfl⟩
    have hx := List.find?_some hfind
    simp only [decide_eq_true_eq] at hx
    rcases hx with ⟨rfl, hc⟩
    exact ⟨List.mem_of_find?_eq_some hfind, hc⟩
  · rintro ⟨hmem, hc⟩
    have hsome : ((chunksFrom 0 plaintext).find?
        fun x => x.1 = n ∧ c = S.encrypt key x.1 x.2).isSome = true := by
      rw [List.find?_isSome]
      exact ⟨(n, m), hmem, by simpa using hc⟩
    rcases Option.isSome_iff_exists.1 hsome with ⟨x, hfind⟩
    have hx := List.find?_some hfind
    simp only [decide_eq_true_eq] at hx
    rcases hx with ⟨rfl, hx⟩
    -- sealing under one nonce is injective, since what is sealed opens
    have hm : some x.2 = some m := by
      rw [← hopen key x.1 x.2, ← hx, hc, hopen]
    rw [hfind, Option.map_some, hm]

end Payload

namespace PayloadReader

open Crypto Payload ByteSource PayloadWriter

variable {S : Suite} {σ : Type} {key : Block 32} {plaintext : Bytes}

/-- `given` was handed out of `plaintext`, and `r` can go on in no other way. -/
inductive Authentic (key : Block 32) (plaintext : Bytes) : PayloadReader S σ → Bytes → Prop where
  -- Nothing more comes.
  | failed {r : PayloadReader S σ} {given : Bytes} {e : PayloadError} (hfailed : r.failed = some e)
      (hgiven : given <+: plaintext) : Authentic key plaintext r given
  -- All that is left is in the window.
  | finished {r : PayloadReader S σ} {given : Bytes} (hfailed : r.failed = none)
      (hdone : r.done = true) (hwindow : r.window.taken ≤ r.window.bytes.size)
      (hgiven : given ++ r.window.rest = plaintext) : Authentic key plaintext r given
  -- The window ends where the next chunk begins.
  | reading {r : PayloadReader S σ} {given : Bytes} (hkey : r.key = key) (hfailed : r.failed = none)
      (hdone : r.done = false) (hwindow : r.window.taken ≤ r.window.bytes.size)
      (hstarted : Started plaintext r.counter)
      (hgiven : given ++ r.window.rest = plaintext.take (r.counter * chunkSize)) :
      Authentic key plaintext r given

/-- Whatever is handed out is a prefix of the plaintext. -/
theorem Authentic.isPrefix {r : PayloadReader S σ} {given : Bytes}
    (h : Authentic key plaintext r given) : given <+: plaintext := by
  cases h with
  | failed _ hgiven => exact hgiven
  | finished _ _ _ hgiven => exact ⟨_, hgiven⟩
  | reading _ _ _ _ _ hgiven =>
      exact (List.prefix_append given _).trans (hgiven ▸ List.take_prefix _ _)

/-! ## One chunk -/

inductive ChunkStep (plaintext : Bytes) (r : PayloadReader S σ) :
    Except IoError Unit × PayloadReader S σ → Prop where
  -- The next chunk of the plaintext, which others follow.
  | middle {chunk : Bytes} {t : σ} (hchunk : IsChunk plaintext r.counter false chunk) :
      ChunkStep plaintext r
        (.ok (), { r with inner := t, counter := r.counter + 1, window := .ofBytes chunk })
  -- The last chunk of the plaintext.
  | last {chunk : Bytes} {t : σ} (hchunk : IsChunk plaintext r.counter true chunk) :
      ChunkStep plaintext r (.ok (), { r with inner := t, done := true, window := .ofBytes chunk })
  -- The source failed, and what was read of the chunk is lost.
  | broken {e : IoError} {t : σ} : ChunkStep plaintext r (.error e, { r with inner := t })
  | fault {e : PayloadError} {t : σ} :
      ChunkStep plaintext r
        (.error (.payload e), { r with inner := t, failed := some e, window := {} })

/-- Whatever the source answers, the next chunk is the one that is due, or none opens. -/
theorem nextChunk_step [ByteSource σ] {r : PayloadReader S σ} (hideal : Ideal S r.key plaintext)
    (hlen : plaintext.length ≤ counterLimit * chunkSize) (hstarted : Started plaintext r.counter) :
    ChunkStep plaintext r r.nextChunk := by
  simp only [nextChunk, fail]
  split
  · exact .broken
  · rename_i chunk s hread
    split
    · exact .fault
    · split
      · exact .fault
      · split
        · exact .fault
        · rename_i p hopen
          exact .middle (hideal.isChunk hlen hstarted (of_openChunk_false hopen).2)
        · rename_i p hopen
          have hchunk := hideal.isChunk hlen hstarted (of_openChunk_true hopen)
          -- the probe behind the last chunk: an error there drops the chunk, and a later read
          -- opens what comes next under the same number
          split
          · exact .broken
          · split
            · exact .fault
            · exact .last hchunk

/-! ## One read -/

inductive ReadStep (key : Block 32) (plaintext given : Bytes) (n : Nat) :
    Except IoError Bytes × PayloadReader S σ → Prop where
  -- More of the plaintext, and nothing only at its end.
  | piece {b : Bytes} {r : PayloadReader S σ} (h : Authentic key plaintext r (given ++ b))
      (hend : b = [] → n = 0 ∨ given = plaintext) : ReadStep key plaintext given n (.ok b, r)
  -- An error, which hands out nothing.
  | error {e : IoError} {r : PayloadReader S σ} (h : Authentic key plaintext r given) :
      ReadStep key plaintext given n (.error e, r)

/-- Handing out goes on along the plaintext. -/
theorem Authentic.handOut {r : PayloadReader S σ} {given : Bytes}
    (h : Authentic key plaintext r given) (hfailed : r.failed = none)
    (hspent : r.window.rest = [] → given = plaintext) (n : Nat) :
    ReadStep key plaintext given n (r.handOut n) := by
  have hend : r.window.rest.take n = [] → n = 0 ∨ given = plaintext := by
    intro hnil
    rcases List.take_eq_nil_iff.1 hnil with h0 | hrest
    · exact .inl h0
    · exact .inr (hspent hrest)
  have hmoved :
      given ++ (r.window.take n).1 ++ (r.window.take n).2.rest = given ++ r.window.rest := by
    rw [Window.take_fst, Window.rest_take_snd, List.append_assoc, List.take_append_drop]
  unfold PayloadReader.handOut
  refine .piece ?_ ?_
  · cases h with
    | failed hf _ =>
        rw [hfailed] at hf
        cases hf
    | finished _ hdone hwindow hgiven =>
        exact .finished hfailed hdone (Window.taken_take_snd_le hwindow n) (hmoved.trans hgiven)
    | reading hkey _ hdone hwindow hstarted hgiven =>
        exact .reading hkey hfailed hdone (Window.taken_take_snd_le hwindow n) hstarted
          (hmoved.trans hgiven)
  · rwa [Window.take_fst]

/-- The chunk that a spent window is filled with is the next of the plaintext. -/
theorem Authentic.nextChunk [ByteSource σ] {r : PayloadReader S σ} {given : Bytes}
    (hideal : Ideal S r.key plaintext) (hlen : plaintext.length ≤ counterLimit * chunkSize)
    (hkey : r.key = key) (hfailed : r.failed = none) (hdone : r.done = false)
    (hwindow : r.window.taken ≤ r.window.bytes.size) (hnil : r.window.rest = [])
    (hstarted : Started plaintext r.counter)
    (hgiven : given = plaintext.take (r.counter * chunkSize)) (n : Nat) :
    ReadStep key plaintext given n
      (match r.nextChunk with
      | (.error e, r) => (.error e, r)
      | (.ok (), r) => r.handOut n) := by
  have hstep := nextChunk_step hideal hlen hstarted
  generalize r.nextChunk = answered at hstep ⊢
  cases hstep with
  | @middle chunk t hchunk =>
      have hread : Authentic key plaintext
          ({ r with inner := t, counter := r.counter + 1, window := .ofBytes chunk } :
            PayloadReader S σ) given := by
        refine .reading hkey hfailed hdone (Nat.zero_le _) hchunk.started_next ?_
        rw [Window.rest_ofBytes, hgiven, hchunk.take_append]
      refine hread.handOut hfailed ?_ n
      intro hrest
      rw [Window.rest_ofBytes] at hrest
      exact absurd hrest hchunk.ne_nil
  | @last chunk t hchunk =>
      have hwhole : given ++ chunk = plaintext := by
        rw [hgiven, hchunk.take_append_last]
      have hread : Authentic key plaintext
          ({ r with inner := t, done := true, window := .ofBytes chunk } :
            PayloadReader S σ) given := by
        refine .finished hfailed rfl (Nat.zero_le _) ?_
        rw [Window.rest_ofBytes, hwhole]
      refine hread.handOut hfailed ?_ n
      intro hrest
      rw [Window.rest_ofBytes] at hrest
      rwa [hrest, List.append_nil] at hwhole
  | broken =>
      -- what was read of the chunk is gone, but the number has not moved on
      refine .error (.reading hkey hfailed hdone hwindow hstarted ?_)
      rw [hnil, List.append_nil]
      exact hgiven
  | fault =>
      exact .error (.failed rfl (hgiven ▸ List.take_prefix _ _))

/-- One read keeps the invariant. -/
theorem Authentic.read [ByteSource σ] {r : PayloadReader S σ} {given : Bytes}
    (hideal : Ideal S key plaintext) (hlen : plaintext.length ≤ counterLimit * chunkSize)
    (h : Authentic key plaintext r given) (n : Nat) : ReadStep key plaintext given n (r.read n) := by
  have hstored := h
  have hempty : Authentic key plaintext r (given ++ []) := by
    rwa [List.append_nil]
  cases h with
  | failed hfailed _ =>
      rw [read_of_failed hfailed]
      exact .error hstored
  | finished hfailed hdone _ hgiven =>
      by_cases hn : n = 0
      · rw [hn, read_zero hfailed]
        exact .piece hempty fun _ => .inl rfl
      rw [read_of_held hfailed hn (.inr hdone)]
      refine hstored.handOut hfailed ?_ n
      intro hrest
      rwa [hrest, List.append_nil] at hgiven
  | reading hkey hfailed hdone hwindow hstarted hgiven =>
      by_cases hn : n = 0
      · rw [hn, read_zero hfailed]
        exact .piece hempty fun _ => .inl rfl
      have hspent_iff := Window.isSpent_iff hwindow
      cases hspent : r.window.isSpent with
      | true =>
          have hnil := hspent_iff.1 hspent
          rw [hnil, List.append_nil] at hgiven
          rw [read_of_spent hfailed hn hspent hdone]
          exact Authentic.nextChunk (hkey ▸ hideal) hlen hkey hfailed hdone hwindow hnil hstarted
            hgiven n
      | false =>
          have hne : r.window.rest ≠ [] := by
            intro hnil
            cases hspent.symm.trans (hspent_iff.2 hnil)
          rw [read_of_held hfailed hn (.inl hspent)]
          exact hstored.handOut hfailed (fun hrest => absurd hrest hne) n

/-! ## Read after read -/

def handedOut (answers : List (Except IoError Bytes)) : Bytes :=
  answers.flatMap fun
    | .ok b => b
    | .error _ => []

/-- A run of reads keeps the invariant, and sees the end only where the plaintext ends. -/
theorem Authentic.readEach [ByteSource σ] {r : PayloadReader S σ} {given : Bytes}
    (hideal : Ideal S key plaintext) (hlen : plaintext.length ≤ counterLimit * chunkSize)
    (h : Authentic key plaintext r given) (sizes : List Nat) (i : Nat) :
    given ++ handedOut ((ByteSource.readEach r sizes).1.take i) <+: plaintext ∧
      ((ByteSource.readEach r sizes).1[i]? = some (.ok []) → sizes[i]? ≠ some 0 →
        given ++ handedOut ((ByteSource.readEach r sizes).1.take i) = plaintext) := by
  -- read by read; `given` takes in what each of them hands out
  induction sizes generalizing r given i with
  | nil =>
      refine ⟨by simpa [ByteSource.readEach, handedOut] using h.isPrefix, ?_⟩
      intro hend
      simp [ByteSource.readEach] at hend
  | cons n sizes ih =>
      have hstep := h.read hideal hlen n
      simp only [ByteSource.readEach]
      change ReadStep key plaintext given n (ByteSource.read r n) at hstep
      generalize ByteSource.read r n = answered at hstep ⊢
      cases hstep with
      | @piece b r' hread hend =>
          cases i with
          | zero =>
              simp only [List.take_zero, handedOut, List.flatMap_nil, List.append_nil,
                List.getElem?_cons_zero, Option.some.injEq, Except.ok.injEq, ne_eq]
              exact ⟨h.isPrefix, fun hnil hn => (hend hnil).resolve_left hn⟩
          | succ i =>
              simpa [handedOut] using ih hread i
      | error hread =>
          cases i with
          | zero =>
              simp only [List.take_zero, handedOut, List.flatMap_nil, List.append_nil]
              exact ⟨h.isPrefix, fun hnil => by simp at hnil⟩
          | succ i =>
              simpa [handedOut] using ih hread i

/-- No source makes a payload reader hand out anything but the plaintext from its beginning on, and
none makes it end before the plaintext does.  Over a source without errors it ends without a fault
just if the source gives what a payload writer leaves for the plaintext.

The bound on the plaintext is that of the nonces: with more chunks than a nonce can number, two of
them would share one, and nothing would tell which comes first. -/
theorem reads_authentic {S : Suite} {σ : Type} [ByteSource σ] {key : Block 32}
    {pieces : List Bytes} (hideal : Ideal S key pieces.flatten)
    (hlen : pieces.flatten.length ≤ counterLimit * chunkSize) (source : σ) :
    (∀ sizes i,
      handedOut ((ByteSource.readEach (start S key source) sizes).1.take i) <+: pieces.flatten ∧
        ((ByteSource.readEach (start S key source) sizes).1[i]? = some (.ok []) →
          sizes[i]? ≠ some 0 →
          handedOut ((ByteSource.readEach (start S key source) sizes).1.take i) =
            pieces.flatten)) ∧
      ∀ sealed, Delivers source sealed →
        ((∃ q r, readToEnd (start S key source) = (.ok q, r)) ↔ Leaves S key pieces sealed) ∧
          ∀ q r, readToEnd (start S key source) = (.ok q, r) → q = pieces.flatten := by
  refine ⟨?_, ?_⟩
  · intro sizes i
    have hstart : Authentic key pieces.flatten (start S key source) [] :=
      .reading rfl rfl rfl (Nat.zero_le _) (.inl rfl) (by simp [start, Window.rest])
    simpa using hstart.readEach hideal hlen sizes i
  · intro sealed hsource
    refine ⟨⟨?_, ?_⟩, ?_⟩
    · rintro ⟨q, hread⟩
      have hopened := (readToEnd_start_iff hsource).1 hread
      exact leaves_iff.2 ((hideal.openAll_iff hlen).1 hopened).2
    · intro hleaves
      refine ⟨pieces.flatten, (readToEnd_start_iff hsource).2 ?_⟩
      exact (hideal.openAll_iff hlen).2 ⟨rfl, leaves_iff.1 hleaves⟩
    · intro q r hread
      have hopened := (readToEnd_start_iff hsource).1 ⟨r, hread⟩
      exact ((hideal.openAll_iff hlen).1 hopened).1

/-- Three bytes, fed back with a byte too many, one read failing on the way and reads going on
after the refusal; and fed back as they were. -/
theorem reads_authentic_three_bytes :
    handedOut ((ByteSource.readEach (start (admitting .standard (chunksFrom 0 [1, 2, 3]))
        (Block.zeros 32)
        ({ data := sealAll .standard (Block.zeros 32) [1, 2, 3] ++ [0], portions := #[7],
           faults := [(9, .device .other "")] } : ScriptedSource)) [2, 2, 2, 0, 9]).1.take 4)
      <+: [1, 2, 3] ∧
    ∃ q r, readToEnd (start (admitting .standard (chunksFrom 0 [1, 2, 3])) (Block.zeros 32)
      (ScriptedSource.ofBytes (sealAll .standard (Block.zeros 32) [1, 2, 3]))) = (.ok q, r) := by
  have hideal : Ideal (admitting .standard (chunksFrom 0 [1, 2, 3])) (Block.zeros 32)
      [[1], [2, 3]].flatten :=
    ideal_admitting Suite.standard_opensSealed _ _
  have hlen : ([[1], [2, 3]] : List Bytes).flatten.length ≤ counterLimit * chunkSize := by
    decide
  refine ⟨((reads_authentic hideal hlen _).1 _ _).1, ?_⟩
  refine ((reads_authentic hideal hlen _).2 _ (ScriptedSource.delivers_ofBytes _)).1.2 ?_
  exact leaves_iff.2 (sealAll_admitting _ _ _).symm

end PayloadReader
end AgeCrypt
