import AgeCrypt.Io.Scripted
import AgeCrypt.Io.Window

/-!
# Delivery

What a source has to give, whatever the sizes in which it gives it.  `Delivers s data ending` says
that the reads of `s` hand out `data` piece by piece, in pieces of any size, and after that nothing
but `ending`: the end of input, or one and the same error.  Interruptions may come in between at any
time.

It is the largest relation that one read keeps (`Delivers.of_invariant` is the way in,
`Delivers.answer` the way out), so a source over a source is shown to deliver by an invariant of its
own state.  A source that goes on behind an error need not deliver anything; of such a one `Giving`
says what its reads answer up to the first error that is no interruption.

The loops over a source stop there, so they depend on `data` and `ending` alone:

* `Giving.readFull`, `Giving.readExact` — a full read takes a prefix of `data`;
* `readToEnd_of_delivers` — reading to the end gives all of `data`, or the error.

Scripted sources deliver what they hold (`ScriptedSource.delivers`).
-/

namespace AgeCrypt
namespace ByteSource

variable {σ : Type} [ByteSource σ]

/-- What a read of at most `n` bytes may answer while `data` is to come and then `ending`; `holds`
says what is to come after it. -/
inductive Answer (holds : σ → Bytes → Prop) (data : Bytes) (ending : Option IoError) (n : Nat) :
    Except IoError Bytes × σ → Prop where
  -- A piece of the data, which is empty only where nothing was asked for or all is over.
  | piece {b rest : Bytes} {t : σ} (hdata : data = b ++ rest)
      (hend : b = [] → n = 0 ∨ data = [] ∧ ending = none) (ht : holds t rest) :
      Answer holds data ending n (.ok b, t)
  -- An interruption, which changes nothing.
  | pause {e : IoError} {t : σ} (he : e.isInterrupted = true) (ht : holds t data) :
      Answer holds data ending n (.error e, t)
  -- The error at the end, which stays.
  | fault {e : IoError} {t : σ} (he : e.isInterrupted = false) (hdata : data = [])
      (hend : ending = some e) (ht : holds t []) : Answer holds data ending n (.error e, t)

/-- `s` hands out `data`, then meets `ending`: an error, or the end of input. -/
def Delivers (s : σ) (data : Bytes) (ending : Option IoError := none) : Prop :=
  ∃ holds : σ → Bytes → Prop, holds s data ∧
    ∀ t rest n, holds t rest → Answer holds rest ending n (read t n)

namespace Delivers

variable {s t : σ} {data : Bytes} {ending : Option IoError}

/-- A relation that every read keeps shows what a source delivers. -/
theorem of_invariant (holds : σ → Bytes → Prop)
    (hstep : ∀ t rest n, holds t rest → Answer holds rest ending n (read t n))
    (hs : holds s data) : Delivers s data ending :=
  ⟨holds, hs, hstep⟩

/-- One read of a source that delivers. -/
theorem answer (h : Delivers s data ending) (n : Nat) :
    Answer (fun t rest => Delivers t rest ending) data ending n (read s n) := by
  rcases h with ⟨holds, hs, hstep⟩
  have hlift : ∀ {t rest}, holds t rest → Delivers t rest ending :=
    fun ht => of_invariant holds hstep ht
  have hanswer := hstep s data n hs
  generalize read s n = answered at hanswer ⊢
  cases hanswer with
  | piece hdata hend ht => exact .piece hdata hend (hlift ht)
  | pause he ht => exact .pause he (hlift ht)
  | fault he hdata hend ht => exact .fault he hdata hend (hlift ht)

end Delivers

/-! ## Up to the first error -/

/-- What a read of at most `n` bytes may answer while `data` is to come and then `ending`; `gives`
says what is to come after it, and `broken` what is left of that when the error has been met. -/
inductive Answered (gives : σ → Bytes → Prop) (broken : σ → Prop) (data : Bytes)
    (ending : Option IoError) (n : Nat) : Except IoError Bytes × σ → Prop where
  | piece {b rest : Bytes} {t : σ} (hdata : data = b ++ rest)
      (hend : b = [] → n = 0 ∨ data = [] ∧ ending = none) (ht : gives t rest) :
      Answered gives broken data ending n (.ok b, t)
  | pause {e : IoError} {t : σ} (he : e.isInterrupted = true) (ht : gives t data) :
      Answered gives broken data ending n (.error e, t)
  | fault {e : IoError} {t : σ} (he : e.isInterrupted = false) (hdata : data = [])
      (hend : ending = some e) (ht : broken t) : Answered gives broken data ending n (.error e, t)

omit [ByteSource σ] in
/-- A window of which a piece is handed out, with `more` behind it. -/
theorem Answered.of_window {gives : σ → Bytes → Prop} {broken : σ → Prop} {ending : Option IoError}
    {w : Window} {more : Bytes} {n : Nat} {t : σ} (hend : w.rest = [] → more = [] ∧ ending = none)
    (ht : gives t ((w.take n).2.rest ++ more)) :
    Answered gives broken (w.rest ++ more) ending n (.ok (w.take n).1, t) := by
  rw [Window.take_fst]
  rw [Window.rest_take_snd] at ht
  refine .piece ?_ ?_ ht
  · rw [← List.append_assoc, List.take_append_drop]
  · intro hnil
    rcases List.take_eq_nil_iff.1 hnil with h0 | hrest
    · exact .inl h0
    · rcases hend hrest with ⟨rfl, hnone⟩
      exact .inr ⟨by rw [hrest, List.append_nil], hnone⟩

/-- Reads keep what sources give, up to the error at the end. -/
structure Giving (gives : σ → Bytes → Prop) (broken : σ → Prop) (ending : Option IoError) :
    Prop where
  answered : ∀ {s data}, gives s data → ∀ n, Answered gives broken data ending n (read s n)

/-- `s` hands out `data`, then meets `ending`; nothing is said of what it does behind an error. -/
def Gives (s : σ) (data : Bytes) (ending : Option IoError) : Prop :=
  ∃ (gives : σ → Bytes → Prop) (broken : σ → Prop), Giving gives broken ending ∧ gives s data

/-- A source that delivers gives what it delivers. -/
theorem Delivers.giving (ending : Option IoError) :
    Giving (fun (s : σ) data => Delivers s data ending) (fun s => Delivers s [] ending) ending where
  answered := by
    intro s data h n
    have hanswer := h.answer n
    generalize read s n = answered at hanswer ⊢
    cases hanswer with
    | piece hdata hend ht => exact .piece hdata hend ht
    | pause he ht => exact .pause he ht
    | fault he hdata hend ht => exact .fault he hdata hend ht

namespace Giving

variable {gives : σ → Bytes → Prop} {broken : σ → Prop} {s t : σ} {data : Bytes}
  {ending : Option IoError}

/-- What a source gives it delivers, if its error stays. -/
theorem delivers (G : Giving gives broken ending) (hstays : ∀ {s}, broken s → gives s [])
    (h : gives s data) : Delivers s data ending := by
  refine Delivers.of_invariant gives (fun s data n h => ?_) h
  have hanswered := G.answered h n
  generalize read s n = answered at hanswered ⊢
  cases hanswered with
  | piece hdata hend ht => exact .piece hdata hend ht
  | pause he ht => exact .pause he ht
  | fault he hdata hend ht => exact .fault he hdata hend (hstays ht)

/-- A read that gives bytes takes them off the front. -/
theorem of_read_ok (G : Giving gives broken ending) (h : gives s data) {n : Nat} {b : Bytes}
    (hr : read s n = (.ok b, t)) :
    (b = [] → n = 0 ∨ data = [] ∧ ending = none) ∧ ∃ rest, data = b ++ rest ∧ gives t rest := by
  have hanswered := G.answered h n
  rw [hr] at hanswered
  cases hanswered with
  | piece hdata hend ht => exact ⟨hend, _, hdata, ht⟩

/-- A read that fails was interrupted, or has met the error at the end. -/
theorem of_read_error (G : Giving gives broken ending) (h : gives s data) {n : Nat} {e : IoError}
    (hr : read s n = (.error e, t)) :
    (e.isInterrupted = true ∧ gives t data) ∨
      (e.isInterrupted = false ∧ data = [] ∧ ending = some e ∧ broken t) := by
  have hanswered := G.answered h n
  rw [hr] at hanswered
  cases hanswered with
  | pause he ht => exact .inl ⟨he, ht⟩
  | fault he hdata hend ht => exact .inr ⟨he, hdata, hend, ht⟩

/-- A source has only one thing to give and one way to end. -/
theorem unique {given : σ → Bytes → Prop} {spent : σ → Prop} {x y : Option IoError}
    (G : Giving gives broken x) (H : Giving given spent y) {s : σ} {a b : Bytes} (ha : gives s a)
    (hb : given s b) : a = b ∧ x = y := by
  -- byte by byte; the weight pays for bytes and interruptions alike
  cases hr : read s 1 with
  | mk answered t =>
      cases answered with
      | ok got =>
          rcases G.of_read_ok ha hr with ⟨haend, a', rfl, hat⟩
          rcases H.of_read_ok hb hr with ⟨hbend, b', rfl, hbt⟩
          by_cases hgot : got = []
          · rcases (haend hgot).resolve_left Nat.one_ne_zero with ⟨hanil, rfl⟩
            rcases (hbend hgot).resolve_left Nat.one_ne_zero with ⟨hbnil, rfl⟩
            exact ⟨hanil.trans hbnil.symm, rfl⟩
          · have hweight := weight_of_ok hr
            have hpos : 0 < got.length := List.length_pos_iff.2 hgot
            rcases unique G H hat hbt with ⟨hdata, hend⟩
            exact ⟨by rw [hdata], hend⟩
      | error e =>
          have hweight := weight_of_error hr
          rcases G.of_read_error ha hr with ⟨hi, hat⟩ | ⟨hi, rfl, rfl, -⟩
          · rcases H.of_read_error hb hr with ⟨-, hbt⟩ | ⟨hno, -⟩
            · have hless : weight t < weight s := by
                rw [if_pos hi] at hweight
                exact hweight
              exact unique G H hat hbt
            · cases hi.symm.trans hno
          · rcases H.of_read_error hb hr with ⟨hyes, -⟩ | ⟨-, rfl, rfl, -⟩
            · cases hi.symm.trans hyes
            · exact ⟨rfl, rfl⟩
termination_by weight s
decreasing_by
  all_goals omega

end Giving

namespace Delivers

variable {s t : σ} {data : Bytes} {ending : Option IoError}

/-- What is read comes off the front of what is delivered, and nothing is read only at its end. -/
theorem of_read_ok (h : Delivers s data ending) {n : Nat} {b : Bytes}
    (hr : read s n = (.ok b, t)) :
    (b = [] → n = 0 ∨ data = [] ∧ ending = none) ∧
      ∃ rest, data = b ++ rest ∧ Delivers t rest ending :=
  (giving ending).of_read_ok h hr

/-- An interruption changes nothing; any other error is the one at the end, and stays there. -/
theorem of_read_error (h : Delivers s data ending) {n : Nat} {e : IoError}
    (hr : read s n = (.error e, t)) :
    (e.isInterrupted = true ∧ Delivers t data ending) ∨
      (e.isInterrupted = false ∧ data = [] ∧ ending = some e ∧ Delivers t [] ending) :=
  (giving ending).of_read_error h hr

/-- What a source delivers is determined by its reads. -/
theorem unique {a b : Bytes} {x y : Option IoError} (ha : Delivers s a x) (hb : Delivers s b y) :
    a = b ∧ x = y :=
  (giving x).unique (giving y) ha hb

end Delivers

/-! ## Loops over a source -/

def gathered (data : Bytes) : Option IoError → Except IoError Bytes
  | none => .ok data
  | some e => .error e

theorem append_append_list (acc : Array UInt8) (a b : Bytes) : acc ++ a ++ b = acc ++ (a ++ b) := by
  apply Array.toList_inj.1
  simp

inductive FullRead (gives : σ → Bytes → Prop) (data : Bytes) (ending : Option IoError) (n : Nat)
    (acc : Array UInt8) : Except IoError (Array UInt8) × σ → Prop where
  -- The data or the end of input can serve it.
  | full {t : σ} (hn : n ≤ data.length ∨ ending = none) (ht : gives t (data.drop n)) :
      FullRead gives data ending n acc (.ok (acc ++ data.take n), t)
  -- The error at the end comes first.
  | broken {e : IoError} {t : σ} (hn : data.length < n) (hend : ending = some e) :
      FullRead gives data ending n acc (.error e, t)

namespace Giving

variable {gives : σ → Bytes → Prop} {broken : σ → Prop} {s t : σ} {data : Bytes}
  {ending : Option IoError}

/-- A full read gets as much as there is room for, or all there is, or meets the error at the end.
-/
theorem readFullFrom (G : Giving gives broken ending) (h : gives s data) (n : Nat)
    (acc : Array UInt8) :
    FullRead gives data ending n acc (ByteSource.readFullFrom s n acc) := by
  -- read by read; `data` is what is still to come, so it shrinks with each piece
  fun_induction ByteSource.readFullFrom s n acc generalizing data with
  | case1 s acc =>
      have hread : FullRead gives data ending 0 acc (.ok (acc ++ data.take 0), s) :=
        .full (.inl (Nat.zero_le _)) h
      simpa using hread
  | case2 s n acc hn0 t hr =>
      rcases G.of_read_ok h hr with ⟨hend, rest, hdata, ht⟩
      -- nothing came although something was asked for, so all is over
      rcases hend rfl with h0 | ⟨hnil, hnone⟩
      · exact absurd h0 hn0
      · have hrest : rest = [] := by
          rw [hnil] at hdata
          exact hdata.symm
        have hread : FullRead gives data ending n acc (.ok (acc ++ data.take n), t) := by
          refine .full (.inr hnone) ?_
          rw [hnil, List.drop_nil, ← hrest]
          exact ht
        simpa [hnil] using hread
  | case3 s n acc hn0 x b t hr ih =>
      rcases G.of_read_ok h hr with ⟨-, rest, rfl, ht⟩
      have hle : (x :: b).length ≤ n := length_le hr
      have htake : acc ++ (x :: b) ++ rest.take (n - (x :: b).length) =
          acc ++ (x :: b ++ rest).take n := by
        rw [List.take_append, List.take_of_length_le hle, append_append_list]
      have hdrop : rest.drop (n - (x :: b).length) = (x :: b ++ rest).drop n := by
        rw [List.drop_append, List.drop_of_length_le hle, List.nil_append]
      have hread := ih ht
      generalize ByteSource.readFullFrom t (n - (x :: b).length) (acc ++ (x :: b)) = answered
        at hread ⊢
      cases hread with
      | full hn hu =>
          rw [htake]
          refine .full (hn.imp_left fun hn => ?_) (hdrop ▸ hu)
          rw [List.length_append]
          omega
      | broken hn hend =>
          refine .broken ?_ hend
          rw [List.length_append]
          omega
  | case4 s n acc hn0 e t hr hi ih =>
      rcases G.of_read_error h hr with ⟨-, ht⟩ | ⟨hno, -⟩
      · exact ih ht
      · cases hi.symm.trans hno
  | case5 s n acc hn0 e t hr hi =>
      rcases G.of_read_error h hr with ⟨hyes, -⟩ | ⟨-, hnil, hsome, -⟩
      · exact absurd hyes hi
      · refine .broken ?_ hsome
        rw [hnil]
        exact Nat.pos_of_ne_zero hn0

theorem readFull (G : Giving gives broken ending) (h : gives s data) (n : Nat) :
    FullRead gives data ending n #[] (ByteSource.readFull s n) :=
  G.readFullFrom h n #[]

/-- An exact read of what is there. -/
theorem readExact (G : Giving gives broken ending) {n : Nat} {b : Block n}
    (h : gives s (b.bytes ++ data)) : ∃ t, ByteSource.readExact s n = (.ok b, t) ∧ gives t data := by
  have htake : (b.bytes ++ data).take n = b.bytes := List.take_left' b.length_eq
  have hdrop : (b.bytes ++ data).drop n = data := List.drop_left' b.length_eq
  have hread := G.readFull h n
  unfold ByteSource.readExact
  generalize ByteSource.readFull s n = answered at hread ⊢
  cases hread with
  | full hn ht =>
      rw [hdrop] at ht
      exact ⟨_, by simp [htake], ht⟩
  | broken hn hend =>
      rw [List.length_append, b.length_eq] at hn
      exact absurd hn (Nat.not_lt.2 (Nat.le_add_right ..))

/-- An exact read that succeeds took its bytes off the front. -/
theorem of_readExact_ok (G : Giving gives broken ending) {n : Nat} {b : Block n} (h : gives s data)
    (hr : ByteSource.readExact s n = (.ok b, t)) :
    ∃ rest, data = b.bytes ++ rest ∧ gives t rest := by
  have hread := G.readFull h n
  unfold ByteSource.readExact at hr
  generalize ByteSource.readFull s n = answered at hread hr
  cases hread with
  | full hn ht =>
      dsimp only at hr
      split at hr
      · rename_i b' hb
        cases hr
        have hbytes : b.bytes = data.take n := by
          simpa using Block.bytes_of_ofBytes? hb
        exact ⟨data.drop n, by rw [hbytes, List.take_append_drop], ht⟩
      · cases hr
  | broken hn hend => cases hr

end Giving

/-- A full read of a source that delivers and does not fail. -/
theorem readFull_of_delivers {s : σ} {data : Bytes} (h : Delivers s data) (n : Nat) :
    ∃ t, readFull s n = (.ok (data.take n).toArray, t) ∧ Delivers t (data.drop n) := by
  have hread := (Delivers.giving none).readFull h n
  generalize readFull s n = answered at hread ⊢
  cases hread with
  | full _ ht => exact ⟨_, by simp, ht⟩
  | broken _ hend => cases hend

end ByteSource

/-! ## Sizes -/

namespace Gathering

theorem limit_start (size : Nat) : 0 < (start size).limit := by
  unfold start reserve
  dsimp only
  split <;> exact Nat.zero_lt_succ _

/-- The limit on a portion never becomes zero. -/
theorem limit_accept {g : Gathering} (h : 0 < g.limit) (size n : Nat) :
    0 < (g.accept size n).limit := by
  have hreserve : ∀ k, 0 < (g.reserve size k).limit := by
    intro k
    unfold reserve
    split <;> exact h
  unfold accept
  split
  · exact hreserve n
  · split
    · exact Nat.mul_pos (by decide) h
    · exact hreserve probeSize

/-- Something is asked for every time. -/
theorem request_ne_zero {g : Gathering} (h : 0 < g.limit) (size : Nat) : g.request size ≠ 0 := by
  unfold request
  split
  · decide
  · have hroom : size + probeSize ≤ (g.ready size).capacity := by
      unfold ready reserve
      split
      · assumption
      · simp only [Nat.max_def]
        split <;> split <;> omega
    simp only [portion, probeSize] at hroom ⊢
    omega

end Gathering

namespace ByteSource

variable {σ : Type} [ByteSource σ]

/-- Reading to the end gathers all that is delivered, unless an error stands at the end. -/
theorem readToEndFrom_of_delivers {s : σ} {g : Gathering} (acc : Array UInt8) {data : Bytes}
    {ending : Option IoError} (h : Delivers s data ending) (hg : 0 < g.limit) :
    ∃ t, readToEndFrom s g acc = ((gathered data ending).map (fun b : Bytes => acc ++ b), t) := by
  fun_induction readToEndFrom s g acc generalizing data with
  | case1 s g acc t hr =>
      rcases h.of_read_ok hr with ⟨hend, rest, hdata, ht⟩
      rcases hend rfl with h0 | ⟨hnil, hnone⟩
      · exact absurd h0 (Gathering.request_ne_zero hg _)
      · subst hnil hnone
        exact ⟨t, by simp [gathered, Except.map]⟩
  | case2 s g acc x b t hr ih =>
      rcases h.of_read_ok hr with ⟨-, rest, rfl, ht⟩
      rcases ih ht (Gathering.limit_accept hg _ _) with ⟨u, hu⟩
      refine ⟨u, hu.trans ?_⟩
      cases ending with
      | none => simp only [gathered, Except.map, append_append_list]
      | some e => rfl
  | case3 s g acc e t hr hi ih =>
      rcases h.of_read_error hr with ⟨-, ht⟩ | ⟨hno, -⟩
      · exact ih ht hg
      · simp [hi] at hno
  | case4 s g acc e t hr hi =>
      rcases h.of_read_error hr with ⟨hyes, -⟩ | ⟨-, -, hsome, -⟩
      · exact absurd hyes hi
      · subst hsome
        exact ⟨t, rfl⟩

/-- Reading to the end gathers all that is delivered. -/
theorem readToEnd_of_delivers {s : σ} {data : Bytes} {ending : Option IoError}
    (h : Delivers s data ending) : ∃ t, readToEnd s = (gathered data ending, t) := by
  rcases readToEndFrom_of_delivers #[] h (Gathering.limit_start 0) with ⟨t, ht⟩
  refine ⟨t, ?_⟩
  unfold readToEnd
  rw [ht]
  cases ending <;> simp [gathered, Except.map]

end ByteSource

/-! ## Scripted sources -/

namespace ScriptedSource

open ByteSource

/-- A read of a source that moves on may give something. -/
theorem allowance_pos {s : ScriptedSource} {n : Nat} (hn : n ≠ 0)
    (hportions : ∀ p ∈ s.portions, 0 < p)
    (hplace : ∀ f ∈ s.faults.head?, s.given < f.1) : 0 < s.allowance n := by
  have hasked : 0 < n := Nat.pos_of_ne_zero hn
  have hroom : ∀ place e rest, s.faults = (place, e) :: rest → 0 < place - s.given := by
    intro place e rest hfaults
    have hlt : s.given < place := hplace (place, e) (by simp [hfaults])
    exact Nat.sub_pos_of_lt hlt
  unfold allowance
  split
  · rename_i portion hp
    have hportion : 0 < min n portion :=
      Nat.lt_min.2 ⟨hasked, hportions portion (Array.mem_of_getElem? hp)⟩
    split
    · exact hportion
    · rename_i place e rest hfaults
      exact Nat.lt_min.2 ⟨hportion, hroom place e rest hfaults⟩
  · split
    · exact hasked
    · rename_i place e rest hfaults
      exact Nat.lt_min.2 ⟨hasked, hroom place e rest hfaults⟩

/-- A scripted source that moves on and is at most interrupted delivers what it holds. -/
theorem delivers {s : ScriptedSource} (hportions : ∀ p ∈ s.portions, 0 < p)
    (hfaults : ∀ f ∈ s.faults, f.2.isInterrupted = true) : Delivers s s.data := by
  refine Delivers.of_invariant
    (fun t data => t.data = data ∧ (∀ p ∈ t.portions, 0 < p) ∧
      ∀ f ∈ t.faults, f.2.isInterrupted = true) ?_ ⟨rfl, hportions, hfaults⟩
  rintro t data n ⟨rfl, hportions, hfaults⟩
  have hgive (hplace : ∀ f ∈ t.faults.head?, t.given < f.1) :
      Answer (fun u rest => u.data = rest ∧ (∀ p ∈ u.portions, 0 < p) ∧
        ∀ f ∈ u.faults, f.2.isInterrupted = true) t.data none n
        (.ok (t.give n).1, (t.give n).2) := by
    refine .piece (List.take_append_drop (t.allowance n) t.data).symm ?_ ⟨rfl, hportions, hfaults⟩
    intro hnil
    by_cases hn : n = 0
    · exact .inl hn
    · have hpos := allowance_pos hn hportions hplace
      -- before its next fault the script gives something, unless nothing is left
      rcases List.take_eq_nil_iff.1 hnil with h0 | hdata
      · omega
      · exact .inr ⟨hdata, rfl⟩
  change Answer _ _ _ _ (ScriptedSource.read t n)
  unfold ScriptedSource.read
  split
  · rename_i place e rest hf
    by_cases hplace : place ≤ t.given
    · rw [if_pos hplace]
      refine .pause (hfaults (place, e) (by simp [hf])) ⟨rfl, hportions, ?_⟩
      intro f hmem
      exact hfaults f (by simp [hf, hmem])
    · rw [if_neg hplace]
      exact hgive (by simpa [hf] using hplace)
  · rename_i hf
    exact hgive (by simp [hf])

/-- A byte string in memory delivers itself. -/
theorem delivers_ofBytes (data : Bytes) : Delivers (ofBytes data) data :=
  delivers (s := ofBytes data) (by simp [ofBytes]) (by simp [ofBytes])

end ScriptedSource

end AgeCrypt
