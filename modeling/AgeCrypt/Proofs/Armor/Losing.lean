import AgeCrypt.Base64.Standard
import AgeCrypt.Proofs.Armor.Writing
import AgeCrypt.Proofs.Io.Calls
import AgeCrypt.Proofs.Io.Watching

/-!
# An armor writer that has lost a line

A write takes all that it is offered before it writes the lines that are filled.  If the sink
refuses one of them the write is refused too, but nothing is taken back: the sink keeps what it took
of that line, the run it stands for is gone, and what is behind it stays pending.  The writer goes
on after that as if nothing had happened.  What is pending when it is finished makes one line,
however long.

`Released` keeps the account of it: all that was brought was released or is pending, and the sink
holds what it took of the lines of what was released.  Every call keeps it, a write that is refused
cuts one line and no other call cuts any (`Going.perform`).  So the text in the end is what the
lines released and the bytes pending make of it, and it is the armored form of what was accepted if
no write was refused (`contents_after_refusals`).
-/

namespace AgeCrypt
namespace ArmorWriter

open Armor ByteSink HoldingSink

section

variable [Base64]

/-! ## What is released -/

/-- A run that is held back no longer, and what the sink took of its line. -/
structure Release where
  run : Bytes
  taken : Bytes
  length_run : run.length = bytesPerLine
  taken_isPrefix : taken <+: dataLine run

def Release.isCut (r : Release) : Bool :=
  decide (r.taken ≠ dataLine r.run)

def Release.whole (run : Bytes) (h : run.length = bytesPerLine) : Release where
  run := run
  taken := dataLine run
  length_run := h
  taken_isPrefix := List.prefix_rfl

theorem Release.isCut_whole {run : Bytes} (h : run.length = bytesPerLine) :
    (whole run h).isCut = false :=
  decide_eq_false (not_not_intro rfl)

def cuts (released : List Release) : Nat :=
  released.countP Release.isCut

theorem cuts_append (a b : List Release) : cuts (a ++ b) = cuts a + cuts b :=
  List.countP_append

/-- Where no line was cut, the sink took all lines in full. -/
theorem taken_of_cuts {released : List Release} (h : cuts released = 0) :
    released.flatMap Release.taken = (released.map Release.run).flatMap dataLine := by
  rw [List.flatMap_map, List.flatMap_def, List.flatMap_def]
  refine congrArg List.flatten (List.map_congr_left fun r hr => ?_)
  have hwhole := List.countP_eq_zero.1 h r hr
  rwa [Release.isCut, decide_eq_true_eq, ne_eq, Decidable.not_not] at hwhole

variable {τ : Type} [ByteSink τ] [HoldingSink τ]

/-- All that was brought was released or is pending, and the sink holds, behind what it held, what
it took of the lines. -/
structure Released (held brought : Bytes) (released : List Release) (w : ArmorWriter τ) :
    Prop where
  brought_eq : brought = released.flatMap Release.run ++ w.pending
  contents_eq : contents w.inner = held ++ released.flatMap Release.taken

/-- While no line was cut, no line is pending in full. -/
structure Going (held brought : Bytes) (released : List Release) (w : ArmorWriter τ) : Prop
    extends Released held brought released w where
  length_lt : cuts released = 0 → w.pending.length < bytesPerLine

/-- What becomes of the pending bytes that fill lines: all those lines are written, or one is cut
and the rest stays pending. -/
inductive Drained (held brought : Bytes) (released : List Release) :
    Except IoError Unit × ArmorWriter τ → Prop where
  | written {v : ArmorWriter τ} {later : List Release} (hcuts : cuts later = 0)
      (hshort : v.pending.length < bytesPerLine)
      (h : Released held brought (released ++ later) v) : Drained held brought released (.ok (), v)
  | refused {e : IoError} {v : ArmorWriter τ} {later : List Release} (hcuts : cuts later = 1)
      (h : Released held brought (released ++ later) v) :
      Drained held brought released (.error e, v)

variable {held brought : Bytes} {released : List Release} {w : ArmorWriter τ}

/-- Bytes that are brought are pending at first. -/
theorem Released.bring (h : Released held brought released w) (b : Bytes) :
    Released held (brought ++ b) released { w with pending := w.pending ++ b } where
  brought_eq := by
    rw [h.brought_eq, List.append_assoc]
  contents_eq := h.contents_eq

/-- The first line is released. -/
theorem Released.release (h : Released held brought released w) {r : Release}
    (hrun : r.run = w.pending.take bytesPerLine) {t : τ}
    (ht : contents t = contents w.inner ++ r.taken) :
    Released held brought (released ++ [r])
      { inner := t, pending := w.pending.drop bytesPerLine } where
  brought_eq := by
    rw [List.flatMap_append, List.flatMap_singleton, hrun, List.append_assoc,
      List.take_append_drop, h.brought_eq]
  contents_eq := by
    rw [ht, h.contents_eq, List.flatMap_append, List.flatMap_singleton, List.append_assoc]

/-- A line that was written in full may stand before. -/
theorem Drained.cons {r : Release} (hwhole : r.isCut = false)
    {result : Except IoError Unit × ArmorWriter τ}
    (h : Drained held brought (released ++ [r]) result) :
    Drained held brought released result := by
  have hcons : ∀ later, cuts (r :: later) = cuts later := by
    intro later
    rw [cuts, List.countP_cons_of_neg (by rw [hwhole]; exact Bool.false_ne_true), cuts]
  cases h with
  | @written v later hcuts hshort h =>
      rw [List.append_assoc] at h
      exact .written ((hcons later).trans hcuts) hshort h
  | @refused e v later hcuts h =>
      rw [List.append_assoc] at h
      exact .refused ((hcons later).trans hcuts) h

/-- Lines are released one by one, up to the first that is cut. -/
theorem Released.drain (h : Released held brought released w) :
    Drained held brought released w.drain := by
  fun_induction ArmorWriter.drain w generalizing released with
  | case1 w hshort =>
      have hpending : w.pending.length < bytesPerLine := by
        rw [List.length_take] at hshort
        omega
      have hnone : cuts [] = 0 := rfl
      refine .written hnone hpending ?_
      rwa [List.append_nil]
  | case2 w hfull t hw ih =>
      have hline := length_take_of_full hfull
      exact (ih (h.release (r := .whole _ hline) rfl (contents_of_writeAll hw))).cons
        (Release.isCut_whole hline)
  | case3 w hfull e t hw =>
      -- the run is gone, and what is behind it is pending still
      rcases contents_of_writeAll_error hw with ⟨taken, hprefix, hpart, ht⟩
      let last : Release := ⟨_, taken, length_take_of_full hfull, hprefix⟩
      have hcut : last.isCut = true := decide_eq_true hpart
      have hone : cuts [last] = 1 := by
        rw [cuts, List.countP_cons_of_pos hcut, List.countP_nil]
      exact .refused hone (h.release rfl ht)

/-! ## Calls -/

omit [HoldingSink τ] in
/-- Writing all of something is one write. -/
theorem perform_writeAll {b : Bytes} (hne : b ≠ []) :
    perform w (.writeAll b) = perform w (.write b) := by
  have hwrite : ByteSink.write w b = ArmorWriter.write w b := rfl
  rw [ArmorWriter.write] at hwrite
  rw [perform, perform]
  rcases hdrain : ArmorWriter.drain { w with pending := w.pending ++ b } with ⟨e | u, v⟩
  · rw [hdrain] at hwrite
    rw [writeAll_of_error hne hwrite, not_interrupted_of_drain hdrain, hwrite]
    rfl
  · rw [hdrain] at hwrite
    rw [writeAll_of_all hne hwrite, hwrite]

/-- What a call comes to.  All that it brings is taken, whatever it answers, but a write that is
refused cuts a line; no other call cuts any. -/
structure Performed (held brought : Bytes) (released : List Release) (call : Call)
    (result : Except IoError Nat × ArmorWriter τ) (later : List Release) : Prop where
  going : Going held (brought ++ call.bytes) (released ++ later) result.2
  cuts_eq : cuts later = (call.isRefused result.1).toNat
  accepted_eq : call.isRefused result.1 = false → call.accepted result.1 = call.bytes

/-- A write either keeps the writer going or cuts a line; nothing that it brings is dropped. -/
theorem Going.write (h : Going held brought released w) (b : Bytes) :
    ∃ later, Performed held brought released (.write b) (ByteSink.perform w (.write b)) later := by
  have hdrained := (h.toReleased.bring b).drain
  rw [ByteSink.perform]
  change ∃ later, Performed held brought released (.write b) (ArmorWriter.write w b) later
  rw [ArmorWriter.write]
  generalize ArmorWriter.drain { w with pending := w.pending ++ b } = result at hdrained ⊢
  cases hdrained with
  | written hcuts hshort hv => exact ⟨_, ⟨hv, fun _ => hshort⟩, hcuts, fun _ => List.take_length⟩
  | refused hcuts hv =>
      -- now that a line is cut, any number of lines may be pending
      refine ⟨_, ⟨hv, fun hzero => ?_⟩, hcuts, fun haccepted => ?_⟩
      · rw [cuts_append] at hzero
        omega
      · cases haccepted

/-- So does any call. -/
theorem Going.perform (h : Going held brought released w) (call : Call) :
    ∃ later, Performed held brought released call (ByteSink.perform w call) later := by
  cases call with
  | write b => exact h.write b
  | writeAll b =>
      by_cases hne : b = []
      · -- writing all of nothing makes no write, so pending lines are left where they are
        subst hne
        have hnothing : ByteSink.perform w (.writeAll []) = (.ok 0, w) := by
          rw [ByteSink.perform, ByteSink.writeAll, if_pos rfl]
          rfl
        rw [hnothing]
        refine ⟨[], ?_, rfl, fun _ => rfl⟩
        simpa only [Call.bytes, List.append_nil] using h
      · rcases h.write b with ⟨later, hgoing, hcuts, haccepted⟩
        rw [perform_writeAll hne]
        generalize ByteSink.perform w (.write b) = result at hgoing hcuts haccepted ⊢
        rcases result with ⟨e | n, v⟩
        all_goals exact ⟨later, hgoing, hcuts, haccepted⟩
  | flush =>
      have hkept : Going held brought released (ByteSink.flush w).2 :=
        ⟨⟨h.brought_eq, (contents_flush w.inner).trans h.contents_eq⟩, h.length_lt⟩
      rw [ByteSink.perform]
      generalize ByteSink.flush w = result at hkept ⊢
      rcases result with ⟨e | u, v⟩
      all_goals
        refine ⟨[], ?_, rfl, fun _ => rfl⟩
        simpa only [Call.bytes, List.append_nil] using hkept

/-- A run of calls cuts as many lines as writes are refused. -/
theorem Going.performEach (h : Going held brought released w) (calls : List Call) :
    let run := ByteSink.performEach w calls
    ∃ later, Going held (brought ++ broughtBy calls) (released ++ later) run.2 ∧
      cuts later = refusals calls run.1 ∧
        (refusals calls run.1 = 0 → acceptedBy calls run.1 = broughtBy calls) := by
  induction calls generalizing brought released w with
  | nil =>
      refine ⟨[], ?_, rfl, fun _ => rfl⟩
      simpa only [ByteSink.performEach, broughtBy, List.flatMap_nil, List.append_nil] using h
  | cons call calls ih =>
      rcases h.perform call with ⟨first, hgoing, hfirst, haccepted⟩
      rcases ih hgoing with ⟨later, hlast, hlater, hrest⟩
      refine ⟨first ++ later, ?_, ?_, fun hnone => ?_⟩
      · rw [broughtBy, List.flatMap_cons, ← List.append_assoc, ← List.append_assoc]
        exact hlast
      · rw [cuts_append, hfirst, hlater]
        exact (refusals_cons ..).symm
      · rw [ByteSink.performEach, refusals_cons, Nat.add_eq_zero_iff, Bool.toNat_eq_zero] at hnone
        rw [broughtBy, List.flatMap_cons, ← haccepted hnone.1]
        exact congrArg (_ ++ ·) (hrest hnone.2)

/-! ## From the start to the end -/

/-- At first nothing is pending, and the sink holds the begin marker. -/
theorem going_start {sink : τ} (h : start sink = .ok w) :
    Going (contents sink ++ (beginMarker ++ [Ascii.newline])) [] [] w := by
  unfold start at h
  split at h
  · rename_i t hmarker
    cases h
    refine ⟨⟨rfl, ?_⟩, fun _ => (by decide : 0 < bytesPerLine)⟩
    have hcontents := contents_of_writeEach hmarker
    simpa only [List.flatten_cons, List.flatten_nil, List.flatMap_nil, List.append_nil] using
      hcontents
  · cases h

theorem flatten_last (b : Bytes) :
    ((if b = [] then [] else [dataLine b]) ++ [endMarker, [Ascii.newline]]).flatten =
      (if b = [] then [] else dataLine b) ++ endMarker ++ [Ascii.newline] := by
  by_cases hnone : b = []
  · simp [hnone]
  · simp [hnone]

/-- All that is pending makes one line. -/
theorem Going.finish (h : Going held brought released w) {t : τ} (hfinish : w.finish = (.ok (), t)) :
    contents t = held ++ (released.flatMap Release.taken
      ++ (if w.pending = [] then [] else dataLine w.pending) ++ endMarker ++ [Ascii.newline]) := by
  unfold ArmorWriter.finish at hfinish
  dsimp only at hfinish
  split at hfinish
  · rename_i u hlast
    have hflushed : contents t = contents u := by
      rw [← contents_flush u, hfinish]
    rw [hflushed, contents_of_writeEach hlast, flatten_last, h.contents_eq]
    simp only [List.append_assoc]
  · cases hfinish

/-- Full runs are written as lines of their own, and the rest goes on behind them. -/
theorem ending_of_runs {runs : List Bytes} (hruns : ∀ run ∈ runs, run.length = bytesPerLine)
    (rest : Bytes) : ending (runs.flatten ++ rest) = runs.flatMap dataLine ++ ending rest := by
  induction runs with
  | nil => rfl
  | cons run runs ih =>
      rw [List.flatten_cons, List.append_assoc, ending_append (hruns run (List.mem_cons_self ..)),
        ih fun r hr => hruns r (List.mem_cons_of_mem _ hr), List.flatMap_cons, List.append_assoc]

/-- If no line was cut, the lines and what makes the last line are those of the armored form. -/
theorem Going.text_eq (h : Going held brought released w) (hwhole : cuts released = 0) :
    text brought = beginMarker ++ [Ascii.newline] ++ (released.flatMap Release.taken
      ++ (if w.pending = [] then [] else dataLine w.pending) ++ endMarker ++ [Ascii.newline]) := by
  have hruns : ∀ run ∈ released.map Release.run, run.length = bytesPerLine := by
    intro run hrun
    rcases List.mem_map.1 hrun with ⟨r, -, rfl⟩
    exact r.length_run
  rw [h.brought_eq, List.flatMap_def, Armor.text_eq, ending_of_runs hruns,
    ending_of_short (h.length_lt hwhole), flatten_last, taken_of_cuts hwhole]
  simp only [List.flatten_cons, List.flatten_nil, List.append_assoc, List.nil_append]

/-- What an armor writer leaves that was finished with success, over any sink and with calls going
on after errors.  All that was brought, by writes that were refused too, was released in runs of 48
bytes or makes the last line; of the line of a run the sink holds all or, just for as many runs as
writes were refused, a part.  So if no write was refused, it holds the armored form of what was
accepted. -/
theorem contents_after_refusals {sink t : τ} (hstart : start sink = .ok w) (calls : List Call)
    (hfinish : (performEach w calls).2.finish = (.ok (), t)) :
    let answers := (performEach w calls).1
    ∃ (released : List Release) (rest : Bytes),
      broughtBy calls = released.flatMap Release.run ++ rest ∧
      cuts released = refusals calls answers ∧
      contents t = contents sink ++ (beginMarker ++ [Ascii.newline]) ++
        (released.flatMap Release.taken ++ (if rest = [] then [] else dataLine rest)
          ++ endMarker ++ [Ascii.newline]) ∧
      (refusals calls answers = 0 → rest.length < bytesPerLine ∧
        contents t = contents sink ++ text (acceptedBy calls answers)) := by
  intro answers
  rcases (going_start hstart).performEach calls with ⟨released, hgoing, hcuts, haccepted⟩
  rw [List.nil_append, List.nil_append] at hgoing
  have hcontents := hgoing.finish hfinish
  refine ⟨released, _, hgoing.brought_eq, hcuts, hcontents, fun hnone => ?_⟩
  have hwhole : cuts released = 0 := hcuts.trans hnone
  refine ⟨hgoing.length_lt hwhole, ?_⟩
  rw [haccepted hnone, hgoing.text_eq hwhole, ← List.append_assoc]
  exact hcontents

end

/-- A sink that fails once, right behind the begin marker. -/
def stumblingSink : ScriptedSink where
  faults := [(35, .fails (.device .other "injected"))]

/-- The first line of 100 bytes is lost: the write is refused, so nothing was accepted, and yet
there stands in the end a line of 72 columns for the other 52 bytes. -/
theorem contents_after_refusals_long_line :
    let calls : List Call := [.write (List.replicate 100 7)]
    let answers : List (Except IoError Nat) := [.error (.device .other "injected")]
    ∃ w v t, start stumblingSink = .ok w ∧ performEach w calls = (answers, v) ∧
      v.finish = (.ok (), t) ∧
      (contents t = beginMarker ++ [Ascii.newline] ++ dataLine (List.replicate 52 7)
          ++ endMarker ++ [Ascii.newline] ∧
        (Base64.encodePadded (List.replicate 52 7)).length = 72 ∧
        text (acceptedBy calls answers) =
          beginMarker ++ [Ascii.newline] ++ endMarker ++ [Ascii.newline]) ∧
      ∃ (released : List Release) (rest : Bytes),
        List.replicate 100 7 = released.flatMap Release.run ++ rest ∧ cuts released = 1 ∧
          contents t = beginMarker ++ [Ascii.newline] ++
            (released.flatMap Release.taken ++ (if rest = [] then [] else dataLine rest)
              ++ endMarker ++ [Ascii.newline]) := by
  intro calls answers
  have hrun : ∃ w v t, start stumblingSink = .ok w ∧ performEach w calls = (answers, v) ∧
      v.finish = (.ok (), t) ∧ contents t = beginMarker ++ [Ascii.newline]
        ++ dataLine (List.replicate 52 7) ++ endMarker ++ [Ascii.newline] := by
    set_option maxRecDepth 4000 in
    exact ⟨_, _, _, by with_unfolding_all rfl, by with_unfolding_all rfl,
      by with_unfolding_all rfl, by with_unfolding_all rfl⟩
  rcases hrun with ⟨w, v, t, hstart, hcalls, hfinish, hcontents⟩
  have hlast : (performEach w calls).2.finish = (.ok (), t) := by
    rw [hcalls, hfinish]
  rcases contents_after_refusals hstart calls hlast with ⟨released, rest, hbrought, hcuts, hall, -⟩
  rw [hcalls] at hcuts
  exact ⟨w, v, t, hstart, hcalls, hfinish,
    ⟨hcontents, by decide +kernel, by decide +kernel⟩, released, rest, hbrought, hcuts, hall⟩

end ArmorWriter
end AgeCrypt
