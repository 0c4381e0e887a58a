import AgeCrypt.Base64.Standard
import AgeCrypt.Proofs.Armor.Reading
import AgeCrypt.Proofs.Armor.Writing

/-!
# Which texts an armor reader takes

An armor reader gives bytes to the end of a text just if the text spells the lines of the armored
one, whatever the sizes of the reads and of the pieces in which the text comes
(`accepts_exactly_spelled`).

One way is `delivers_of_spells`.  For the other, each step that succeeds is followed backwards: what
is unread behind a line was unread, with the line, before it (`of_fill_ok`, `of_read_ok`), so what a
run to the end has given was unread when it began (`unread_of_readAllBy`).
-/

namespace AgeCrypt

open ByteSource Buffered

/-! ## Reads of any sizes -/

namespace ByteSource

variable {σ : Type} [ByteSource σ]

/-- All that comes of reads of at most the given numbers of bytes, one after another, until one of
them gives nothing.  An interrupted read is followed by the next one. -/
def readAllBy (sizes : Nat → Nat) (s : σ) : Except IoError Bytes × σ :=
  match _h : read s (sizes 0) with
  | (.ok [], t) => (.ok [], t)
  | (.ok (x :: b), t) =>
      match readAllBy (fun i => sizes (i + 1)) t with
      | (.ok rest, u) => (.ok (x :: b ++ rest), u)
      | (.error e, u) => (.error e, u)
  | (.error e, t) =>
      if e.isInterrupted then readAllBy (fun i => sizes (i + 1)) t else (.error e, t)
termination_by weight s
decreasing_by
  · have := weight_of_ok _h
    simp only [List.length_cons] at this
    omega
  · rename_i hi
    have := weight_of_error _h
    simp only [hi, if_true] at this
    omega

/-- Whatever the sizes, all that is delivered comes. -/
theorem readAllBy_of_delivers {sizes : Nat → Nat} (hsizes : ∀ i, sizes i ≠ 0) {s : σ} {data : Bytes}
    (h : Delivers s data) : ∃ t, readAllBy sizes s = (.ok data, t) := by
  fun_induction readAllBy sizes s generalizing data with
  | case1 sizes s t hr =>
      rcases h.of_read_ok hr with ⟨hend, rest, hdata, -⟩
      rcases hend rfl with h0 | ⟨rfl, -⟩
      · exact absurd h0 (hsizes 0)
      · exact ⟨t, rfl⟩
  | case2 sizes s x b t hr rest u hrest ih =>
      rcases h.of_read_ok hr with ⟨-, more, rfl, ht⟩
      rcases ih (fun i => hsizes (i + 1)) ht with ⟨v, hv⟩
      cases hrest.symm.trans hv
      exact ⟨u, rfl⟩
  | case3 sizes s x b t hr e u hrest ih =>
      rcases h.of_read_ok hr with ⟨-, more, -, ht⟩
      rcases ih (fun i => hsizes (i + 1)) ht with ⟨v, hv⟩
      cases hrest.symm.trans hv
  | case4 sizes s e t hr hi ih =>
      rcases h.of_read_error hr with ⟨-, ht⟩ | ⟨hno, -⟩
      · exact ih (fun i => hsizes (i + 1)) ht
      · cases hi.symm.trans hno
  | case5 sizes s e t hr hi =>
      rcases h.of_read_error hr with ⟨hyes, -⟩ | ⟨-, -, hsome, -⟩
      · exact absurd hyes hi
      · cases hsome

end ByteSource

namespace Armor

variable [Base64]

/-! ## Data lines -/

/-- A line that spells less than others that are not the last is short or ends in padding. -/
theorem last_of_short {piece : Bytes} (hlen : piece.length < bytesPerLine) :
    ((Base64.encodePadded piece).length < columnsPerLine ||
      (Base64.encodePadded piece).getLast? == some Base64.padding) = true := by
  rw [Bool.or_eq_true, decide_eq_true_eq, beq_iff_eq]
  by_cases hgroups : piece.length % 3 = 0
  · refine .inl ?_
    rw [Base64.length_encodePadded]
    simp only [bytesPerLine, columnsPerLine] at hlen ⊢
    omega
  · exact .inr (Base64.getLast?_encodePadded hgroups)

/-- What a line of an armored text other than the markers spells. -/
theorem of_decodePadded? {line piece : Bytes} (hne : line ≠ []) (hlen : line.length ≤ columnsPerLine)
    (h : Base64.decodePadded? line = some piece) :
    line = Base64.encodePadded piece ∧ piece ≠ [] ∧ piece.length ≤ bytesPerLine := by
  have hline := Base64.encodePadded_of_decodePadded? h
  subst hline
  refine ⟨rfl, ?_, ?_⟩
  · rintro rfl
    exact hne Base64.encodePadded_nil
  · rw [Base64.length_encodePadded] at hlen
    simp only [bytesPerLine, columnsPerLine] at hlen ⊢
    omega

theorem endMarker_mem_bodyLines (file : Bytes) : endMarker ∈ bodyLines file :=
  List.mem_append_right _ (List.mem_singleton_self _)

end Armor

namespace ArmorReader

open Armor

variable {σ : Type} [ByteSource σ] {r s : ArmorReader σ} {text : Bytes}

/-! ## One line -/

/-- The line that was read is spelled in front of whatever lines are spelled behind it. -/
theorem of_nextLine_some {line : Bytes} (h : r.inner.Holds text)
    (hr : r.nextLine = (.ok (some line), s)) :
    s.window = r.window ∧ s.progress = r.progress ∧ ∃ rest, s.inner.Holds rest ∧
      ∀ ls, ls = [] ∨ endMarker ∈ ls → Spells ls rest → Spells (line :: ls) text := by
  unfold nextLine at hr
  split at hr
  · cases hr
  · cases hr
  · rename_i x tail b hread
    split at hr
    · cases hr
    · cases hr
      refine ⟨rfl, rfl, ?_⟩
      rcases h.of_readLine_ok hread with ⟨raw, rest, hraw, hgot, rfl, hheld⟩ | ⟨hnone, hgot, hheld⟩
      · refine ⟨rest, hheld, fun ls _ hrest => ?_⟩
        rcases exists_trimLine_append_returns hraw with ⟨k, hk⟩
        have hline : Spells (trimLine raw :: ls)
            (trimLine raw ++ returns k ++ Ascii.newline :: rest) := .line k hrest
        rw [← hk] at hline
        rw [hgot, trimLine_append_newline]
        exact hline
      · refine ⟨[], hheld, fun ls hls hrest => ?_⟩
        -- nothing follows the last line, so no other line is spelled there
        have hnil : ls = [] := by
          refine hls.resolve_right fun hmem => ?_
          exact absurd (hrest.length_le endMarker hmem) (by decide)
        subst hnil
        rcases exists_trimLine_append_returns hnone with ⟨k, hk⟩
        have hline : Spells [trimLine text] (trimLine text ++ returns k) := .unended k
        rw [← hk] at hline
        rw [hgot]
        exact hline

/-- What follows the end marker is white space. -/
theorem of_finish_ok (h : r.inner.Holds text) (hr : r.finish = (.ok (), s)) :
    s.window = r.window ∧ s.progress = .done ∧ Spells [] text := by
  rcases h.readToEnd with ⟨b, hread⟩
  simp only [finish, hread, gathered] at hr
  split at hr
  · rename_i hwhite
    cases hr
    exact ⟨rfl, rfl, .nil (List.all_eq_true.1 hwhite)⟩
  · cases hr

section

variable [Base64]

/-! ## What was unread -/

/-- The reader is over some text, unless it is done with it, and holds nothing before it has
begun. -/
structure Sound (r : ArmorReader σ) : Prop where
  taken_le : r.window.taken ≤ r.window.bytes.size
  holds : r.progress ≠ .done → ∃ text, r.inner.Holds text
  rest_of_start : r.progress = .start → r.window.rest = []

/-- A reader that has not begun spells what its input spells. -/
theorem Unread.of_start {d : Bytes} (h : Unread r d) (hprogress : r.progress = .start)
    (hheld : r.inner.Holds text) : Spells (lines d) text := by
  cases h with
  | start _ _ _ h hspells =>
      rw [(h.unique hheld).1] at hspells
      exact hspells
  | body hbody _ _ _ _ => cases hprogress.symm.trans hbody
  | done hdone _ => cases hprogress.symm.trans hdone

/-- A reader inside the body has to hand out what its window holds and what the lines to come spell.
-/
theorem Unread.of_body {d : Bytes} {sawLast : Bool} (h : Unread r d)
    (hprogress : r.progress = .body sawLast) (hheld : r.inner.Holds text) :
    ∃ file, d = r.window.rest ++ file ∧ (sawLast = true → file = []) ∧
      Spells (bodyLines file) text := by
  cases h with
  | start hstart _ _ _ _ => cases hprogress.symm.trans hstart
  | @body file _ _ hbody _ hlast h hspells =>
      cases hprogress.symm.trans hbody
      rw [(h.unique hheld).1] at hspells
      exact ⟨file, rfl, hlast, hspells⟩
  | done hdone _ => cases hprogress.symm.trans hdone

/-- Behind the end marker only the window is left. -/
theorem Unread.of_done {d : Bytes} (h : Unread r d) (hprogress : r.progress = .done) :
    d = r.window.rest := by
  cases h with
  | start hstart _ _ _ _ => cases hprogress.symm.trans hstart
  | body hbody _ _ _ _ => cases hprogress.symm.trans hbody
  | done _ _ => rfl

/-- What is unread behind a line that was read into a spent window was unread before it, and its
lines are spelled in the text. -/
theorem of_readBody_ok {sawLast : Bool} (hrest : r.window.rest = [])
    (hwindow : r.window.taken ≤ r.window.bytes.size) (h : r.inner.Holds text)
    (hr : r.readBody sawLast = (.ok (), s)) :
    Sound s ∧ (∀ d, Unread s d → (sawLast = true → d = []) ∧ Spells (bodyLines d) text) ∧
      (s.window.rest = [] → Unread s []) := by
  unfold readBody at hr
  split at hr
  · cases hr
  · cases hr
  · rename_i line q hline
    rcases of_nextLine_some h hline with ⟨hkept, -, rest, hheld, hspells⟩
    split at hr
    · -- the end marker: nothing is left
      rename_i hmarker
      subst hmarker
      rcases of_finish_ok hheld hr with ⟨hsame, hdone, hspace⟩
      have hsame : s.window = r.window := hsame.trans hkept
      have hempty : s.window.rest = [] := by
        rw [hsame, hrest]
      have hwindow : s.window.taken ≤ s.window.bytes.size := by
        rw [hsame]
        exact hwindow
      refine ⟨⟨hwindow, fun hno => absurd hdone hno, fun hno => (by cases hno.symm.trans hdone)⟩,
        ?_, ?_⟩
      · intro d hunread
        have hd : d = [] := (hunread.of_done hdone).trans hempty
        subst hd
        rw [bodyLines_nil]
        exact ⟨fun _ => rfl, hspells [] (.inl rfl) hspace⟩
      · intro _
        have hunread := Unread.done hdone hwindow
        rwa [hempty] at hunread
    · split at hr
      · cases hr
      · rename_i hfits
        split at hr
        · cases hr
        · -- a data line: its bytes come before those that are left
          rename_i piece hdecode
          cases hr
          simp only [not_or, Bool.not_eq_true, Nat.not_lt] at hfits
          rcases hfits with ⟨hmore, hnonempty, hcolumns⟩
          rcases of_decodePadded? hnonempty hcolumns hdecode with ⟨rfl, hpiece, hlen⟩
          refine ⟨⟨Nat.zero_le _, fun _ => ⟨rest, hheld⟩, fun hno => by cases hno⟩, ?_, ?_⟩
          · intro d hunread
            rcases hunread.of_body rfl hheld with ⟨file, rfl, hlast, hfile⟩
            refine ⟨fun hno => (by cases hmore.symm.trans hno), ?_⟩
            rw [Window.rest_ofBytes,
              bodyLines_append hpiece hlen fun hshort => hlast (last_of_short hshort)]
            exact hspells _ (.inr (endMarker_mem_bodyLines file)) hfile
          · intro hnil
            rw [Window.rest_ofBytes] at hnil
            exact absurd hnil hpiece

/-- A fill that succeeds can be taken back: whatever is unread after it was unread before. -/
theorem of_fill_ok (hsound : Sound r) (hrest : r.window.rest = []) (hr : r.fill = (.ok (), s)) :
    Sound s ∧ (∀ d, Unread s d → Unread r d) ∧ (s.window.rest = [] → Unread s []) := by
  unfold ArmorReader.fill at hr
  split at hr
  · rename_i hdone
    cases hr
    refine ⟨hsound, fun d hunread => hunread, fun hnil => ?_⟩
    have hunread := Unread.done hdone hsound.taken_le
    rwa [hnil] at hunread
  · rename_i sawLast hbody
    rcases hsound.holds fun hno => (by cases hbody.symm.trans hno) with ⟨text, hheld⟩
    rcases of_readBody_ok hrest hsound.taken_le hheld hr with ⟨hafter, hbefore, hend⟩
    refine ⟨hafter, fun d hunread => ?_, hend⟩
    rcases hbefore d hunread with ⟨hlast, hspells⟩
    have hunread := Unread.body hbody hsound.taken_le hlast hheld hspells
    rwa [hrest] at hunread
  · rename_i hstart
    rcases hsound.holds fun hno => (by cases hstart.symm.trans hno) with ⟨text, hheld⟩
    split at hr
    · cases hr
    · cases hr
    · rename_i line q hline
      rcases of_nextLine_some hheld hline with ⟨hkept, -, rest, hbehind, hfront⟩
      split at hr
      · rename_i hmarker
        subst hmarker
        have hempty : q.window.rest = [] := by
          rw [hkept, hrest]
        have hwindow : q.window.taken ≤ q.window.bytes.size := by
          rw [hkept]
          exact hsound.taken_le
        rcases of_readBody_ok (r := { q with progress := .body false }) hempty hwindow hbehind hr with
          ⟨hafter, hbefore, hend⟩
        refine ⟨hafter, fun d hunread => ?_, hend⟩
        exact .start hstart hsound.taken_le hrest hheld
          (hfront _ (.inr (endMarker_mem_bodyLines d)) (hbefore d hunread).2)
      · cases hr

/-- What is unread when bytes were handed out of the window was unread with them before. -/
theorem of_handOut (hsound : Sound r) (n : Nat) :
    Sound { r with window := (r.window.take n).2 } ∧
      ∀ d, Unread { r with window := (r.window.take n).2 } d →
        Unread r ((r.window.take n).1 ++ d) := by
  have hwindow := Window.taken_take_snd_le hsound.taken_le n
  refine ⟨⟨hwindow, hsound.holds, fun hstart => ?_⟩, fun d hunread => ?_⟩
  · rw [Window.rest_take_snd, hsound.rest_of_start hstart, List.drop_nil]
  · rw [Window.take_fst]
    cases hprogress : r.progress with
    | start =>
        have hnil := hsound.rest_of_start hprogress
        rcases hsound.holds fun hno => (by cases hprogress.symm.trans hno) with ⟨text, hheld⟩
        rw [hnil, List.take_nil, List.nil_append]
        exact .start hprogress hsound.taken_le hnil hheld (hunread.of_start hprogress hheld)
    | body sawLast =>
        rcases hsound.holds fun hno => (by cases hprogress.symm.trans hno) with ⟨text, hheld⟩
        rcases hunread.of_body hprogress hheld with ⟨file, rfl, hlast, hspells⟩
        rw [Window.rest_take_snd, ← List.append_assoc, List.take_append_drop]
        exact .body hprogress hsound.taken_le hlast hheld hspells
    | done =>
        rw [hunread.of_done hprogress, Window.rest_take_snd, List.take_append_drop]
        exact .done hprogress hsound.taken_le

/-- What is unread after a read was unread with the bytes it gave before it, and nothing was if it
gave none although some were asked for. -/
theorem of_read_ok (hsound : Sound r) {n : Nat} {b : Bytes} (hr : r.read n = (.ok b, s)) :
    Sound s ∧ (∀ d, Unread s d → Unread r (b ++ d)) ∧ (b = [] → n ≠ 0 → Unread r []) := by
  have hspent_iff := Window.isSpent_iff hsound.taken_le
  unfold ArmorReader.read at hr
  cases hspent : r.window.isSpent with
  | true =>
      rw [hspent, if_pos rfl] at hr
      split at hr
      · cases hr
      · rename_i q hfill
        cases hr
        rcases of_fill_ok hsound (hspent_iff.1 hspent) hfill with ⟨hfilled, hbefore, hend⟩
        rcases of_handOut hfilled n with ⟨hafter, hunread⟩
        refine ⟨hafter, fun d hd => hbefore _ (hunread d hd), fun hnil hn => ?_⟩
        rw [Window.take_fst] at hnil
        exact hbefore _ (hend ((List.take_eq_nil_iff.1 hnil).resolve_left hn))
  | false =>
      rw [hspent, if_neg Bool.false_ne_true] at hr
      cases hr
      rcases of_handOut hsound n with ⟨hafter, hunread⟩
      refine ⟨hafter, hunread, fun hnil hn => ?_⟩
      rw [Window.take_fst] at hnil
      have hempty := (List.take_eq_nil_iff.1 hnil).resolve_left hn
      cases hspent.symm.trans (hspent_iff.2 hempty)

/-- No read is interrupted. -/
theorem not_interrupted_of_read {n : Nat} {e : IoError} (hr : r.read n = (.error e, s)) :
    e.isInterrupted = false := by
  unfold ArmorReader.read at hr
  split at hr
  · rename_i q hfill
    cases hr
    split at hfill
    · rename_i hspent
      exact (fill_error hfill (Window.remaining_of_isSpent hspent)).2
    · cases hfill
  · cases hr

/-- What reads of any sizes give to the end was unread. -/
theorem unread_of_readAllBy {sizes : Nat → Nat} (hsizes : ∀ i, sizes i ≠ 0) (hsound : Sound r)
    {d : Bytes} (hr : readAllBy sizes r = (.ok d, s)) : Unread r d := by
  fun_induction readAllBy sizes r generalizing d s with
  | case1 sizes r t hread =>
      cases hr
      exact (of_read_ok hsound hread).2.2 rfl (hsizes 0)
  | case2 sizes r x b t hread rest u hrest ih =>
      cases hr
      rcases of_read_ok hsound hread with ⟨hafter, hbefore, -⟩
      exact hbefore rest (ih (fun i => hsizes (i + 1)) hafter hrest)
  | case3 => cases hr
  | case4 sizes r e t hread hi ih =>
      cases hi.symm.trans (not_interrupted_of_read hread)
  | case5 => cases hr

/-! ## The texts that are taken -/

/-- Reads of any sizes come to the end of a text just if the text spells what they gave. -/
theorem readAllBy_iff_spells {input : Buffered σ} (h : input.Holds text) {sizes : Nat → Nat}
    (hsizes : ∀ i, sizes i ≠ 0) (d : Bytes) :
    (∃ r, readAllBy sizes ({ inner := input } : ArmorReader σ) = (.ok d, r)) ↔
      Spells (lines d) text := by
  constructor
  · rintro ⟨r, hr⟩
    have hsound : Sound ({ inner := input } : ArmorReader σ) :=
      ⟨Nat.zero_le _, fun _ => ⟨text, h⟩, fun _ => rfl⟩
    exact (unread_of_readAllBy hsizes hsound hr).of_start rfl h
  · intro hspells
    exact readAllBy_of_delivers hsizes (delivers_of_spells h hspells)

/-- Some reading of the text, to its end, gives the bytes. -/
def Accepts (text d : Bytes) : Prop :=
  ∃ (σ : Type) (_ : ByteSource σ) (input : Buffered σ) (sizes : Nat → Nat) (r : ArmorReader σ),
    input.Holds text ∧ (∀ i, sizes i ≠ 0) ∧
      readAllBy sizes ({ inner := input } : ArmorReader σ) = (.ok d, r)

/-- A text is accepted just for the bytes whose lines it spells. -/
theorem accepts_iff {text d : Bytes} : Accepts text d ↔ Spells (lines d) text := by
  constructor
  · rintro ⟨σ, _, input, sizes, r, h, hsizes, hr⟩
    exact (readAllBy_iff_spells h hsizes d).1 ⟨r, hr⟩
  · intro hspells
    have hheld : ({ inner := ScriptedSource.ofBytes text } : Buffered ScriptedSource).Holds text :=
      .of_delivers (ScriptedSource.delivers_ofBytes text)
    have hsizes : ∀ i : Nat, (fun _ => 1 : Nat → Nat) i ≠ 0 := fun _ => Nat.one_ne_zero
    rcases (readAllBy_iff_spells hheld hsizes d).2 hspells with ⟨r, hr⟩
    exact ⟨_, _, _, _, r, hheld, hsizes, hr⟩

/-- An armor reader takes exactly the texts of an armor writer, up to line ends.  Whatever the sizes
of the reads, of the buffer and of the pieces in which the text comes, reading it to the end gives
`d` just if the text spells the lines that are written for `d`: with any carriage returns before
their line feeds, and with white space behind the last line feed or without it.  So what was written
in armor is read back as it was, a text that is cut off before the end of its end marker is not
taken, and the texts taken for the same bytes differ only in carriage returns and in the white space
at their end. -/
theorem accepts_exactly_spelled :
    (∀ {σ : Type} [ByteSource σ] {input : Buffered σ} {text : Bytes} {sizes : Nat → Nat},
      input.Holds text → (∀ i, sizes i ≠ 0) → ∀ d,
        (∃ r, readAllBy sizes ({ inner := input } : ArmorReader σ) = (.ok d, r)) ↔
          Spells (lines d) text) ∧
      (∀ {τ : Type} [ByteSink τ] [HoldingSink τ] {sink : τ}, ByteSink.Unfailing sink →
        ∀ pieces : List Bytes, ∃ t written, ArmorWriter.armorAll sink pieces = (.ok (), t) ∧
          HoldingSink.contents t = HoldingSink.contents sink ++ written ∧
          written = joinLines (lines pieces.flatten) ∧
          ∀ {σ : Type} [ByteSource σ] {input : Buffered σ} {sizes : Nat → Nat},
            input.Holds written → (∀ i, sizes i ≠ 0) →
              ∃ r, readAllBy sizes ({ inner := input } : ArmorReader σ) =
                (.ok pieces.flatten, r)) ∧
      (∀ text d, Accepts text d → ∃ front back, text = front ++ (endMarker ++ back) ∧
        (∀ x ∈ back, Ascii.isWhitespace x = true) ∧
        ∀ n < (front ++ endMarker).length, ∀ d', ¬ Accepts (text.take n) d') ∧
      ∀ text text' d, Accepts text d → Accepts text' d → bare text = bare text' := by
  refine ⟨fun h hsizes d => readAllBy_iff_spells h hsizes d, ?_, ?_, ?_⟩
  · intro τ _ _ sink hsink pieces
    rcases ArmorWriter.armorAll_of_steady ByteSink.steady_unfailing hsink pieces with ⟨t, ht, -⟩
    refine ⟨t, Armor.text pieces.flatten, ht, ArmorWriter.contents_of_armorAll ht,
      (joinLines_lines _).symm, fun h hsizes => ?_⟩
    exact readAllBy_of_delivers hsizes (delivers h)
  · intro text d haccepts
    have hspells := accepts_iff.1 haccepts
    rw [lines_eq_innerLines_append] at hspells
    rcases exists_end_of_spells (fun l hl => inner_of_mem_innerLines hl) hspells with
      ⟨front, back, htext, hback, hleast⟩
    refine ⟨front, back, htext, hback, fun n hn d' hcut => ?_⟩
    have hpart := accepts_iff.1 hcut
    rw [lines_eq_innerLines_append] at hpart
    have hle := hleast _ _ (fun l hl => inner_of_mem_innerLines hl) hpart (List.take_prefix n text)
    rw [List.length_take] at hle
    omega
  · intro text text' d haccepts haccepts'
    have hbare := bare_of_spells (accepts_iff.1 haccepts)
    rw [← bare_of_spells (accepts_iff.1 haccepts')] at hbare
    exact List.append_cancel_right hbare

end

/-- Two bytes of buffer over a source that gives four bytes at a time and is interrupted.  The lines
end in one carriage return and more, and the last has no line feed. -/
def returnsInput : Buffered ScriptedSource :=
  { inner :=
      { data := beginMarker ++ returns 1 ++ Ascii.newline ::
          (Base64.encodePadded [1, 2, 3] ++ returns 2 ++ Ascii.newline ::
            (endMarker ++ returns 1))
        portions := #[4]
        faults := [(20, .device .interrupted "injected")] }
    capacity := 2 }

/-- The three bytes are read, by reads of one byte, two bytes and so on, and their other text
differs only as it may. -/
theorem accepts_exactly_spelled_returns :
    (∃ r, readAllBy (fun i => i + 1) ({ inner := returnsInput } : ArmorReader ScriptedSource) =
        (.ok [1, 2, 3], r)) ∧
      bare returnsInput.inner.data = bare (joinLines (lines [1, 2, 3])) := by
  have hdelivers : Delivers returnsInput.inner returnsInput.inner.data :=
    ScriptedSource.delivers (s := returnsInput.inner) (by decide) (by decide)
  have hheld : returnsInput.Holds returnsInput.inner.data :=
    ⟨by decide, returnsInput.inner.data, rfl, hdelivers⟩
  have hspells : Spells (lines [1, 2, 3]) returnsInput.inner.data := by
    rw [lines, bodyLines_of_ne_nil (by decide), List.drop_of_length_le (by decide), bodyLines_nil]
    exact .line 1 (.line 2 (.unended 1))
  have hsizes : ∀ i : Nat, (fun i => i + 1) i ≠ 0 := fun i => Nat.succ_ne_zero i
  have hread := (accepts_exactly_spelled.1 hheld hsizes [1, 2, 3]).2 hspells
  refine ⟨hread, ?_⟩
  rcases hread with ⟨r, hr⟩
  exact accepts_exactly_spelled.2.2.2 _ _ [1, 2, 3] ⟨_, _, _, _, r, hheld, hsizes, hr⟩
    (accepts_iff.2 (spells_joinLines _))

end ArmorReader
end AgeCrypt
