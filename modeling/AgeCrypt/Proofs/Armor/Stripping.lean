import AgeCrypt.Proofs.Armor.Acceptance

/-!
# Taking the armor off any text

`strip` says what comes of taking the armor off a text that lies in memory, whatever text it is: the
bytes of its data lines in order, and the fault that cuts them off.  It is written from the format
alone, line by line.

An armor reader over the text gives just these bytes, and then meets the end of input or the fault
(`ArmorReader.giving_peeling`, `ArmorReader.peeling_start`).  It says nothing of what the reader
does behind a fault: it goes on with the next line.
-/

namespace AgeCrypt

open ByteSource Buffered

namespace Armor

/-! ## Lines of a text -/

/-- The bytes up to and including the first line feed. -/
def firstLine (text : Bytes) : Bytes :=
  (through Ascii.newline text).1

def behindLine (text : Bytes) : Bytes :=
  text.drop (firstLine text).length

/-- The first line of a text without its line end; `none` where there is no line. -/
def lineOf (text : Bytes) : Except ArmorError (Option Bytes) :=
  if text = [] then
    .ok none
  else if (Text.ofUtf8? (firstLine text)).isNone then
    .error .malformedLine
  else
    .ok (some (trimLine (firstLine text)))

theorem length_behindLine_lt {text line : Bytes} (h : lineOf text = .ok (some line)) :
    (behindLine text).length < text.length := by
  have hne : text ≠ [] := by
    rintro rfl
    cases h
  have hfirst : 0 < (firstLine text).length := List.length_pos_iff.2 (through_ne_nil hne)
  have htext : 0 < text.length := List.length_pos_iff.2 hne
  rw [behindLine, List.length_drop]
  omega

/-! ## Armored texts -/

variable [Base64]

/-- The bytes that a text spells up to the fault that cuts them off; `none` where the armor is
complete. -/
structure Stripped where
  bytes : Bytes
  fault : Option ArmorError
deriving DecidableEq

/-- Whether a data line must be the last: it is short or ends in padding. -/
def isLast (line : Bytes) : Bool :=
  line.length < columnsPerLine || line.getLast? == some Base64.padding

/-- What the data lines of a text spell; `sawLast` if no more of them may come. -/
def stripBody (sawLast : Bool) (text : Bytes) : Stripped :=
  match _h : lineOf text with
  | .error e => ⟨[], some e⟩
  | .ok none => ⟨[], some .missingEnd⟩
  | .ok (some line) =>
      if line = endMarker then
        if (behindLine text).all Ascii.isWhitespace then ⟨[], none⟩ else ⟨[], some .trailingData⟩
      else if sawLast ∨ line = [] ∨ columnsPerLine < line.length then
        ⟨[], some .malformedLine⟩
      else
        match Base64.decodePadded? line with
        | none => ⟨[], some .malformedLine⟩
        | some piece =>
            let later := stripBody (isLast line) (behindLine text)
            ⟨piece ++ later.bytes, later.fault⟩
termination_by text.length
decreasing_by exact length_behindLine_lt _h

/-- What a text spells. -/
def strip (text : Bytes) : Stripped :=
  match lineOf text with
  | .error e => ⟨[], some e⟩
  | .ok none => ⟨[], some .missingBegin⟩
  | .ok (some line) =>
      if line = beginMarker then stripBody false (behindLine text) else ⟨[], some .missingBegin⟩

def Stripped.ending (s : Stripped) : Option IoError :=
  s.fault.map .armor

/-- What the data lines spell, by the first of them: it is refused, ends the body, or comes before
what the others spell. -/
theorem stripBody_eq (sawLast : Bool) (text : Bytes) :
    stripBody sawLast text =
      match lineOf text with
      | .error e => ⟨[], some e⟩
      | .ok none => ⟨[], some .missingEnd⟩
      | .ok (some line) =>
          if line = endMarker then
            if (behindLine text).all Ascii.isWhitespace then ⟨[], none⟩
            else ⟨[], some .trailingData⟩
          else if sawLast ∨ line = [] ∨ columnsPerLine < line.length then
            ⟨[], some .malformedLine⟩
          else
            match Base64.decodePadded? line with
            | none => ⟨[], some .malformedLine⟩
            | some piece =>
                ⟨piece ++ (stripBody (isLast line) (behindLine text)).bytes,
                  (stripBody (isLast line) (behindLine text)).fault⟩ := by
  rw [stripBody]
  split <;> rename_i h <;> rw [h]

end Armor

namespace ArmorReader

open Armor

variable {σ : Type} [ByteSource σ] {r : ArmorReader σ} {text data : Bytes}
  {ending : Option IoError}

/-! ## One line -/

/-- The reader takes the first line of what it holds. -/
theorem nextLine_of_holds (h : r.inner.Holds text) :
    ∃ b, r.nextLine = ((lineOf text).mapError .armor, { r with inner := b }) ∧
      b.Holds (behindLine text) := by
  rcases h.readLine none with ⟨b, ⟨hread, hheld⟩ | ⟨e, -, hend, -⟩⟩
  · refine ⟨b, ?_, hheld⟩
    rw [clip] at hread
    by_cases hnil : text = []
    · rw [hnil] at hread ⊢
      simp only [nextLine, hread, through]
      rfl
    · have hfirst_ne : (through Ascii.newline text).1 ≠ [] := through_ne_nil hnil
      rcases List.exists_cons_of_ne_nil hfirst_ne with ⟨x, tail, hfirst⟩
      rw [hfirst] at hread
      rw [lineOf, if_neg hnil, firstLine, hfirst]
      simp only [nextLine, hread]
      split <;> rfl
  · cases hend

variable [Base64]

/-- `r` has `data` still to hand out before it meets `ending`. -/
inductive Peeling (ending : Option IoError) : ArmorReader σ → Bytes → Prop where
  -- No line has been read.
  | start {r : ArmorReader σ} {text : Bytes} (hprogress : r.progress = .start)
      (hwindow : r.window.taken ≤ r.window.bytes.size) (hrest : r.window.rest = [])
      (h : r.inner.Holds text) (hend : ending = (strip text).ending) :
      Peeling ending r (strip text).bytes
  | body {r : ArmorReader σ} {text : Bytes} {sawLast : Bool} (hprogress : r.progress = .body sawLast)
      (hwindow : r.window.taken ≤ r.window.bytes.size) (h : r.inner.Holds text)
      (hend : ending = (stripBody sawLast text).ending) :
      Peeling ending r (r.window.rest ++ (stripBody sawLast text).bytes)
  | done {r : ArmorReader σ} (hprogress : r.progress = .done)
      (hwindow : r.window.taken ≤ r.window.bytes.size) (hend : ending = none) :
      Peeling ending r r.window.rest

inductive Refilled (ending : Option IoError) (data : Bytes) :
    Except IoError Unit × ArmorReader σ → Prop where
  -- The window stays empty only at the end of input.
  | ok {s : ArmorReader σ} (hs : Peeling ending s data)
      (hend : s.window.rest = [] → data = [] ∧ ending = none) : Refilled ending data (.ok (), s)
  | fault {e : ArmorError} {s : ArmorReader σ} (hdata : data = [])
      (hend : ending = some (.armor e)) : Refilled ending data (.error (.armor e), s)

/-- Reading a line of the body into a spent window. -/
theorem readBody_peels {sawLast : Bool} (hrest : r.window.rest = [])
    (hwindow : r.window.taken ≤ r.window.bytes.size) (h : r.inner.Holds text)
    (hend : ending = (stripBody sawLast text).ending) :
    Refilled ending (stripBody sawLast text).bytes (r.readBody sawLast) := by
  rcases nextLine_of_holds h with ⟨b, hline, hbehind⟩
  rw [stripBody_eq] at hend ⊢
  unfold readBody
  rw [hline]
  generalize lineOf text = answer at hend ⊢
  rcases answer with e | _ | line
  · exact .fault rfl hend
  · exact .fault rfl hend
  · dsimp only [Except.mapError] at hend ⊢
    by_cases hmarker : line = endMarker
    · -- only white space may follow the end marker
      rcases hbehind.readToEnd with ⟨c, hread⟩
      rw [if_pos hmarker] at hend ⊢
      simp only [if_pos hmarker, finish, hread, gathered]
      by_cases hspace : (behindLine text).all Ascii.isWhitespace = true
      · rw [if_pos hspace] at hend ⊢
        rw [if_pos hspace, ← hrest]
        exact .ok (.done rfl hwindow hend) fun _ => ⟨hrest, hend⟩
      · rw [if_neg hspace] at hend ⊢
        rw [if_neg hspace]
        exact .fault rfl hend
    rw [if_neg hmarker] at hend ⊢
    rw [if_neg hmarker]
    by_cases hmisfit : sawLast = true ∨ line = [] ∨ columnsPerLine < line.length
    · rw [if_pos hmisfit] at hend ⊢
      rw [if_pos hmisfit]
      exact .fault rfl hend
    rw [if_neg hmisfit] at hend ⊢
    rw [if_neg hmisfit]
    cases hdecode : Base64.decodePadded? line with
    | none =>
        rw [hdecode] at hend
        exact .fault rfl hend
    | some piece =>
        rw [hdecode] at hend
        simp only [not_or, Nat.not_lt] at hmisfit
        have hpiece := (of_decodePadded? hmisfit.2.1 hmisfit.2.2 hdecode).2.1
        let s : ArmorReader σ :=
          { r with inner := b, window := .ofBytes piece, progress := .body (isLast line) }
        have hs : Peeling ending s
            (s.window.rest ++ (stripBody (isLast line) (behindLine text)).bytes) :=
          .body rfl (Nat.zero_le _) hbehind hend
        rw [Window.rest_ofBytes] at hs
        refine .ok hs fun hnil => ?_
        rw [Window.rest_ofBytes] at hnil
        exact absurd hnil hpiece

theorem Peeling.taken_le (h : Peeling ending r data) : r.window.taken ≤ r.window.bytes.size := by
  cases h with
  | start _ hwindow _ _ _ => exact hwindow
  | body _ hwindow _ _ => exact hwindow
  | done _ hwindow _ => exact hwindow

/-- Filling a spent window keeps what is to come, the fault at its end included. -/
theorem Peeling.fill (h : Peeling ending r data) (hrest : r.window.rest = []) :
    Refilled ending data r.fill := by
  have hstored := h
  cases h with
  | done hprogress hwindow hend =>
      simp only [ArmorReader.fill, hprogress]
      exact .ok hstored fun _ => ⟨hrest, hend⟩
  | body hprogress hwindow h hend =>
      rw [hrest, List.nil_append]
      simp only [ArmorReader.fill, hprogress]
      exact readBody_peels hrest hwindow h hend
  | @start text hprogress hwindow _ h hend =>
      rcases nextLine_of_holds h with ⟨b, hline, hbehind⟩
      simp only [ArmorReader.fill, hprogress, hline]
      unfold strip at hend ⊢
      generalize lineOf text = answer at hend ⊢
      rcases answer with e | _ | line
      · exact .fault rfl hend
      · exact .fault rfl hend
      · dsimp only [Except.mapError] at hend ⊢
        by_cases hmarker : line = beginMarker
        · rw [if_pos hmarker] at hend ⊢
          rw [if_pos hmarker]
          exact readBody_peels (r := { r with inner := b, progress := .body false }) hrest hwindow
            hbehind hend
        · rw [if_neg hmarker] at hend ⊢
          rw [if_neg hmarker]
          exact .fault rfl hend

/-- Handing out of the window leaves the rest. -/
theorem Peeling.handOut (h : Peeling ending r data)
    (hspent : r.window.rest = [] → data = [] ∧ ending = none) (n : Nat) :
    Answered (Peeling ending) (fun _ => True) data ending n
      (.ok (r.window.take n).1, { r with window := (r.window.take n).2 }) := by
  have hwindow := Window.taken_take_snd_le h.taken_le n
  cases h with
  | @start text hprogress _ hrest h hend =>
      have hleft : (r.window.take n).2.rest = [] := by
        rw [Window.rest_take_snd, hrest, List.drop_nil]
      rw [← List.nil_append (strip text).bytes, ← hrest]
      refine Answered.of_window (fun hnil => hspent hnil) ?_
      rw [hleft, List.nil_append]
      exact .start (r := { r with window := (r.window.take n).2 }) hprogress hwindow hleft h hend
  | body hprogress _ h hend =>
      refine Answered.of_window (fun hnil => ?_) ?_
      · rcases hspent hnil with ⟨hdata, hnone⟩
        exact ⟨(List.append_eq_nil_iff.1 hdata).2, hnone⟩
      · exact .body (r := { r with window := (r.window.take n).2 }) hprogress hwindow h hend
  | done hprogress _ hend =>
      rw [← List.append_nil r.window.rest]
      refine Answered.of_window (fun _ => ⟨rfl, hend⟩) ?_
      rw [List.append_nil]
      exact .done (r := { r with window := (r.window.take n).2 }) hprogress hwindow hend

/-- One read keeps what is still to be handed out. -/
theorem giving_peeling (ending : Option IoError) :
    Giving (Peeling (σ := σ) ending) (fun _ => True) ending where
  answered := by
    intro r data h n
    change Answered _ _ _ _ _ (r.read n)
    have hspent_iff := Window.isSpent_iff h.taken_le
    unfold ArmorReader.read
    cases hspent : r.window.isSpent with
    | true =>
        have hfilled := h.fill (hspent_iff.1 hspent)
        rw [if_pos rfl]
        generalize r.fill = answered at hfilled ⊢
        cases hfilled with
        | ok hs hend => exact hs.handOut hend n
        | fault hdata hend => exact .fault rfl hdata hend trivial
    | false =>
        rw [if_neg Bool.false_ne_true]
        refine h.handOut (fun hnil => ?_) n
        cases hspent.symm.trans (hspent_iff.2 hnil)

/-- A reader at the start of a text has all that the text spells still to hand out. -/
theorem peeling_start {input : Buffered σ} (h : input.Holds text) :
    Peeling (strip text).ending ({ inner := input } : ArmorReader σ) (strip text).bytes :=
  .start rfl (Nat.zero_le _) rfl h rfl

end ArmorReader

/-- The text of a file spells that file. -/
theorem Armor.strip_text [Base64] (file : Bytes) : strip (text file) = ⟨file, none⟩ := by
  have hheld : ({ inner := .ofBytes (text file) } : Buffered ScriptedSource).Holds (text file) :=
    .of_delivers (ScriptedSource.delivers_ofBytes (text file))
  -- a reader of the text gives what it spells, and delivers the file
  rcases (ArmorReader.giving_peeling (strip (text file)).ending).unique (Delivers.giving none)
    (ArmorReader.peeling_start hheld) (ArmorReader.delivers hheld) with ⟨hbytes, hending⟩
  have hfault : (strip (text file)).fault = none := Option.map_eq_none_iff.1 hending
  generalize strip (text file) = stripped at hbytes hfault ⊢
  cases stripped
  cases hbytes
  cases hfault
  rfl

end AgeCrypt
