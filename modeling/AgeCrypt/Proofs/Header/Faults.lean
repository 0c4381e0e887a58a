import AgeCrypt.Base64.Standard
import AgeCrypt.Proofs.Header.Completion
import AgeCrypt.Proofs.Header.Exactness

/-!
# Where a header goes wrong

Reading a header fails where it stops: behind lines that pass there are bytes that are refused, or
the input ends, or its device fails (`Fault`).  Each stage of the reader fails in this way
(`of_readBody_error`, `of_readStanzas_error`, `of_read_error`).

So an error that numbers a line numbers the first bad one, and a header that ends early is called
truncated and nothing else (`first_bad_line`).
-/

namespace AgeCrypt

def HeaderError.line? : HeaderError → Option Nat
  | openingExpected line => some line
  | malformedStanza line => some line
  | bodyLineTooLong line => some line
  | malformedClosing line => some line
  | invalidBase64 line => some line
  | lineTooLong line => some line
  | wrongIntro => none
  | lineBreakInField => none
  | truncated => none
  | invalidName _ => none
  | io _ => none

namespace Header

open Buffered

/-! ## The errors of a line -/

/-- An error about the line with the given number: it points at no other line, and the line was
read. -/
def OfLine (number : Nat) (e : HeaderError) : Prop :=
  (e.line? = none ∨ e.line? = some number) ∧ e ≠ .lineTooLong number

/-- What is wrong with an opening line is reported under its number. -/
theorem ofLine_of_parseOpening_error {number : Nat} {line : Bytes} {e : HeaderError}
    (h : parseOpening number line = .error e) : OfLine number e := by
  unfold parseOpening at h
  split at h
  · cases h
    exact ⟨.inr rfl, fun hno => (by cases hno)⟩
  · split at h
    · split at h <;> cases h
      exact ⟨.inr rfl, fun hno => (by cases hno)⟩
    · cases h
      exact ⟨.inr rfl, fun hno => (by cases hno)⟩

section

variable [Base64]

/-- What is wrong with a body line is reported under its number. -/
theorem ofLine_of_parseBodyLine_error {number : Nat} {line : Bytes} {e : HeaderError}
    (h : parseBodyLine number line = .error e) : OfLine number e := by
  unfold parseBodyLine at h
  split at h
  · cases h
    exact ⟨.inr rfl, fun hno => (by cases hno)⟩
  · split at h
    · cases h
      exact ⟨.inr rfl, fun hno => (by cases hno)⟩
    · unfold decodeField at h
      split at h
      · cases h
        exact ⟨.inl rfl, fun hno => (by cases hno)⟩
      · split at h <;> cases h
        exact ⟨.inr rfl, fun hno => (by cases hno)⟩

/-- What is wrong with a closing line is reported under its number. -/
theorem ofLine_of_parseClosing_error {number : Nat} {line : Bytes} {e : HeaderError}
    (h : parseClosing number line = .error e) : OfLine number e := by
  -- whatever is wrong with the line, it is one error
  have hmalformed : e = .malformedClosing number := by
    unfold parseClosing at h
    repeat' split at h
    all_goals cases h
    all_goals rfl
  rw [hmalformed]
  exact ⟨.inr rfl, fun hno => (by cases hno)⟩

/-- Whatever line is refused, the error points at it. -/
theorem ofLine_of_next_error {number : Nat} {p : Expected} {line : Bytes} {e : HeaderError}
    (h : p.next number line = .error e) : OfLine number e := by
  have hmap : ∀ {α β : Type} {r : Except HeaderError α} {f : α → β},
      r.map f = .error e → r = .error e := by
    intro α β r f hr
    cases r with
    | ok a => cases hr
    | error e' =>
        cases hr
        rfl
  cases p with
  | intro =>
      rw [Expected.next] at h
      split at h <;> cases h
      exact ⟨.inl rfl, fun hno => (by cases hno)⟩
  | stanza =>
      rw [Expected.next] at h
      split at h
      · exact ofLine_of_parseClosing_error (hmap h)
      · exact ofLine_of_parseOpening_error (hmap h)
  | body => exact ofLine_of_parseBodyLine_error (hmap h)

/-- What is refused is the line whose number the error has, or, if that is too long, the beginning
of it. -/
theorem Refuses.of_line?_eq {number n : Nat} {p : Expected} {bad : Bytes} {e : HeaderError}
    (h : Refuses number p bad e) (hn : e.line? = some n) :
    number = n ∧ if e = .lineTooLong n then bad.length = maxLineLength + 1
      else ∃ line, Ascii.newline ∉ line ∧ bad = line ++ [Ascii.newline] := by
  cases h with
  | @line line _ hline hnext =>
      rcases ofLine_of_next_error hnext with ⟨hnone | hsome, hread⟩
      · cases hn.symm.trans hnone
      · cases hn.symm.trans hsome
        refine ⟨rfl, ?_⟩
        rw [if_neg hread]
        exact ⟨line, hline, rfl⟩
  | tooLong hlen hbad =>
      cases hn
      refine ⟨rfl, ?_⟩
      rw [if_pos rfl]
      exact hlen

/-! ## Where reading stops -/

/-- Why reading stops at the line with the given number, where `p` is expected, while bytes are to
come and then `ending`. -/
inductive Fault (ending : Option IoError) (number : Nat) (p : Expected) :
    Bytes → HeaderError → Prop where
  | refused {bad more : Bytes} {e : HeaderError} (h : Refuses number p bad e) :
      Fault ending number p (bad ++ more) e
  | ended {data : Bytes} : Fault ending number p data .truncated
  | device {data : Bytes} {e : IoError} (h : ending = some e) : Fault ending number p data (.io e)

/-- Behind lines that pass, `data` comes to a fault. -/
def Fails (ending : Option IoError) (count : Nat) (p : Expected) (data : Bytes) (e : HeaderError) :
    Prop :=
  ∃ lines q rest, Passes count p lines q ∧ data = joinLines lines ++ rest ∧
    Fault ending (count + lines.length + 1) q rest e

section Fails

variable {ending : Option IoError} {count : Nat} {p q : Expected} {rest : Bytes} {e : HeaderError}

theorem Fails.of_fault (h : Fault ending (count + 1) p rest e) : Fails ending count p rest e :=
  ⟨[], p, rest, .nil, rfl, h⟩

/-- A whole line that is refused is a fault. -/
theorem Fails.of_bad_line {line : Bytes} (hline : Ascii.newline ∉ line)
    (hnext : p.next (count + 1) line = .error e) :
    Fails ending count p (line ++ Ascii.newline :: rest) e := by
  rw [← List.singleton_append, ← List.append_assoc]
  exact .of_fault (.refused (.line hline hnext))

/-- A fault behind lines that pass is one behind all lines before it. -/
theorem Fails.behind {lines : List Bytes} (hlines : Passes count p lines q)
    (h : Fails ending (count + lines.length) q rest e) :
    Fails ending count p (joinLines lines ++ rest) e := by
  rcases h with ⟨others, r, left, hothers, rfl, hfault⟩
  refine ⟨lines ++ others, r, left, hlines.append hothers, ?_, ?_⟩
  · rw [joinLines_append, List.append_assoc]
  · rw [List.length_append, ← Nat.add_assoc]
    exact hfault

/-- The same behind a single line. -/
theorem Fails.behind_line {line : Bytes} (hline : Ascii.newline ∉ line)
    (hlen : line.length ≤ maxLineLength) (hnext : p.next (count + 1) line = .ok (some q))
    (h : Fails ending (count + 1) q rest e) :
    Fails ending count p (line ++ Ascii.newline :: rest) e := by
  have hbehind := Fails.behind (.cons hline hlen hnext .nil) h
  rwa [joinLines_cons_append] at hbehind

end Fails

/-! ## The stages of the reader -/

variable {σ : Type} [ByteSource σ] {input rest : Buffered σ} {data : Bytes}
  {ending : Option IoError} {lines : Nat} {e : HeaderError}

/-- If no line can be read, the input ends or breaks there, or the line is too long. -/
theorem of_nextLine_error (h : input.Holds data ending)
    (hr : nextLine input lines = (.error e, rest)) (p : Expected) :
    Fault ending (lines + 1) p data e := by
  rcases h.readLine (some (maxLineLength + 1)) with ⟨t, ⟨hread, -⟩ | ⟨e', hread, hend, -⟩⟩
  · generalize htaken : (through Ascii.newline (clip (some (maxLineLength + 1)) data)).1 = taken
      at hread
    cases taken with
    | nil =>
        simp only [nextLine, hread] at hr
        cases hr
    | cons x tail =>
        simp only [nextLine, hread] at hr
        split at hr
        · cases hr
        · rename_i hlast
          split at hr
          · rename_i hlen
            cases hr
            -- a line feed among the bytes taken would be the last of them
            have hnone : (through Ascii.newline (clip (some (maxLineLength + 1)) data)).2 =
                false := by
              refine Bool.eq_false_iff.2 fun hfound => ?_
              rcases of_through_found hfound with ⟨line, more, -, -, hline⟩
              rw [← htaken, hline, List.getLast?_concat] at hlast
              exact hlast rfl
            rcases through_of_not_mem hnone with ⟨hall, hmem⟩
            have htake : data.take (maxLineLength + 1) = x :: tail := hall.symm.trans htaken
            rw [← List.take_append_drop (maxLineLength + 1) data]
            exact .refused (.tooLong (by rw [htake, hlen]) hmem)
          · cases hr
            exact .ended
  · simp only [nextLine, hread] at hr
    cases hr
    exact .device hend

/-- An error inside a body is that of its first line that does not pass. -/
theorem of_readBody_error (h : input.Holds data ending)
    (hr : readBody input lines = (.error e, rest)) : Fails ending lines .body data e := by
  fun_induction readBody input lines generalizing data e rest with
  | case1 input lines e' t hline =>
      cases hr
      exact .of_fault (of_nextLine_error h hline .body)
  | case2 =>
      cases hr
      exact .of_fault .ended
  | case3 input lines line t hline e' hpiece =>
      cases hr
      rcases of_nextLine_ok h hline with ⟨hnewline, -, more, rfl, -⟩
      refine .of_bad_line hnewline ?_
      rw [Expected.next, hpiece]
      rfl
  | case4 => cases hr
  | case5 => cases hr
  | case6 input lines line t hline piece hpiece hfull e' t' hbody ih =>
      cases hr
      rcases of_nextLine_ok h hline with ⟨hnewline, hlen, more, rfl, hmore⟩
      refine .behind_line hnewline hlen ?_ (ih hmore hbody)
      rw [Expected.next, hpiece]
      exact congrArg (fun q => Except.ok (some q)) (if_neg hfull)

/-- A body that was read is lines that pass. -/
theorem passes_of_readBody_ok {n : Nat} {body : Bytes} (h : input.Holds data ending)
    (hr : readBody input lines = (.ok (body, n), rest)) :
    ∃ (ls : List Bytes) (more : Bytes), Passes lines .body ls .stanza ∧ n = lines + ls.length ∧
      data = joinLines ls ++ more ∧ rest.Holds more ending := by
  fun_induction readBody input lines generalizing data body n rest with
  | case1 => cases hr
  | case2 => cases hr
  | case3 => cases hr
  | case4 input lines line t hline piece hpiece hshort =>
      cases hr
      rcases of_nextLine_ok h hline with ⟨hnewline, hlen, more, rfl, hmore⟩
      have hnext : Expected.next (lines + 1) .body line = .ok (some .stanza) := by
        rw [Expected.next, hpiece]
        exact congrArg (fun q => Except.ok (some q)) (if_pos hshort)
      exact ⟨[line], more, .cons hnewline hlen hnext .nil, rfl, by rw [joinLines_cons_append]; rfl,
        hmore⟩
  | case5 input lines line t hline piece hpiece hfull body' n' t' hbody ih =>
      cases hr
      rcases of_nextLine_ok h hline with ⟨hnewline, hlen, behind, rfl, hbehind⟩
      rcases ih hbehind hbody with ⟨ls, more, hls, rfl, rfl, hmore⟩
      have hnext : Expected.next (lines + 1) .body line = .ok (some .body) := by
        rw [Expected.next, hpiece]
        exact congrArg (fun q => Except.ok (some q)) (if_neg hfull)
      refine ⟨line :: ls, more, .cons hnewline hlen hnext hls, ?_, ?_, hmore⟩
      · rw [List.length_cons]
        omega
      · rw [joinLines_cons_append]
  | case6 => cases hr

/-- An error among stanzas is that of the first line that does not pass. -/
theorem of_readStanzas_error (h : input.Holds data ending)
    (hr : readStanzas input lines = (.error e, rest)) : Fails ending lines .stanza data e := by
  fun_induction readStanzas input lines generalizing data e rest with
  | case1 input lines e' t hline =>
      cases hr
      exact .of_fault (of_nextLine_error h hline .stanza)
  | case2 =>
      cases hr
      exact .of_fault .ended
  | case3 => cases hr
  | case4 input lines line t hline hmark e' hmac =>
      cases hr
      rcases of_nextLine_ok h hline with ⟨hnewline, -, more, rfl, -⟩
      refine .of_bad_line hnewline ?_
      rw [Expected.next, if_pos hmark, hmac]
      rfl
  | case5 input lines line t hline hother e' hopening =>
      cases hr
      rcases of_nextLine_ok h hline with ⟨hnewline, -, more, rfl, -⟩
      refine .of_bad_line hnewline ?_
      rw [Expected.next, if_neg hother, hopening]
      rfl
  | case6 input lines line t hline hother tag args hopening e' t' hbody =>
      cases hr
      rcases of_nextLine_ok h hline with ⟨hnewline, hlen, more, rfl, hmore⟩
      refine .behind_line hnewline hlen ?_ (of_readBody_error hmore hbody)
      rw [Expected.next, if_neg hother, hopening]
      rfl
  | case7 => cases hr
  | case8 input lines line t hline hother tag args hopening body n t' hbody e' t'' hrest ih =>
      cases hr
      rcases of_nextLine_ok h hline with ⟨hnewline, hlen, behind, rfl, hbehind⟩
      rcases passes_of_readBody_ok hbehind hbody with ⟨ls, more, hls, rfl, rfl, hmore⟩
      refine .behind_line hnewline hlen ?_ (.behind hls (ih hmore hrest))
      rw [Expected.next, if_neg hother, hopening]
      rfl

/-- Reading fails at a fault, unless there is nothing to read. -/
theorem of_read_error (h : input.Holds data ending) (hr : read input = (.error e, rest)) :
    data = [] ∧ e = .wrongIntro ∨ Fails ending 0 .intro data e := by
  unfold read at hr
  split at hr
  · rename_i e' t hline
    cases hr
    exact .inr (.of_fault (of_nextLine_error h hline .intro))
  · rename_i t hline
    cases hr
    exact .inl ⟨of_nextLine_none h hline, rfl⟩
  · rename_i line t hline
    rcases of_nextLine_ok h hline with ⟨hnewline, hlen, more, rfl, hmore⟩
    split at hr
    · rename_i hintro
      split at hr
      · cases hr
      · rename_i e' u hstanzas
        cases hr
        refine .inr (.behind_line hnewline hlen ?_ (of_readStanzas_error hmore hstanzas))
        rw [Expected.next, if_pos hintro]
    · rename_i hintro
      cases hr
      refine .inr (.of_bad_line hnewline ?_)
      rw [Expected.next, if_neg hintro]

/-! ## Headers that are accepted -/

/-- The header is read wherever it stands in front, and nothing behind it is taken. -/
def Accepted (header : Header) : Prop :=
  ∀ {τ : Type} [ByteSource τ] (input : Buffered τ) (more : Bytes) (ending : Option IoError),
    input.Holds (header.encode ++ more) ending →
      ∃ rest, read input = (.ok header, rest) ∧ rest.Holds more ending

/-- A header is accepted just if its stanzas can be read back. -/
theorem accepted_iff {header : Header} : Accepted header ↔ ∀ s ∈ header.stanzas, s.Readable := by
  constructor
  · intro h
    have hheld : ({ inner := ScriptedSource.ofBytes (header.encode ++ []) } :
        Buffered ScriptedSource).Holds (header.encode ++ []) :=
      .of_delivers (ScriptedSource.delivers_ofBytes _)
    rcases h _ _ _ hheld with ⟨rest, hread, -⟩
    exact (of_read_ok hheld hread).1
  · intro hreadable τ _ input more ending hheld
    exact read_of_holds hreadable hheld

theorem completes_intro_iff_accepted {bytes : Bytes} :
    Completes .intro bytes ↔ ∃ header, Accepted header ∧ bytes = header.encode := by
  simp only [completes_intro_iff, accepted_iff]

/-- Nothing that begins with lines that pass and bytes that are refused then is accepted. -/
theorem Refuses.not_prefix {ls : List Bytes} {q : Expected} {number : Nat} {bad : Bytes}
    (h : Refuses number q bad e) (hls : Passes 0 .intro ls q) {header : Header}
    (haccepted : Accepted header) : ¬ joinLines ls ++ bad <+: header.encode := by
  rintro ⟨tail, htail⟩
  rw [List.append_assoc] at htail
  have hcompletes : Completes .intro (joinLines ls ++ (bad ++ tail)) :=
    completes_intro_iff_accepted.2 ⟨header, haccepted, htail⟩
  exact h.not_completes tail ((completes_lines_iff hls).1 hcompletes)

/-- Part of a header that is accepted ends too early, and has no other fault. -/
theorem read_of_prefix {header : Header} (haccepted : Accepted header) {part : Bytes}
    (hpart : part <+: header.encode) (hnonempty : part ≠ []) (hproper : part ≠ header.encode)
    (h : input.Holds part) : ∃ rest, read input = (.error .truncated, rest) := by
  cases hread : read input with
  | mk result rest =>
      refine ⟨rest, ?_⟩
      cases result with
      | ok other =>
          -- it would be all of that header, by the one way to read that
          rcases of_read_ok h hread with ⟨hreadable, more, rfl, -⟩
          rcases hpart with ⟨tail, htail⟩
          rw [List.append_assoc, ← List.append_nil header.encode] at htail
          have hnil := (encode_append_inj hreadable (accepted_iff.1 haccepted) htail).2
          rw [(List.append_eq_nil_iff.1 hnil).1, List.append_nil] at hproper
          rw [hnil, List.append_nil, List.append_nil] at htail
          exact absurd htail hproper
      | error e =>
          rcases of_read_error h hread with ⟨hnil, -⟩ | ⟨ls, q, left, hls, rfl, hfault⟩
          · exact absurd hnil hnonempty
          · cases hfault with
            | refused hrefuses =>
                rw [← List.append_assoc] at hpart
                exact absurd ((List.prefix_append _ _).trans hpart)
                  (hrefuses.not_prefix hls haccepted)
            | ended => rfl
            | device hend => cases hend

/-- An error that numbers a line points at the first bad one, whatever the sizes in which the source
gives the bytes: the lines before it stand at the front of a header that is accepted, and none that
is accepted begins with them and that line, or, where the line is too long, with them and the 16385
bytes that come next.  And what stops inside of a header that is accepted, but not before it, is
called truncated. -/
theorem first_bad_line :
    (∀ {σ : Type} [ByteSource σ] {input rest : Buffered σ} {data : Bytes}
      {ending : Option IoError} {e : HeaderError} {n : Nat}, input.Holds data ending →
      read input = (.error e, rest) → e.line? = some n →
        ∃ (lines : List Bytes) (bad more : Bytes),
          data = joinLines lines ++ (bad ++ more) ∧ lines.length + 1 = n ∧
          (∀ line ∈ lines, Ascii.newline ∉ line) ∧
          (if e = .lineTooLong n then bad.length = 16385
            else ∃ line, Ascii.newline ∉ line ∧ bad = line ++ [Ascii.newline]) ∧
          (∃ header, Accepted header ∧ joinLines lines <+: header.encode) ∧
          ∀ header, Accepted header → ¬ joinLines lines ++ bad <+: header.encode) ∧
      ∀ header, Accepted header → ∀ part, part <+: header.encode → part ≠ [] →
        part ≠ header.encode → ∀ {σ : Type} [ByteSource σ] (input : Buffered σ),
          input.Holds part → ∃ rest, read input = (.error .truncated, rest) := by
  constructor
  · intro σ _ input rest data ending e n h hr hn
    rcases of_read_error h hr with ⟨-, rfl⟩ | ⟨lines, q, left, hlines, rfl, hfault⟩
    · cases hn
    · cases hfault with
      | @refused bad more _ hrefuses =>
          rcases hrefuses.of_line?_eq hn with ⟨hnumber, hbad⟩
          refine ⟨lines, bad, more, rfl, ?_, hlines.newline_notMem, hbad, ?_,
            fun header haccepted => hrefuses.not_prefix hlines haccepted⟩
          · rw [← hnumber, Nat.zero_add]
          · rcases exists_completes q with ⟨tail, htail⟩
            rcases completes_intro_iff_accepted.1 ((completes_lines_iff hlines).2 htail) with
              ⟨header, haccepted, hencode⟩
            exact ⟨header, haccepted, tail, hencode⟩
      | ended => cases hn
      | device hend => cases hn
  · intro header haccepted part hpart hnonempty hproper σ _ input h
    exact read_of_prefix haccepted hpart hnonempty hproper h

end

/-- Two bytes of buffer over a source that gives a first line and a stray one, three bytes at a
time, and is interrupted. -/
def strayInput : Buffered ScriptedSource :=
  { inner :=
      { data := intro ++ Ascii.newline :: (Bytes.ascii "x" ++ Ascii.newline :: [7])
        portions := #[3]
        faults := [(20, .device .interrupted "injected")] }
    capacity := 2 }

/-- The stray line is the second, and a first line without its line feed is truncated. -/
theorem first_bad_line_stray :
    (∃ rest, read strayInput = (.error (.openingExpected 2), rest)) ∧
      (∃ (lines : List Bytes) (bad more : Bytes),
        strayInput.inner.data = joinLines lines ++ (bad ++ more) ∧ lines.length + 1 = 2 ∧
        (∃ line, Ascii.newline ∉ line ∧ bad = line ++ [Ascii.newline]) ∧
        (∃ header, Accepted header ∧ joinLines lines <+: header.encode) ∧
        ∀ header, Accepted header → ¬ joinLines lines ++ bad <+: header.encode) ∧
      ∃ rest, read ({ inner := ScriptedSource.ofBytes intro } : Buffered ScriptedSource) =
        (.error .truncated, rest) := by
  have hdelivers : ByteSource.Delivers strayInput.inner strayInput.inner.data :=
    ScriptedSource.delivers (s := strayInput.inner) (by decide) (by decide)
  have hheld : strayInput.Holds
      (intro ++ Ascii.newline :: (Bytes.ascii "x" ++ Ascii.newline :: [7])) :=
    ⟨by decide, strayInput.inner.data, rfl, hdelivers⟩
  have hread : ∃ rest, read strayInput = (.error (.openingExpected 2), rest) := by
    rcases nextLine_of_holds (by decide) (by decide) hheld 0 with ⟨t, ht, hmore⟩
    rcases nextLine_of_holds (by decide) (by decide) hmore 1 with ⟨u, hu, -⟩
    have hopening : parseOpening 2 (Bytes.ascii "x") = .error (.openingExpected 2) := by
      decide
    refine ⟨u, ?_⟩
    rw [read, ht]
    simp only [if_true, readStanzas_eq, hu, hopening]
    rfl
  refine ⟨hread, ?_, ?_⟩
  · rcases hread with ⟨rest, hread⟩
    rcases first_bad_line.1 hheld hread rfl with
      ⟨lines, bad, more, hdata, hcount, -, hbad, hviable, hnot⟩
    exact ⟨lines, bad, more, hdata, hcount, hbad, hviable, hnot⟩
  · have haccepted : Accepted { stanzas := [], mac := Block.zeros 32 } :=
      accepted_iff.2 fun s hs => (by cases hs)
    refine first_bad_line.2 _ haccepted intro ?_ (by decide) ?_ _
      (.of_delivers (ScriptedSource.delivers_ofBytes _))
    · rw [encode, signedBytes]
      simp only [List.append_assoc]
      exact List.prefix_append ..
    · intro hwhole
      have hlen := congrArg List.length hwhole
      simp only [encode, signedBytes, List.length_append, List.length_singleton] at hlen
      omega

end Header
end AgeCrypt
