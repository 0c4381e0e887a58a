import AgeCrypt.Proofs.Header.Reading

/-!
# Headers line by line

Where a header may go on after some of its lines depends on them only through what is expected next
(`Expected`).  `Expected.next` says what is expected after one line more, or why the line is
refused, and `Passes` follows it through line after line.

What may stand behind the lines so far is `Completes`.  A line is taken just if something that
completes the header begins with it (`completes_cons_iff`), so lines that pass can be completed
(`completes_lines_iff`, `exists_completes`), and nothing that begins with a line that is refused
completes them (`Refuses.not_completes`).
-/

namespace AgeCrypt
namespace Header

/-! ## What is expected -/

variable [Base64]

/-- What the next line of a header is to be. -/
inductive Expected where
  | intro
  -- The opening line of a stanza, or the closing line.
  | stanza
  | body
deriving DecidableEq

/-- What is expected after the line with the given number, which is nothing after the closing line;
or why the line is refused. -/
def Expected.next (number : Nat) : Expected → Bytes → Except HeaderError (Option Expected)
  | .intro, line => if line = Header.intro then .ok (some .stanza) else .error .wrongIntro
  | .stanza, line =>
      if closingMark.isPrefixOf line then
        (parseClosing number line).map fun _ => none
      else
        (parseOpening number line).map fun _ => some .body
  | .body, line =>
      (parseBodyLine number line).map fun piece =>
        some (if piece.length < bytesPerLine then .stanza else .body)

/-- After `count` lines, where `p` is expected, the lines are taken, and `q` is expected then. -/
inductive Passes : Nat → Expected → List Bytes → Expected → Prop where
  | nil {count : Nat} {p : Expected} : Passes count p [] p
  | cons {count : Nat} {p q r : Expected} {line : Bytes} {lines : List Bytes}
      (hline : Ascii.newline ∉ line) (hlen : line.length ≤ maxLineLength)
      (hnext : p.next (count + 1) line = .ok (some q)) (h : Passes (count + 1) q lines r) :
      Passes count p (line :: lines) r

/-- No line holds a line feed, so lines can be told from their text. -/
theorem Passes.newline_notMem {count : Nat} {p q : Expected} {lines : List Bytes}
    (h : Passes count p lines q) : ∀ line ∈ lines, Ascii.newline ∉ line := by
  induction h with
  | nil =>
      intro line hmem
      cases hmem
  | cons hline hlen hnext h ih =>
      intro line hmem
      rcases List.mem_cons.1 hmem with rfl | hmem
      · exact hline
      · exact ih line hmem

/-- Lines that pass may follow others that pass. -/
theorem Passes.append {count : Nat} {p q r : Expected} {a b : List Bytes}
    (ha : Passes count p a q) (hb : Passes (count + a.length) q b r) :
    Passes count p (a ++ b) r := by
  induction ha with
  | nil => exact hb
  | @cons count p q _ line a hline hlen hnext _ ih =>
      refine .cons hline hlen hnext (ih ?_)
      rw [List.length_cons, Nat.add_comm a.length 1, ← Nat.add_assoc] at hb
      exact hb

/-! ## What completes a header -/

/-- Stanzas that can be read back, and a closing line. -/
def Ends (rest : Bytes) : Prop :=
  ∃ (stanzas : List Stanza) (mac : Block 32), (∀ s ∈ stanzas, s.Readable) ∧
    rest = stanzas.flatMap Stanza.encode ++ (closingLine mac ++ [Ascii.newline])

/-- What may stand in a header from where a line is expected to its end. -/
def Completes : Expected → Bytes → Prop
  | .intro, rest => ∃ more, Ends more ∧ rest = Header.intro ++ Ascii.newline :: more
  | .stanza, rest => Ends rest
  | .body, rest => ∃ body more, Ends more ∧ rest = Stanza.encodeBody body ++ more

/-- What may stand in a header behind a line: nothing if nothing is expected any more. -/
def CompletesAfter : Option Expected → Bytes → Prop
  | none, rest => rest = []
  | some p, rest => Completes p rest

/-- What may stand from the start of a header to its end is just what is written of headers. -/
theorem completes_intro_iff {rest : Bytes} :
    Completes .intro rest ↔
      ∃ header : Header, (∀ s ∈ header.stanzas, s.Readable) ∧ rest = header.encode := by
  constructor
  · rintro ⟨more, ⟨stanzas, mac, hreadable, rfl⟩, rfl⟩
    refine ⟨⟨stanzas, mac⟩, hreadable, ?_⟩
    rw [← List.append_nil (encode _), encode_append]
  · rintro ⟨header, hreadable, rfl⟩
    refine ⟨_, ⟨header.stanzas, header.mac, hreadable, rfl⟩, ?_⟩
    rw [← List.append_nil header.encode, encode_append]

/-- Whatever is expected, the header can be completed. -/
theorem exists_completes (p : Expected) : ∃ rest, Completes p rest := by
  have hends : Ends (closingLine (Block.zeros 32) ++ [Ascii.newline]) :=
    ⟨[], Block.zeros 32, fun s hs => (by cases hs), rfl⟩
  cases p with
  | intro => exact ⟨_, _, hends, rfl⟩
  | stanza => exact ⟨_, hends⟩
  | body => exact ⟨_, [], _, hends, rfl⟩

/-! ## One line -/

/-- Behind a stanza stands another one, or the closing line and nothing behind it. -/
theorem ends_cons_iff {line rest : Bytes} (hline : Ascii.newline ∉ line) :
    Ends (line ++ Ascii.newline :: rest) ↔
      (∃ mac, line = closingLine mac ∧ rest = []) ∨
        ∃ s : Stanza, s.Readable ∧ line = s.openingLine ∧ Completes .body rest := by
  constructor
  · rintro ⟨stanzas, mac, hreadable, h⟩
    cases stanzas with
    | nil =>
        rcases Buffered.split_inj hline (newline_notMem_closingLine mac) h with ⟨rfl, rfl⟩
        exact .inl ⟨mac, rfl, rfl⟩
    | cons s stanzas =>
        have hs := hreadable s (List.mem_cons_self ..)
        simp only [List.flatMap_cons, Stanza.encode, List.append_assoc, List.singleton_append] at h
        rcases Buffered.split_inj hline (newline_notMem_openingLine hs.named) h with ⟨rfl, rfl⟩
        exact .inr ⟨s, hs, rfl, s.body, _,
          ⟨stanzas, mac, fun s hs => hreadable s (List.mem_cons_of_mem _ hs), rfl⟩, rfl⟩
  · rintro (⟨mac, rfl, rfl⟩ | ⟨s, hs, rfl, body, more, ⟨stanzas, mac, hreadable, rfl⟩, rfl⟩)
    · exact ⟨[], mac, fun s hs => (by cases hs), rfl⟩
    · -- the line opens a stanza whatever body follows it
      refine ⟨{ s with body } :: stanzas, mac, ?_, ?_⟩
      · intro t ht
        rcases List.mem_cons.1 ht with rfl | ht
        · exact ⟨hs.named, hs.length_le⟩
        · exact hreadable t ht
      · simp only [List.flatMap_cons, Stanza.encode, List.append_assoc, List.singleton_append]
        rfl

/-- A body goes on as long as its lines are full. -/
theorem completes_body_cons_iff {line rest : Bytes} (hline : Ascii.newline ∉ line) :
    Completes .body (line ++ Ascii.newline :: rest) ↔
      ∃ piece, line = Base64.encode piece ∧ piece.length ≤ bytesPerLine ∧
        Completes (if piece.length < bytesPerLine then .stanza else .body) rest := by
  constructor
  · rintro ⟨body, more, hmore, h⟩
    rw [encodeBody_eq, List.append_assoc, List.cons_append] at h
    rcases Buffered.split_inj hline (newline_notMem_encode _) h with ⟨rfl, rfl⟩
    refine ⟨body.take bytesPerLine, rfl, List.length_take_le _ _, ?_⟩
    by_cases hshort : body.length < bytesPerLine
    · have hpiece : (body.take bytesPerLine).length < bytesPerLine := by
        rw [List.length_take]
        omega
      rw [if_pos hpiece, bodyTail, if_pos hshort]
      exact hmore
    · have hpiece : ¬ (body.take bytesPerLine).length < bytesPerLine := by
        rw [List.length_take]
        omega
      rw [if_neg hpiece, bodyTail, if_neg hshort]
      exact ⟨_, more, hmore, rfl⟩
  · rintro ⟨piece, rfl, hlen, hrest⟩
    by_cases hshort : piece.length < bytesPerLine
    · rw [if_pos hshort] at hrest
      refine ⟨piece, rest, hrest, ?_⟩
      rw [encodeBody_of_short hshort, List.append_assoc, List.singleton_append]
    · rw [if_neg hshort] at hrest
      rcases hrest with ⟨body, more, hmore, rfl⟩
      refine ⟨piece ++ body, more, hmore, ?_⟩
      rw [encodeBody_append (Nat.le_antisymm hlen (Nat.le_of_not_lt hshort)), List.append_assoc,
        List.append_assoc, List.singleton_append]

/-- Between stanzas, the closing line or an opening line is taken, and no other. -/
theorem next_stanza_eq_ok_iff {number : Nat} {line : Bytes} {q : Option Expected} :
    Expected.next number .stanza line = .ok q ↔
      (∃ mac, line = closingLine mac ∧ q = none) ∨
        ∃ s : Stanza, s.Named ∧ line = s.openingLine ∧ q = some .body := by
  constructor
  · intro h
    rw [Expected.next] at h
    split at h
    · cases hclosing : parseClosing number line with
      | ok mac =>
          rw [hclosing] at h
          cases h
          exact .inl ⟨mac, parseClosing_eq_ok_iff.1 hclosing, rfl⟩
      | error e =>
          rw [hclosing] at h
          cases h
    · cases hopening : parseOpening number line with
      | ok names =>
          rw [hopening] at h
          cases h
          rcases (parseOpening_eq_ok_iff []).1 hopening with ⟨hline, hnamed⟩
          exact .inr ⟨_, hnamed, hline, rfl⟩
      | error e =>
          rw [hopening] at h
          cases h
  · rintro (⟨mac, rfl, rfl⟩ | ⟨s, hnamed, rfl, rfl⟩)
    · have hmark : closingMark.isPrefixOf (closingLine mac) = true :=
        closingMark_isPrefixOf_joinBlanks _
      have hclosing : parseClosing number (closingLine mac) = .ok mac :=
        parseClosing_eq_ok_iff.2 rfl
      rw [Expected.next, if_pos hmark, hclosing]
      rfl
    · have hmark := closingMark_isPrefixOf_openingLine s
      have hopening : parseOpening number s.openingLine = .ok (s.tag, s.args) :=
        (parseOpening_eq_ok_iff s.body).2 ⟨rfl, hnamed⟩
      rw [Expected.next, hmark, if_neg Bool.false_ne_true, hopening]
      rfl

/-- Inside a body a line is taken that spells no more than it has room for; a short one is the last.
-/
theorem next_body_eq_ok_iff {number : Nat} {line : Bytes} {q : Option Expected} :
    Expected.next number .body line = .ok q ↔
      ∃ piece, line = Base64.encode piece ∧ piece.length ≤ bytesPerLine ∧
        q = some (if piece.length < bytesPerLine then .stanza else .body) := by
  constructor
  · intro h
    cases hpiece : parseBodyLine number line with
    | ok piece =>
        rw [Expected.next, hpiece] at h
        cases h
        rcases parseBodyLine_eq_ok_iff.1 hpiece with ⟨hline, hlen⟩
        exact ⟨piece, hline, hlen, rfl⟩
    | error e =>
        rw [Expected.next, hpiece] at h
        cases h
  · rintro ⟨piece, rfl, hlen, rfl⟩
    have hpiece : parseBodyLine number (Base64.encode piece) = .ok piece :=
      parseBodyLine_eq_ok_iff.2 ⟨rfl, hlen⟩
    rw [Expected.next, hpiece]
    rfl

/-- A line is taken just if something that completes the header begins with it. -/
theorem completes_cons_iff {p : Expected} {line rest : Bytes} (hline : Ascii.newline ∉ line)
    (number : Nat) :
    Completes p (line ++ Ascii.newline :: rest) ↔
      line.length ≤ maxLineLength ∧ ∃ q, p.next number line = .ok q ∧ CompletesAfter q rest := by
  cases p with
  | intro =>
      constructor
      · rintro ⟨more, hmore, h⟩
        rcases Buffered.split_inj hline (by decide) h with ⟨rfl, rfl⟩
        exact ⟨by decide, some .stanza, by rw [Expected.next, if_pos rfl], hmore⟩
      · rintro ⟨-, q, hnext, hrest⟩
        rw [Expected.next] at hnext
        split at hnext
        · rename_i hintro
          cases hnext
          exact ⟨rest, hrest, by rw [hintro]⟩
        · cases hnext
  | stanza =>
      refine (ends_cons_iff hline).trans ⟨?_, ?_⟩
      · rintro (⟨mac, rfl, rfl⟩ | ⟨s, hs, rfl, hrest⟩)
        · exact ⟨length_closingLine_le mac, none, next_stanza_eq_ok_iff.2 (.inl ⟨mac, rfl, rfl⟩),
            rfl⟩
        · exact ⟨hs.length_le, some .body,
            next_stanza_eq_ok_iff.2 (.inr ⟨s, hs.named, rfl, rfl⟩), hrest⟩
      · rintro ⟨hlen, q, hnext, hrest⟩
        rcases next_stanza_eq_ok_iff.1 hnext with ⟨mac, rfl, rfl⟩ | ⟨s, hnamed, rfl, rfl⟩
        · exact .inl ⟨mac, rfl, hrest⟩
        · exact .inr ⟨s, ⟨hnamed, hlen⟩, rfl, hrest⟩
  | body =>
      refine (completes_body_cons_iff hline).trans ⟨?_, ?_⟩
      · rintro ⟨piece, rfl, hlen, hrest⟩
        exact ⟨length_encode_le hlen, _, next_body_eq_ok_iff.2 ⟨piece, rfl, hlen, rfl⟩, hrest⟩
      · rintro ⟨-, q, hnext, hrest⟩
        rcases next_body_eq_ok_iff.1 hnext with ⟨piece, rfl, hlen, rfl⟩
        exact ⟨piece, rfl, hlen, hrest⟩

/-- What completes a header begins with a line. -/
theorem exists_line_of_completes {p : Expected} {rest : Bytes} (h : Completes p rest) :
    ∃ line more, Ascii.newline ∉ line ∧ line.length ≤ maxLineLength ∧
      rest = line ++ Ascii.newline :: more := by
  have hline : ∃ line more, Ascii.newline ∉ line ∧ rest = line ++ Ascii.newline :: more := by
    cases p with
    | intro =>
        rcases h with ⟨more, -, rfl⟩
        exact ⟨Header.intro, more, by decide, rfl⟩
    | stanza =>
        rcases h with ⟨stanzas, mac, hreadable, rfl⟩
        cases stanzas with
        | nil => exact ⟨closingLine mac, [], newline_notMem_closingLine mac, rfl⟩
        | cons s stanzas =>
            refine ⟨s.openingLine, Stanza.encodeBody s.body ++ (stanzas.flatMap Stanza.encode ++
                (closingLine mac ++ [Ascii.newline])),
              newline_notMem_openingLine (hreadable s (List.mem_cons_self ..)).named, ?_⟩
            simp only [List.flatMap_cons, Stanza.encode, List.append_assoc, List.cons_append,
              List.nil_append]
    | body =>
        rcases h with ⟨body, more, -, rfl⟩
        refine ⟨Base64.encode (body.take bytesPerLine), bodyTail body ++ more,
          newline_notMem_encode _, ?_⟩
        rw [encodeBody_eq, List.append_assoc, List.cons_append]
  rcases hline with ⟨line, more, hnewline, rfl⟩
  exact ⟨line, more, hnewline, ((completes_cons_iff hnewline 0).1 h).1, rfl⟩

/-! ## Line after line -/

/-- Behind lines that pass, a header is completed by what is expected after them. -/
theorem completes_lines_iff {count : Nat} {p q : Expected} {lines : List Bytes}
    (h : Passes count p lines q) {rest : Bytes} :
    Completes p (joinLines lines ++ rest) ↔ Completes q rest := by
  induction h with
  | nil => exact Iff.rfl
  | @cons count p q r line lines hline hlen hnext h ih =>
      rw [joinLines_cons_append, completes_cons_iff hline (count + 1), hnext, ← ih]
      constructor
      · rintro ⟨-, q', heq, hrest⟩
        cases heq
        exact hrest
      · intro hrest
        exact ⟨hlen, some q, rfl, hrest⟩

/-- Bytes that are refused as the line with the given number: a line that is not the one expected,
or as many bytes of a line as are read of any. -/
inductive Refuses (number : Nat) (p : Expected) : Bytes → HeaderError → Prop where
  | line {line : Bytes} {e : HeaderError} (hline : Ascii.newline ∉ line)
      (hnext : p.next number line = .error e) : Refuses number p (line ++ [Ascii.newline]) e
  | tooLong {bad : Bytes} (hlen : bad.length = maxLineLength + 1) (hbad : Ascii.newline ∉ bad) :
      Refuses number p bad (.lineTooLong number)

/-- Nothing that begins with what is refused completes a header. -/
theorem Refuses.not_completes {number : Nat} {p : Expected} {bad : Bytes} {e : HeaderError}
    (h : Refuses number p bad e) (rest : Bytes) : ¬ Completes p (bad ++ rest) := by
  intro hcompletes
  cases h with
  | line hline hnext =>
      rw [List.append_assoc, List.singleton_append, completes_cons_iff hline number, hnext]
        at hcompletes
      rcases hcompletes with ⟨-, q, hq, -⟩
      cases hq
  | tooLong hlen hbad =>
      rcases exists_line_of_completes hcompletes with ⟨line, more, -, hline, heq⟩
      -- what has no line feed cannot reach beyond the first line
      have hbegins : bad <+: line := by
        have hwhole : bad <+: line ++ Ascii.newline :: more := heq ▸ List.prefix_append bad rest
        exact Buffered.prefix_of_split hbad hwhole
      have hle := hbegins.length_le
      omega

end Header
end AgeCrypt
