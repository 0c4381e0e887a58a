import AgeCrypt.Proofs.Header.Grammar
import AgeCrypt.Proofs.Io.Lines

/-!
# Reading a header undoes writing it

`Header.read` takes the bytes of a header off the front of a buffered source, and takes nothing
else: `read_of_over` is the way from the header, `of_read_over` the way back.  Both follow the
lines: a line (`nextLine`), the lines of a body (`readBody`), stanza after stanza (`readStanzas`).
An error that stands behind the header is not met.
-/

namespace AgeCrypt
namespace Header

open Buffered ByteSource

variable {σ : Type} [ByteSource σ] {input rest : Buffered σ} {gives : σ → Bytes → Prop}
  {broken : σ → Prop} {data : Bytes} {ending : Option IoError}

/-! ## One line -/

/-- A line is read just if it comes with its line feed. -/
theorem nextLine_eq_ok_iff {lines : Nat} {line : Bytes} :
    nextLine input lines = (.ok (some line), rest) ↔
      input.readLine (some (maxLineLength + 1)) = (.ok (line ++ [Ascii.newline]), rest) := by
  constructor
  · intro h
    unfold nextLine at h
    split at h
    · cases h
    · cases h
    · rename_i x tail t hread
      split at h
      · rename_i hlast
        rcases List.getLast?_eq_some_iff.1 hlast with ⟨line', hgot⟩
        cases h
        rw [hread, hgot, List.dropLast_concat]
      · split at h <;> cases h
  · intro h
    generalize hgot : line ++ [Ascii.newline] = got at h
    have hlast : got.getLast? = some Ascii.newline := by
      rw [← hgot, List.getLast?_concat]
    have hline : got.dropLast = line := by
      rw [← hgot, List.dropLast_concat]
    cases got with
    | nil => cases hlast
    | cons x tail => simp only [nextLine, h, hlast, hline, if_true]

/-- A line within the limit is read, and what is behind it is left. -/
theorem nextLine_of_over (G : Giving gives broken ending) {line more : Bytes}
    (hline : Ascii.newline ∉ line) (hlen : line.length ≤ maxLineLength)
    (h : input.Over gives (line ++ Ascii.newline :: more)) (lines : Nat) :
    ∃ t, nextLine input lines = (.ok (some line), t) ∧ t.Over gives more := by
  -- the limit leaves room for the line feed behind the longest line
  have hclip : clip (some (maxLineLength + 1)) (line ++ Ascii.newline :: more) =
      line ++ Ascii.newline :: more.take (maxLineLength - line.length) := by
    have hroom : maxLineLength + 1 - line.length = maxLineLength - line.length + 1 := by
      omega
    rw [clip, List.take_append, List.take_of_length_le (Nat.le_succ_of_le hlen), hroom,
      List.take_succ_cons]
  rcases h.readLine G (some (maxLineLength + 1)) with ⟨t, ⟨hread, hmore⟩ | ⟨e, -, -, hnone⟩⟩
  · rw [hclip, through_of_split hline] at hread hmore
    exact ⟨t, nextLine_eq_ok_iff.2 hread, by simpa using hmore⟩
  · rw [hclip, through_of_split hline] at hnone
    cases hnone

theorem nextLine_of_holds {line more : Bytes} (hline : Ascii.newline ∉ line)
    (hlen : line.length ≤ maxLineLength)
    (h : input.Holds (line ++ Ascii.newline :: more) ending) (lines : Nat) :
    ∃ t, nextLine input lines = (.ok (some line), t) ∧ t.Holds more ending :=
  nextLine_of_over (Delivers.giving ending) hline hlen h.toOver lines

/-- Whatever line is read stood in front, within the limit. -/
theorem of_nextLine_over (G : Giving gives broken ending) {lines : Nat} {line : Bytes}
    (h : input.Over gives data) (hr : nextLine input lines = (.ok (some line), rest)) :
    Ascii.newline ∉ line ∧ line.length ≤ maxLineLength ∧
      ∃ more, data = line ++ Ascii.newline :: more ∧ rest.Over gives more := by
  have hread := nextLine_eq_ok_iff.1 hr
  rcases h.readLine G (some (maxLineLength + 1)) with ⟨t, ⟨hread', hheld⟩ | ⟨e, hread', -, -⟩⟩
  · rw [hread'] at hread
    simp only [Prod.mk.injEq, Except.ok.injEq] at hread
    rcases hread with ⟨htaken, rfl⟩
    have hclip : clip (some (maxLineLength + 1)) data <+: data := List.take_prefix _ _
    have hclip_le : (clip (some (maxLineLength + 1)) data).length ≤ maxLineLength + 1 :=
      List.length_take_le _ _
    cases hfound : (through Ascii.newline (clip (some (maxLineLength + 1)) data)).2 with
    | true =>
        rcases of_through_found hfound with ⟨line', more, hsplit, hmem, htaken'⟩
        have hline : line = line' := List.append_cancel_right (htaken.symm.trans htaken')
        subst hline
        rw [hsplit] at hclip hclip_le
        rcases hclip with ⟨behind, rfl⟩
        refine ⟨hmem, ?_, more ++ behind, by simp, ?_⟩
        · simp only [List.length_append, List.length_cons] at hclip_le
          omega
        · rw [htaken] at hheld
          simpa using hheld
    | false =>
        -- without a line feed among them, the bytes taken could not end in one
        have hnone := through_of_not_mem hfound
        rw [htaken] at hnone
        exact absurd (hnone.1 ▸ List.mem_append_right line (List.mem_singleton_self _)) hnone.2
  · rw [hread'] at hread
    cases hread

theorem of_nextLine_ok {lines : Nat} {line : Bytes} (h : input.Holds data ending)
    (hr : nextLine input lines = (.ok (some line), rest)) :
    Ascii.newline ∉ line ∧ line.length ≤ maxLineLength ∧
      ∃ more, data = line ++ Ascii.newline :: more ∧ rest.Holds more ending :=
  of_nextLine_over (Delivers.giving ending) h.toOver hr

/-- There is no line only where there is nothing. -/
theorem of_nextLine_none {lines : Nat} (h : input.Holds data ending)
    (hr : nextLine input lines = (.ok none, rest)) : data = [] := by
  unfold nextLine at hr
  split at hr
  · cases hr
  · rename_i t hread
    rcases h.readLine (some (maxLineLength + 1)) with ⟨u, ⟨hread', -⟩ | ⟨e, hread', -, -⟩⟩
    · rw [hread', Prod.mk.injEq, Except.ok.injEq] at hread
      cases data with
      | nil => rfl
      | cons x data =>
          -- the first byte at least is taken
          have htaken := hread.1
          rw [clip, List.take_succ_cons, through] at htaken
          split at htaken <;> cases htaken
    · rw [hread'] at hread
      cases hread
  · split at hr
    · cases hr
    · split at hr <;> cases hr

/-! ## What a line cannot be mistaken for -/

/-- An opening line does not look like a closing line. -/
theorem closingMark_isPrefixOf_openingLine (s : Stanza) :
    closingMark.isPrefixOf s.openingLine = false := by
  rfl

theorem closingMark_isPrefixOf_joinBlanks (rest : List Bytes) :
    closingMark.isPrefixOf (joinBlanks closingMark rest) = true := by
  rw [List.isPrefixOf_iff_prefix]
  exact List.prefix_append ..

theorem newline_notMem_of_visible {line : Bytes} (h : ∀ x ∈ line, Ascii.isVisible x = true) :
    Ascii.newline ∉ line := by
  intro hmem
  exact (Ascii.of_isVisible (h _ hmem)).2.2.1 rfl

/-- An opening line that can be written is a single line. -/
theorem newline_notMem_openingLine {s : Stanza} (h : s.Named) :
    Ascii.newline ∉ s.openingLine := by
  intro hmem
  rcases List.mem_append.1 hmem with hmark | hnames
  · exact absurd hmark (by decide)
  · rcases List.mem_flatMap.1 hnames with ⟨name, hname, hmem⟩
    rcases List.mem_cons.1 hmem with heq | hmem
    · exact absurd heq (by decide)
    · exact newline_notMem_of_visible (Stanza.isName_iff.1 (h name hname)).2 hmem

variable [Base64]

/-! ## Bodies -/

/-- What does not fill a line is the end of a body. -/
theorem encodeBody_of_short {body : Bytes} (h : body.length < bytesPerLine) :
    Stanza.encodeBody body = Base64.encode body ++ [Ascii.newline] := by
  rw [Stanza.encodeBody, if_pos]
  rw [List.length_take]
  omega

/-- What fills a line is followed by another, even if that is empty. -/
theorem encodeBody_append {piece : Bytes} (h : piece.length = bytesPerLine) (body : Bytes) :
    Stanza.encodeBody (piece ++ body) =
      Base64.encode piece ++ [Ascii.newline] ++ Stanza.encodeBody body := by
  rw [Stanza.encodeBody, List.take_left' h, List.drop_left' h, if_neg]
  rw [h]
  exact Nat.lt_irrefl _

def bodyTail (body : Bytes) : Bytes :=
  if body.length < bytesPerLine then [] else Stanza.encodeBody (body.drop bytesPerLine)

theorem encodeBody_eq (body : Bytes) :
    Stanza.encodeBody body =
      Base64.encode (body.take bytesPerLine) ++ Ascii.newline :: bodyTail body := by
  by_cases hshort : body.length < bytesPerLine
  · rw [encodeBody_of_short hshort, bodyTail, if_pos hshort,
      List.take_of_length_le (Nat.le_of_lt hshort)]
  · have hfull : (body.take bytesPerLine).length = bytesPerLine :=
      List.length_take_of_le (Nat.le_of_not_lt hshort)
    have hsplit := encodeBody_append hfull (body.drop bytesPerLine)
    rw [List.take_append_drop] at hsplit
    rw [hsplit, bodyTail, if_neg hshort, List.append_assoc, List.singleton_append]

/-- The way of a body, without the bookkeeping for its termination. -/
theorem readBody_eq (input : Buffered σ) (lines : Nat) :
    readBody input lines =
      match nextLine input lines with
      | (.error e, rest) => (.error e, rest)
      | (.ok none, rest) => (.error .truncated, rest)
      | (.ok (some line), rest) =>
          match parseBodyLine (lines + 1) line with
          | .error e => (.error e, rest)
          | .ok piece =>
              if piece.length < bytesPerLine then
                (.ok (piece, lines + 1), rest)
              else
                match readBody rest (lines + 1) with
                | (.ok (body, n), rest) => (.ok (piece ++ body, n), rest)
                | (.error e, rest) => (.error e, rest) := by
  fun_cases readBody input lines with
  | case1 e t hline => simp only [hline]
  | case2 t hline => simp only [hline]
  | case3 line t hline e hpiece => simp only [hline, hpiece]
  | case4 line t hline piece hpiece hshort => simp only [hline, hpiece, if_pos hshort]
  | case5 line t hline piece hpiece hfull body n t' hbody =>
      simp only [hline, hpiece, if_neg hfull, hbody]
  | case6 line t hline piece hpiece hfull e t' hbody =>
      simp only [hline, hpiece, if_neg hfull, hbody]

/-- A body whose first line is known. -/
theorem readBody_of_nextLine {lines : Nat} {line piece : Bytes}
    (hline : nextLine input lines = (.ok (some line), rest))
    (hpiece : parseBodyLine (lines + 1) line = .ok piece) :
    readBody input lines =
      if piece.length < bytesPerLine then
        (.ok (piece, lines + 1), rest)
      else
        match readBody rest (lines + 1) with
        | (.ok (body, n), rest) => (.ok (piece ++ body, n), rest)
        | (.error e, rest) => (.error e, rest) := by
  rw [readBody_eq]
  simp only [hline, hpiece]

theorem newline_notMem_encode (piece : Bytes) : Ascii.newline ∉ Base64.encode piece :=
  newline_notMem_of_visible fun _ hx => Base64.isVisible_of_mem_encode hx

/-- A line of a body is always short enough to be read. -/
theorem length_encode_le {piece : Bytes} (hlen : piece.length ≤ bytesPerLine) :
    (Base64.encode piece).length ≤ maxLineLength := by
  rw [Base64.length_encode]
  simp only [bytesPerLine, maxLineLength] at hlen ⊢
  omega

theorem nextLine_encode_of_over (G : Giving gives broken ending) {piece more : Bytes}
    (hlen : piece.length ≤ bytesPerLine)
    (h : input.Over gives (Base64.encode piece ++ ([Ascii.newline] ++ more))) (lines : Nat) :
    ∃ t, nextLine input lines = (.ok (some (Base64.encode piece)), t) ∧ t.Over gives more :=
  nextLine_of_over G (newline_notMem_encode piece) (length_encode_le hlen) h lines

/-- The lines of a body come back as the body. -/
theorem readBody_of_over (G : Giving gives broken ending) {body more : Bytes}
    (h : input.Over gives (Stanza.encodeBody body ++ more)) (lines : Nat) :
    ∃ n t, readBody input lines = (.ok (body, n), t) ∧ t.Over gives more := by
  -- line by line, as the body was written; the short line ends it
  fun_induction Stanza.encodeBody body generalizing input lines with
  | case1 body hshort =>
      have hlen : body.length < bytesPerLine := by
        rw [List.length_take] at hshort
        omega
      rw [List.append_assoc] at h
      rcases nextLine_encode_of_over G (Nat.le_of_lt hlen) h lines with ⟨t, ht, hheld⟩
      have hpiece : parseBodyLine (lines + 1) (Base64.encode body) = .ok body :=
        parseBodyLine_eq_ok_iff.2 ⟨rfl, Nat.le_of_lt hlen⟩
      refine ⟨lines + 1, t, ?_, hheld⟩
      rw [readBody_of_nextLine ht hpiece, if_pos hlen]
  | case2 body hshort ih =>
      have hlen : (body.take bytesPerLine).length ≤ bytesPerLine := List.length_take_le _ _
      rw [List.append_assoc, List.append_assoc] at h
      rcases nextLine_encode_of_over G hlen h lines with ⟨t, ht, hheld⟩
      have hpiece : parseBodyLine (lines + 1) (Base64.encode (body.take bytesPerLine)) =
          .ok (body.take bytesPerLine) :=
        parseBodyLine_eq_ok_iff.2 ⟨rfl, hlen⟩
      rcases ih hheld (lines + 1) with ⟨n, u, hu, hrest⟩
      refine ⟨n, u, ?_, hrest⟩
      rw [readBody_of_nextLine ht hpiece, if_neg hshort, hu]
      simp only [List.take_append_drop]

/-- The body that was written is read, and what is behind it is left. -/
theorem readBody_of_holds {body more : Bytes}
    (h : input.Holds (Stanza.encodeBody body ++ more) ending) (lines : Nat) :
    ∃ n t, readBody input lines = (.ok (body, n), t) ∧ t.Holds more ending :=
  readBody_of_over (Delivers.giving ending) h.toOver lines

/-- What is read as a body stands there as its lines. -/
theorem of_readBody_over (G : Giving gives broken ending) {lines n : Nat} {body : Bytes}
    (h : input.Over gives data) (hr : readBody input lines = (.ok (body, n), rest)) :
    ∃ more, data = Stanza.encodeBody body ++ more ∧ rest.Over gives more := by
  -- line by line, as the body was read
  fun_induction readBody input lines generalizing data body n rest with
  | case1 => cases hr
  | case2 => cases hr
  | case3 => cases hr
  | case4 input lines line t hn piece hp hl =>
      cases hr
      rcases of_nextLine_over G h hn with ⟨-, -, more, rfl, hheld⟩
      rcases parseBodyLine_eq_ok_iff.1 hp with ⟨rfl, -⟩
      refine ⟨more, ?_, hheld⟩
      rw [encodeBody_of_short hl]
      simp
  | case5 input lines line t hn piece hp hl body n t' hb ih =>
      cases hr
      rcases of_nextLine_over G h hn with ⟨-, -, more, rfl, hheld⟩
      rcases parseBodyLine_eq_ok_iff.1 hp with ⟨rfl, hle⟩
      rcases ih hheld hb with ⟨more', rfl, hrest⟩
      -- a line that another follows is full, so it is cut off where the writer cuts
      have hlen : piece.length = bytesPerLine := Nat.le_antisymm hle (Nat.le_of_not_lt hl)
      refine ⟨more', ?_, hrest⟩
      rw [encodeBody_append hlen]
      simp
  | case6 => cases hr

/-! ## Stanzas -/

/-- The way of the stanzas, without the bookkeeping for its termination. -/
theorem readStanzas_eq (input : Buffered σ) (lines : Nat) :
    readStanzas input lines =
      match nextLine input lines with
      | (.error e, rest) => (.error e, rest)
      | (.ok none, rest) => (.error .truncated, rest)
      | (.ok (some line), rest) =>
          if closingMark.isPrefixOf line then
            match parseClosing (lines + 1) line with
            | .ok mac => (.ok ([], mac), rest)
            | .error e => (.error e, rest)
          else
            match parseOpening (lines + 1) line with
            | .error e => (.error e, rest)
            | .ok (tag, args) =>
                match readBody rest (lines + 1) with
                | (.error e, rest) => (.error e, rest)
                | (.ok (body, n), rest) =>
                    match readStanzas rest n with
                    | (.ok (stanzas, mac), rest) => (.ok (⟨tag, args, body⟩ :: stanzas, mac), rest)
                    | (.error e, rest) => (.error e, rest) := by
  fun_cases readStanzas input lines with
  | case1 e t hline => simp only [hline]
  | case2 t hline => simp only [hline]
  | case3 line t hline hclosing mac hmac => simp only [hline, if_pos hclosing, hmac]
  | case4 line t hline hclosing e hmac => simp only [hline, if_pos hclosing, hmac]
  | case5 line t hline hother e hopening => simp only [hline, if_neg hother, hopening]
  | case6 line t hline hother tag args hopening e t' hbody =>
      simp only [hline, if_neg hother, hopening, hbody]
  | case7 line t hline hother tag args hopening body n t' hbody stanzas mac t'' hrest =>
      simp only [hline, if_neg hother, hopening, hbody, hrest]
  | case8 line t hline hother tag args hopening body n t' hbody e t'' hrest =>
      simp only [hline, if_neg hother, hopening, hbody, hrest]

/-- A line with the closing mark ends the stanzas. -/
theorem readStanzas_of_closing {lines : Nat} {line : Bytes} {mac : Block 32}
    (hline : nextLine input lines = (.ok (some line), rest))
    (hmark : closingMark.isPrefixOf line = true)
    (hmac : parseClosing (lines + 1) line = .ok mac) :
    readStanzas input lines = (.ok ([], mac), rest) := by
  rw [readStanzas_eq]
  simp only [hline, hmark, hmac, if_true]

/-- Stanzas of which the first is known. -/
theorem readStanzas_of_opening {t : Buffered σ} {lines n : Nat} {line body : Bytes} {tag : String}
    {args : List String} (hline : nextLine input lines = (.ok (some line), rest))
    (hmark : closingMark.isPrefixOf line = false)
    (hopening : parseOpening (lines + 1) line = .ok (tag, args))
    (hbody : readBody rest (lines + 1) = (.ok (body, n), t)) :
    readStanzas input lines =
      match readStanzas t n with
      | (.ok (stanzas, mac), rest) => (.ok (⟨tag, args, body⟩ :: stanzas, mac), rest)
      | (.error e, rest) => (.error e, rest) := by
  rw [readStanzas_eq]
  simp only [hline, hmark, hopening, hbody, Bool.false_eq_true, if_false]

def closingLine (mac : Block 32) : Bytes :=
  joinBlanks closingMark [Base64.encode mac.bytes]

theorem newline_notMem_closingLine (mac : Block 32) : Ascii.newline ∉ closingLine mac := by
  intro hmem
  simp only [closingLine, joinBlanks, List.flatMap_cons, List.flatMap_nil, List.append_nil] at hmem
  rcases List.mem_append.1 hmem with hmark | hmem
  · exact absurd hmark (by decide)
  · rcases List.mem_cons.1 hmem with heq | hmem
    · exact absurd heq (by decide)
    · exact newline_notMem_of_visible (fun x hx => Base64.isVisible_of_mem_encode hx) hmem

/-- A closing line is always short enough to be read. -/
theorem length_closingLine_le (mac : Block 32) : (closingLine mac).length ≤ maxLineLength := by
  have hmark : closingMark.length = 3 := by
    decide
  simp only [closingLine, joinBlanks, List.flatMap_cons, List.flatMap_nil, List.append_nil,
    List.length_append, List.length_cons, Base64.length_encode, mac.length_eq, hmark]
  decide

theorem nextLine_closingLine_of_over (G : Giving gives broken ending) {mac : Block 32}
    {more : Bytes} (h : input.Over gives (closingLine mac ++ Ascii.newline :: more)) (lines : Nat) :
    ∃ t, nextLine input lines = (.ok (some (closingLine mac)), t) ∧ t.Over gives more :=
  nextLine_of_over G (newline_notMem_closingLine mac) (length_closingLine_le mac) h lines

/-- The stanzas that were written are read, with the code behind them, and no more. -/
theorem readStanzas_of_over (G : Giving gives broken ending) {stanzas : List Stanza}
    {mac : Block 32} {more : Bytes} (hreadable : ∀ s ∈ stanzas, s.Readable)
    (h : input.Over gives
      (stanzas.flatMap Stanza.encode ++ (closingLine mac ++ Ascii.newline :: more)))
    (lines : Nat) :
    ∃ t, readStanzas input lines = (.ok (stanzas, mac), t) ∧ t.Over gives more := by
  -- stanza by stanza; the closing line ends them
  induction stanzas generalizing input lines with
  | nil =>
      rcases nextLine_closingLine_of_over G h lines with ⟨t, ht, hheld⟩
      exact ⟨t, readStanzas_of_closing ht (closingMark_isPrefixOf_joinBlanks _)
        (parseClosing_eq_ok_iff.2 rfl), hheld⟩
  | cons s stanzas ih =>
      have hs := hreadable s (List.mem_cons_self ..)
      simp only [List.flatMap_cons, Stanza.encode, List.append_assoc] at h
      rcases nextLine_of_over G (newline_notMem_openingLine hs.named) hs.length_le h lines with
        ⟨t, ht, hbody⟩
      rcases readBody_of_over G hbody (lines + 1) with ⟨n, u, hu, hmore⟩
      rcases ih (fun s hs => hreadable s (List.mem_cons_of_mem _ hs)) hmore n with ⟨v, hv, hheld⟩
      refine ⟨v, ?_, hheld⟩
      rw [readStanzas_of_opening ht (closingMark_isPrefixOf_openingLine s)
        ((parseOpening_eq_ok_iff s.body).2 ⟨rfl, hs.named⟩) hu, hv]

/-- Whatever stanzas are read stood in front just as they are written. -/
theorem of_readStanzas_over (G : Giving gives broken ending) {lines : Nat} {stanzas : List Stanza}
    {mac : Block 32} (h : input.Over gives data)
    (hr : readStanzas input lines = (.ok (stanzas, mac), rest)) :
    (∀ s ∈ stanzas, s.Readable) ∧ ∃ more,
      data = stanzas.flatMap Stanza.encode ++ (closingLine mac ++ Ascii.newline :: more) ∧
        rest.Over gives more := by
  fun_induction readStanzas input lines generalizing data stanzas mac rest with
  | case1 => cases hr
  | case2 => cases hr
  | case3 input lines line t hline hmark mac' hmac =>
      cases hr
      rcases of_nextLine_over G h hline with ⟨-, -, more, rfl, hheld⟩
      refine ⟨fun s hs => (by cases hs), more, ?_, hheld⟩
      rw [parseClosing_eq_ok_iff.1 hmac]
      rfl
  | case4 => cases hr
  | case5 => cases hr
  | case6 => cases hr
  | case7 input lines line t hline hmark tag args hopening body n u hbody stanzas' mac' v hrest ih =>
      cases hr
      rcases of_nextLine_over G h hline with ⟨-, hlen, behind, rfl, hbehind⟩
      rcases (parseOpening_eq_ok_iff body).1 hopening with ⟨rfl, hnamed⟩
      rcases of_readBody_over G hbehind hbody with ⟨others, rfl, hothers⟩
      rcases ih hothers hrest with ⟨hreadable, more, rfl, hmore⟩
      refine ⟨?_, more, ?_, hmore⟩
      · intro s hs
        rcases List.mem_cons.1 hs with rfl | hs
        · exact ⟨hnamed, hlen⟩
        · exact hreadable s hs
      · simp [Stanza.encode]
  | case8 => cases hr

/-! ## Headers -/

/-- A header is its first line, its stanzas and its closing line. -/
theorem encode_append (h : Header) (more : Bytes) :
    h.encode ++ more = intro ++ Ascii.newline ::
      (h.stanzas.flatMap Stanza.encode ++ (closingLine h.mac ++ Ascii.newline :: more)) := by
  simp [encode, signedBytes, closingLine, joinBlanks]

/-- A header that was written is read, and what stands behind it is left. -/
theorem read_of_over (G : Giving gives broken ending) {header : Header} {more : Bytes}
    (hreadable : ∀ s ∈ header.stanzas, s.Readable) (h : input.Over gives (header.encode ++ more)) :
    ∃ t, read input = (.ok header, t) ∧ t.Over gives more := by
  rw [encode_append] at h
  have hintro : Ascii.newline ∉ intro := by
    decide
  rcases nextLine_of_over G hintro (by decide) h 0 with ⟨t, ht, hheld⟩
  rcases readStanzas_of_over G hreadable hheld 1 with ⟨u, hu, hmore⟩
  refine ⟨u, ?_, hmore⟩
  simp only [read, ht, hu, if_true]

/-- The header that was written is read, and what is behind it is left. -/
theorem read_of_holds {header : Header} {more : Bytes}
    (hreadable : ∀ s ∈ header.stanzas, s.Readable)
    (h : input.Holds (header.encode ++ more) ending) :
    ∃ t, read input = (.ok header, t) ∧ t.Holds more ending :=
  read_of_over (Delivers.giving ending) hreadable h.toOver

/-- A header that is read was written, and stands at the front of what was there. -/
theorem of_read_over (G : Giving gives broken ending) {header : Header} (h : input.Over gives data)
    (hr : read input = (.ok header, rest)) :
    (∀ s ∈ header.stanzas, s.Readable) ∧
      ∃ more, data = header.encode ++ more ∧ rest.Over gives more := by
  unfold read at hr
  split at hr
  · cases hr
  · cases hr
  · rename_i line t hline
    split at hr
    · rename_i hintro
      split at hr
      · rename_i stanzas mac u hstanzas
        cases hr
        rcases of_nextLine_over G h hline with ⟨-, -, behind, rfl, hbehind⟩
        rcases of_readStanzas_over G hbehind hstanzas with ⟨hreadable, more, rfl, hmore⟩
        refine ⟨hreadable, more, ?_, hmore⟩
        rw [encode_append, hintro]
      · cases hr
    · cases hr

/-- Whatever header is read stood in front just as it is written. -/
theorem of_read_ok {header : Header} (h : input.Holds data ending)
    (hr : read input = (.ok header, rest)) :
    (∀ s ∈ header.stanzas, s.Readable) ∧
      ∃ more, data = header.encode ++ more ∧ rest.Holds more ending :=
  of_read_over (Delivers.giving ending) h.toOver hr

end Header
end AgeCrypt
