import AgeCrypt.Base64.Standard
import AgeCrypt.Proofs.Header.Reading

/-!
# One reading for each header

What `Header.read` takes off the front of a buffered source is exactly what `Header.encode` writes
for a header that can be read back, and it takes nothing else (`read_iff_encode_append`).  A header
can be read back if its types and arguments are names and its opening lines are short enough
(`Stanza.readable_iff`).

Since reading is a function of the bytes held, no bytes begin with two headers.

What is written and cannot be read back is refused for its first line that is too long
(`read_of_long`).
-/

namespace AgeCrypt

/-- What it takes for a stanza to be read back, in bytes. -/
theorem Stanza.readable_iff {s : Stanza} :
    s.Readable ↔
      (∀ name ∈ s.tag :: s.args,
        Text.utf8 name ≠ [] ∧ ∀ x ∈ Text.utf8 name, 33 ≤ x ∧ x ≤ 126) ∧
        s.openingLine.length ≤ 16384 := by
  have hname : ∀ name, isName (Text.utf8 name) = true ↔
      Text.utf8 name ≠ [] ∧ ∀ x ∈ Text.utf8 name, 33 ≤ x ∧ x ≤ 126 := by
    intro name
    simp only [isName_iff, Ascii.isVisible, Bool.and_eq_true, decide_eq_true_eq]
  constructor
  · rintro ⟨hnamed, hlen⟩
    exact ⟨fun name hmem => (hname name).1 (hnamed name hmem), hlen⟩
  · rintro ⟨hnamed, hlen⟩
    exact ⟨fun name hmem => (hname name).2 (hnamed name hmem), hlen⟩

namespace Header

open Buffered ByteSource

variable {σ : Type} [ByteSource σ] {input : Buffered σ} {data : Bytes} {ending : Option IoError}

section

variable [Base64]

/-- A header is read, and `more` left, just if the bytes held are that header and then `more`. -/
theorem read_eq_ok_iff (h : input.Holds data ending) {header : Header} {more : Bytes} :
    (∃ rest, read input = (.ok header, rest) ∧ rest.Holds more ending) ↔
      data = header.encode ++ more ∧ ∀ s ∈ header.stanzas, s.Readable := by
  constructor
  · rintro ⟨rest, hread, hrest⟩
    rcases of_read_ok h hread with ⟨hreadable, left, hdata, hleft⟩
    have hmore : left = more := (hleft.unique hrest).1
    exact ⟨hmore ▸ hdata, hreadable⟩
  · rintro ⟨rfl, hreadable⟩
    exact read_of_holds hreadable h

/-- No bytes begin with two headers that can be read back. -/
theorem encode_append_inj {header header' : Header} {more more' : Bytes}
    (hreadable : ∀ s ∈ header.stanzas, s.Readable)
    (hreadable' : ∀ s ∈ header'.stanzas, s.Readable)
    (heq : header.encode ++ more = header'.encode ++ more') : header = header' ∧ more = more' := by
  -- whatever source gives these bytes, it is read in one way
  have hheld : ({ inner := ScriptedSource.ofBytes (header.encode ++ more) } :
      Buffered ScriptedSource).Holds (header.encode ++ more) :=
    .of_delivers (ScriptedSource.delivers_ofBytes _)
  rcases (read_eq_ok_iff hheld).2 ⟨rfl, hreadable⟩ with ⟨rest, hread, hrest⟩
  rcases (read_eq_ok_iff hheld).2 ⟨heq, hreadable'⟩ with ⟨rest', hread', hrest'⟩
  cases hread.symm.trans hread'
  exact ⟨rfl, (hrest.unique hrest').1⟩

/-- Reading accepts exactly the grammar of headers.  Whatever room the buffer has, if it has any,
and whatever the sizes in which its source gives the bytes and the interruptions on the way, a
header is read and `more` is left unread just if the bytes are the header as it is written, with
`more` behind it, where every type and every argument is visible ASCII and not empty and no opening
line is longer than 16384 bytes.  And there is no second way to read them. -/
theorem read_iff_encode_append (h : input.Holds data ending) :
    (∀ (header : Header) (more : Bytes),
      (∃ rest, read input = (.ok header, rest) ∧ rest.Holds more ending) ↔
        data = header.encode ++ more ∧ ∀ s ∈ header.stanzas,
          (∀ name ∈ s.tag :: s.args,
            Text.utf8 name ≠ [] ∧ ∀ x ∈ Text.utf8 name, 33 ≤ x ∧ x ≤ 126) ∧
          s.openingLine.length ≤ 16384) ∧
      ∀ (header header' : Header) (more more' : Bytes),
        data = header.encode ++ more → data = header'.encode ++ more' →
        (∀ s ∈ header.stanzas, s.Readable) → (∀ s ∈ header'.stanzas, s.Readable) →
          header = header' ∧ more = more' := by
  refine ⟨fun header more => ?_, ?_⟩
  · rw [read_eq_ok_iff h]
    simp only [Stanza.readable_iff]
  · intro header header' more more' hdata hdata' hreadable hreadable'
    exact encode_append_inj hreadable hreadable' (hdata.symm.trans hdata')

end

def sample : Header :=
  { stanzas :=
      [{ tag := "a", args := ["b", "c"], body := List.replicate 48 5 }, { tag := "d" }]
    mac := Block.zeros 32 }

/-- Three bytes of buffer over a source that gives one or two bytes at a time and is interrupted
twice. -/
def sampleInput : Buffered ScriptedSource :=
  { inner :=
      { data := sample.encode ++ [10, 7]
        portions := #[1, 2]
        faults := [(0, .device .interrupted "injected"), (70, .device .interrupted "injected")] }
    capacity := 3 }

/-- The sample is read through the small buffer, and the bytes behind it are left. -/
theorem read_iff_encode_append_sample :
    sampleInput.Holds (sample.encode ++ [10, 7]) ∧
      ∃ rest, read sampleInput = (.ok sample, rest) ∧ rest.Holds [10, 7] := by
  have hdelivers : Delivers sampleInput.inner (sample.encode ++ [10, 7]) :=
    ScriptedSource.delivers (s := sampleInput.inner) (by decide) (by decide)
  have hheld : sampleInput.Holds (sample.encode ++ [10, 7]) :=
    ⟨by decide, sample.encode ++ [10, 7], rfl, hdelivers⟩
  refine ⟨hheld, ((read_iff_encode_append hheld).1 sample [10, 7]).2 ⟨rfl, ?_⟩⟩
  intro s hs
  simp only [← Stanza.readable_iff]
  simp only [sample, List.mem_cons, List.not_mem_nil, or_false] at hs
  rcases hs with rfl | rfl
  · exact ⟨by decide, by decide⟩
  · exact ⟨by decide, by decide⟩

/-! ## Lines that are too long -/

/-- A line with more bytes than the limit is refused under its own number, whether or not it ends.
-/
theorem nextLine_of_long {line more : Bytes} (hline : Ascii.newline ∉ line)
    (hlen : maxLineLength < line.length) (h : input.Holds (line ++ more)) (lines : Nat) :
    ∃ t, nextLine input lines = (.error (.lineTooLong (lines + 1)), t) := by
  have hclip : clip (some (maxLineLength + 1)) (line ++ more) = line.take (maxLineLength + 1) :=
    List.take_append_of_le_length hlen
  have hmem : Ascii.newline ∉ line.take (maxLineLength + 1) :=
    fun hmem => hline (List.mem_of_mem_take hmem)
  have htaken_len : (line.take (maxLineLength + 1)).length = maxLineLength + 1 :=
    List.length_take_of_le hlen
  rcases h.readLine (some (maxLineLength + 1)) with ⟨t, ⟨hread, -⟩ | ⟨e, -, hend, -⟩⟩
  · rw [hclip, through_of_notMem hmem] at hread
    refine ⟨t, ?_⟩
    generalize line.take (maxLineLength + 1) = taken at hread hmem htaken_len
    cases taken with
    | nil => cases htaken_len
    | cons x tail =>
        have hlast : (x :: tail).getLast? ≠ some Ascii.newline :=
          fun hlast => hmem (List.mem_of_getLast? hlast)
        simp only [nextLine, hread, if_neg hlast, htaken_len, if_true]
  · cases hend

variable [Base64]

/-- Stanzas that are written but not read back: the first that is too long is refused. -/
theorem readStanzas_of_long {stanzas : List Stanza} {more : Bytes}
    (hnamed : ∀ s ∈ stanzas, s.Named)
    (hlong : ∃ s ∈ stanzas, maxLineLength < s.openingLine.length)
    (h : input.Holds (stanzas.flatMap Stanza.encode ++ more)) (lines : Nat) :
    ∃ n t, readStanzas input lines = (.error (.lineTooLong n), t) := by
  -- stanza by stanza, as they are read, up to the one that is too long
  induction stanzas generalizing input lines with
  | nil =>
      rcases hlong with ⟨s, hs, -⟩
      cases hs
  | cons s stanzas ih =>
      have hline := newline_notMem_openingLine (hnamed s (List.mem_cons_self ..))
      simp only [List.flatMap_cons, Stanza.encode, List.append_assoc] at h
      by_cases hlen : maxLineLength < s.openingLine.length
      · rcases nextLine_of_long hline hlen h lines with ⟨t, ht⟩
        refine ⟨lines + 1, t, ?_⟩
        rw [readStanzas_eq, ht]
      · rcases nextLine_of_holds hline (Nat.le_of_not_lt hlen) h lines with ⟨t, ht, hbody⟩
        rcases readBody_of_holds hbody (lines + 1) with ⟨n, u, hu, hmore⟩
        have hlater : ∃ s ∈ stanzas, maxLineLength < s.openingLine.length := by
          rcases hlong with ⟨r, hr, hrlen⟩
          rcases List.mem_cons.1 hr with rfl | hr
          · exact absurd hrlen hlen
          · exact ⟨r, hr, hrlen⟩
        rcases ih (fun r hr => hnamed r (List.mem_cons_of_mem _ hr)) hlater hmore n with ⟨m, v, hv⟩
        refine ⟨m, v, ?_⟩
        rw [readStanzas_of_opening ht (closingMark_isPrefixOf_openingLine s)
          ((parseOpening_eq_ok_iff s.body).2 ⟨rfl, hnamed s (List.mem_cons_self ..)⟩) hu, hv]

/-- A header with an opening line over the limit is not read back. -/
theorem read_of_long {header : Header} {more : Bytes} (hnamed : ∀ s ∈ header.stanzas, s.Named)
    (hlong : ∃ s ∈ header.stanzas, maxLineLength < s.openingLine.length)
    (h : input.Holds (header.encode ++ more)) :
    ∃ n t, read input = (.error (.lineTooLong n), t) := by
  rw [encode_append] at h
  rcases nextLine_of_holds (by decide) (by decide) h 0 with ⟨t, ht, hheld⟩
  rcases readStanzas_of_long hnamed hlong hheld 1 with ⟨n, u, hu⟩
  refine ⟨n, u, ?_⟩
  simp only [read, ht, hu, if_true]

end Header
end AgeCrypt
