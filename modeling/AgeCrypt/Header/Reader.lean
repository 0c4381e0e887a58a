import AgeCrypt.Header.Basic
import AgeCrypt.Io.Buffered

/-!
# Reading headers

A header is read line by line from a buffered source, and nothing after its closing line is taken.
Reading is strict: it accepts only what `Header.encode` writes, so a header that was read is written
back as the same bytes.
-/

namespace AgeCrypt
namespace Header

open Buffered

variable {σ : Type} [ByteSource σ]

/-! ## Lines -/

def splitBlanks : Bytes → List Bytes
  | [] => [[]]
  | x :: rest =>
      match splitBlanks rest with
      | [] => [[x]]
      | part :: parts => if x = Ascii.space then [] :: part :: parts else (x :: part) :: parts

/-- The type and the arguments that an opening line names. -/
def parseOpening (number : Nat) (line : Bytes) : Except HeaderError (String × List String) :=
  if ¬ Stanza.mark.isPrefixOf line then
    .error (.openingExpected number)
  else
    match splitBlanks line with
    | mark :: tag :: args =>
        if mark = Stanza.mark ∧ (tag :: args).all Stanza.isName then
          .ok (Text.ofAscii tag, args.map Text.ofAscii)
        else
          .error (.malformedStanza number)
    | _ => .error (.malformedStanza number)

/-- The next line without its line feed, after `lines` lines; `none` is the end of input. -/
def nextLine (input : Buffered σ) (lines : Nat) :
    Except HeaderError (Option Bytes) × Buffered σ :=
  match input.readLine (some (maxLineLength + 1)) with
  | (.error e, rest) => (.error (.io e), rest)
  | (.ok [], rest) => (.ok none, rest)
  | (.ok (x :: tail), rest) =>
      if (x :: tail).getLast? = some Ascii.newline then
        (.ok (some (x :: tail).dropLast), rest)
      else if (x :: tail).length = maxLineLength + 1 then
        (.error (.lineTooLong (lines + 1)), rest)
      else
        (.error .truncated, rest)

/-- A line takes something out of the input: at least its line feed. -/
theorem weight_nextLine {input rest : Buffered σ} {lines : Nat} {line : Bytes}
    (h : nextLine input lines = (.ok (some line), rest)) : rest.weight < input.weight := by
  unfold nextLine at h
  split at h
  · cases h
  · cases h
  · rename_i x tail t hr
    have := weight_readLine_ok hr
    simp only [List.length_cons] at this
    split at h
    · cases h
      omega
    · split at h <;> cases h

variable [Base64]

def parseBodyLine (number : Nat) (line : Bytes) : Except HeaderError Bytes :=
  if columnsPerLine < line.length then
    .error (.bodyLineTooLong number)
  else if (Text.ofUtf8? line).isNone then
    .error (.invalidBase64 number)
  else
    decodeField number line

def parseClosing (number : Nat) (line : Bytes) : Except HeaderError (Block 32) :=
  match splitBlanks line with
  | [mark, field] =>
      match Base64.decode? field with
      | some b =>
          match Block.ofBytes? 32 b with
          | some mac => if mark = closingMark then .ok mac else .error (.malformedClosing number)
          | none => .error (.malformedClosing number)
      | none => .error (.malformedClosing number)
  | _ => .error (.malformedClosing number)

/-! ## Reading -/

/-- A stanza body, after `lines` lines, and the number of lines after it. -/
def readBody (input : Buffered σ) (lines : Nat) :
    Except HeaderError (Bytes × Nat) × Buffered σ :=
  match _h : nextLine input lines with
  | (.error e, rest) => (.error e, rest)
  | (.ok none, rest) => (.error .truncated, rest)
  | (.ok (some line), rest) =>
      match parseBodyLine (lines + 1) line with
      | .error e => (.error e, rest)
      | .ok piece =>
          if piece.length < bytesPerLine then
            (.ok (piece, lines + 1), rest)
          else
            match readBody rest (lines + 1) with
            | (.ok (body, n), rest) => (.ok (piece ++ body, n), rest)
            | (.error e, rest) => (.error e, rest)
termination_by input.weight
decreasing_by exact weight_nextLine _h

/-- The lines of a body take something out of the input, so reading stanzas comes to an end. -/
theorem weight_readBody {input rest : Buffered σ} {lines : Nat} {r : Bytes × Nat}
    (h : readBody input lines = (.ok r, rest)) : rest.weight < input.weight := by
  fun_induction readBody input lines generalizing r rest with
  | case1 => cases h
  | case2 => cases h
  | case3 => cases h
  | case4 input lines line t hn piece hp hl =>
      cases h
      exact weight_nextLine hn
  | case5 input lines line t hn piece hp hl body n t' hr ih =>
      cases h
      exact Nat.lt_trans (ih hr) (weight_nextLine hn)
  | case6 => cases h

/-- The stanzas and the code of a header whose first `lines` lines have been read. -/
def readStanzas (input : Buffered σ) (lines : Nat) :
    Except HeaderError (List Stanza × Block 32) × Buffered σ :=
  match _h : nextLine input lines with
  | (.error e, rest) => (.error e, rest)
  | (.ok none, rest) => (.error .truncated, rest)
  | (.ok (some line), rest) =>
      if closingMark.isPrefixOf line then
        match parseClosing (lines + 1) line with
        | .ok mac => (.ok ([], mac), rest)
        | .error e => (.error e, rest)
      else
        match parseOpening (lines + 1) line with
        | .error e => (.error e, rest)
        | .ok (tag, args) =>
            match _hb : readBody rest (lines + 1) with
            | (.error e, rest) => (.error e, rest)
            | (.ok (body, n), rest) =>
                match readStanzas rest n with
                | (.ok (stanzas, mac), rest) => (.ok (⟨tag, args, body⟩ :: stanzas, mac), rest)
                | (.error e, rest) => (.error e, rest)
termination_by input.weight
decreasing_by exact Nat.lt_trans (weight_readBody _hb) (weight_nextLine _h)

/-- Read a header, through the line feed of its closing line. -/
def read (input : Buffered σ) : Except HeaderError Header × Buffered σ :=
  match nextLine input 0 with
  | (.error e, rest) => (.error e, rest)
  | (.ok none, rest) => (.error .wrongIntro, rest)
  | (.ok (some line), rest) =>
      if line = intro then
        match readStanzas rest 1 with
        | (.ok (stanzas, mac), rest) => (.ok ⟨stanzas, mac⟩, rest)
        | (.error e, rest) => (.error e, rest)
      else
        (.error .wrongIntro, rest)

end Header
end AgeCrypt
