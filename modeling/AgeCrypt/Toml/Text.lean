import AgeCrypt.Toml.Scan

/-!
# TOML strings

A string is written in one of four ways: with double quotes, where a backslash escapes, or with
single quotes, where nothing does; and each of them with one quote on either side, for one line, or
with three, for any number of lines.

Reading has two steps.  The first finds the quotes that end the string; the second works out what
stands between them.  Writing chooses the plainest way that a text admits.
-/

namespace AgeCrypt
namespace Toml

/-- A way to write a string. -/
structure Quoting where
  -- Whether a backslash escapes; the quotes are then double ones.
  escapes : Bool
  -- Whether there are three quotes on either side, so line ends may stand between them.
  lines : Bool
deriving DecidableEq, Repr

namespace Quoting

def mark (q : Quoting) : Char :=
  if q.escapes then '"' else '\''

def delimiter (q : Quoting) : List Char :=
  if q.lines then [q.mark, q.mark, q.mark] else [q.mark]

/-! ## Reading -/

/-- Split a text at the closing quotes.  Of four or five quotes in a row the last three close a
string of several lines. -/
def split (q : Quoting) : List Char → Option (List Char × List Char)
  | [] => none
  | c :: cs =>
      if c = q.mark then
        if q.lines then
          match cs with
          | d :: e :: cs' =>
              if d = q.mark ∧ e = q.mark then
                let more := (cs'.take 2).takeWhile (· = q.mark)
                some (more, cs'.drop more.length)
              else
                (split q cs).map fun r => (c :: r.1, r.2)
          | _ => none
        else
          some ([], cs)
      else if c = '\\' ∧ q.escapes then
        match cs with
        | d :: cs' => (split q cs').map fun r => (c :: d :: r.1, r.2)
        | [] => none
      else
        (split q cs).map fun r => (c :: r.1, r.2)

def codePoint? (n : Nat) : Option Char :=
  if n.isValidChar then some (Char.ofNat n) else none

def hexNumber? (cs : List Char) : Option Nat :=
  cs.foldlM (fun n c => (hexDigit? c).map fun d => 16 * n + d) 0

def hexChar? (cs : List Char) : Option Char := do
  codePoint? (← hexNumber? cs)

/-- The character that a backslash and a letter stand for. -/
def letter? : Char → Option Char
  | 'b' => some '\x08'
  | 't' => some '\t'
  | 'n' => some '\n'
  | 'f' => some '\x0c'
  | 'r' => some '\r'
  | '"' => some '"'
  | '\\' => some '\\'
  | _ => none

/-- Whether nothing but blanks stands before the next line end. -/
def endsLine (cs : List Char) : Bool :=
  (Scan.lineBreak? (cs.dropWhile isBlank)).isSome

/-- What the characters between the quotes say.  A line end is read as a line feed.  A backslash at
the end of a line drops the line end and all white space after it; `skipping` tells that this is
going on. -/
def decode (q : Quoting) : (skipping : Bool) → List Char → Option (List Char)
  | _, [] => some []
  | skipping, c :: cs =>
      if q.lines ∧ c = '\r' ∧ cs.head? = some '\n' then
        decode q skipping cs
      else if q.lines ∧ c = '\n' then
        if skipping then decode q true cs else (decode q false cs).map ('\n' :: ·)
      else if skipping ∧ isBlank c then
        decode q true cs
      else if q.escapes ∧ c = '\\' then
        if q.lines ∧ endsLine cs then
          decode q true cs
        else
          match cs with
          | 'u' :: h1 :: h2 :: h3 :: h4 :: cs' => do
              let x ← hexChar? [h1, h2, h3, h4]
              (decode q false cs').map (x :: ·)
          | 'U' :: h1 :: h2 :: h3 :: h4 :: h5 :: h6 :: h7 :: h8 :: cs' => do
              let x ← hexChar? [h1, h2, h3, h4, h5, h6, h7, h8]
              (decode q false cs').map (x :: ·)
          | d :: cs' => do
              let x ← letter? d
              (decode q false cs').map (x :: ·)
          | [] => none
      else if isPlain c then
        (decode q false cs).map (c :: ·)
      else
        none

def scan (q : Quoting) : Scan String := do
  Scan.word (String.ofList q.delimiter)
  let cs ← Scan.rest
  let (inside, left) ← split q (if q.lines then Scan.skipLineBreak cs else cs)
  let text ← decode q false inside
  Scan.leave left
  return String.ofList text

def basic : Quoting := ⟨true, false⟩

def literal : Quoting := ⟨false, false⟩

def basicLines : Quoting := ⟨true, true⟩

def literalLines : Quoting := ⟨false, true⟩

/-! ## Writing -/

/-- The longest run of `c` in a text, given the length of the run before it. -/
def longestRun (c : Char) (before : Nat) : List Char → Nat
  | [] => before
  | x :: cs =>
      if x = c then longestRun c (before + 1) cs else max before (longestRun c 0 cs)

def needsEscape (c : Char) : Bool :=
  !isPlain c && c != '\n'

/-- The plainest way to write a text. -/
def choose (text : List Char) : Quoting :=
  let escape := text.any needsEscape
  let backslash := text.elem '\\'
  let newline := text.elem '\n'
  let doubles := longestRun '"' 0 text
  let singles := longestRun '\'' 0 text
  if ¬ escape ∧ ¬ backslash ∧ doubles = 0 ∧ ¬ newline then basic
  else if ¬ escape ∧ singles = 0 ∧ ¬ newline then literal
  else if ¬ escape ∧ ¬ backslash ∧ doubles ≤ 2 then basicLines
  else if ¬ escape ∧ singles ≤ 2 then literalLines
  else if newline then basicLines
  else basic

def hexDigits (n : Nat) : List Char :=
  [n / 4096, n / 256, n / 16, n].map fun d => (Nat.digitChar (d % 16)).toUpper

/-- How a character is written where a backslash escapes, if not as itself. -/
def escape? (q : Quoting) (c : Char) : Option (List Char) :=
  match c with
  | '\x08' => some ['\\', 'b']
  | '\t' => some ['\\', 't']
  | '\n' => if q.lines then none else some ['\\', 'n']
  | '\x0c' => some ['\\', 'f']
  | '\r' => some ['\\', 'r']
  | '\\' => some ['\\', '\\']
  | c => if isPlain c then none else some ('\\' :: 'u' :: hexDigits c.toNat)

/-- The most quotes in a row that may stand in a text written with escapes. -/
def maxQuotes (q : Quoting) : Nat :=
  if q.lines then 2 else 0

/-- A text as it stands between the quotes, given how many quotes stand before it in a row. -/
def encode (q : Quoting) (quotes : Nat) : List Char → List Char
  | [] => []
  | c :: cs =>
      if ¬ q.escapes then
        c :: encode q 0 cs
      else if c = '"' then
        if quotes < q.maxQuotes then
          c :: encode q (quotes + 1) cs
        else
          '\\' :: c :: encode q 0 cs
      else
        match q.escape? c with
        | some piece => piece ++ encode q 0 cs
        | none => c :: encode q 0 cs

def write (q : Quoting) (text : List Char) : List Char :=
  let lead := if q.lines ∧ text.elem '\n' then ['\n'] else []
  q.delimiter ++ lead ++ q.encode 0 text ++ q.delimiter

end Quoting

def scanText : Scan String := fun cs =>
  match cs with
  | '"' :: '"' :: '"' :: _ => Quoting.basicLines.scan cs
  | '"' :: _ => Quoting.basic.scan cs
  | '\'' :: '\'' :: '\'' :: _ => Quoting.literalLines.scan cs
  | '\'' :: _ => Quoting.literal.scan cs
  | _ => none

def writeText (text : String) : String :=
  String.ofList ((Quoting.choose text.toList).write text.toList)

end Toml
end AgeCrypt
