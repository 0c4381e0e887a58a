import AgeCrypt.Toml.Number
import AgeCrypt.Toml.Text
import AgeCrypt.Toml.Value

/-!
# TOML documents

A document is a sequence of lines: headers, which name the table that the lines after them belong
to, and entries, which put a value under a key.  Reading a document finds the lines first and then
puts the tables together.

Keys have fewer than `depthLimit` names, and so many brackets may be open at the same time at most.
-/

namespace AgeCrypt
namespace Toml

/-- The number of names of a key, and of brackets inside one another, must stay below this. -/
def depthLimit : Nat := 80

/-! ## Keys -/

/-- One name of a key: bare, or quoted on one line. -/
def scanName : Scan String := fun cs =>
  match cs with
  | '"' :: _ => Quoting.basic.scan cs
  | '\'' :: _ => Quoting.literal.scan cs
  | _ =>
      match cs.takeWhile isBare with
      | [] => none
      | name => some (String.ofList name, cs.dropWhile isBare)

/-- Names with dots between them, the count bounded by `fuel`. -/
def scanNames : (fuel : Nat) → Scan (List String)
  | 0 => failure
  | fuel + 1 => do
      Scan.blanks
      let name ← scanName
      Scan.blanks
      if ← Scan.accept '.' then
        return name :: (← scanNames fuel)
      else
        return [name]

def scanKey : Scan Key := do
  let names ← scanNames (depthLimit - 1)
  match names.getLast? with
  | some name => return ⟨names.dropLast, name⟩
  | none => failure

/-! ## Values -/

/-- What follows the opening bracket of an array, given how its items are read. -/
def scanItems (item : Scan Value) : (fuel : Nat) → Scan (List Value)
  | 0 => failure
  | fuel + 1 => do
      Scan.gap
      if ← Scan.accept ']' then
        return []
      else
        let v ← item
        Scan.gap
        if ← Scan.accept ',' then
          return v :: (← scanItems item fuel)
        else
          Scan.char ']'
          return [v]

/-- What follows the opening brace of a table that is not empty, given how its values are read. -/
def scanFields (value : Scan Value) : (fuel : Nat) → Scan (List (Key × Value))
  | 0 => failure
  | fuel + 1 => do
      let key ← scanKey
      Scan.char '='
      Scan.blanks
      let v ← value
      Scan.blanks
      if ← Scan.accept ',' then
        return (key, v) :: (← scanFields value fuel)
      else
        Scan.char '}'
        return [(key, v)]

def scanScalar : Scan Value := fun cs =>
  match cs with
  | 't' :: _ => (Scan.word "true" cs).map fun r => (.boolean true, r.2)
  | 'f' :: _ => (Scan.word "false" cs).map fun r => (.boolean false, r.2)
  | '"' :: _ | '\'' :: _ => (scanText cs).map fun r => (.text r.1, r.2)
  | _ => numberOrDate cs

/-- A value in which at most `room` brackets are open at the same time. -/
def scanValue : (room : Nat) → Scan Value
  | 0 => scanScalar
  | room + 1 => do
      let start ← Scan.rest
      if ← Scan.accept '[' then
        return .array (← scanItems (scanValue room) start.length)
      else if ← Scan.accept '{' then
        Scan.blanks
        if ← Scan.accept '}' then
          return .table .braces []
        else
          let fields ← scanFields (scanValue room) start.length
          return .table .braces (← StateT.lift (Entries.ofList .braces fields))
      else
        scanScalar

/-! ## Lines -/

inductive Line where
  | table (key : Key)
  -- The header of the next of the tables under one name.
  | element (key : Key)
  | entry (key : Key) (value : Value)

def scanHeader : Scan Line := do
  Scan.char '['
  if ← Scan.accept '[' then
    let key ← scanKey
    Scan.word "]]"
    Scan.lineEnd
    return .element key
  else
    let key ← scanKey
    Scan.char ']'
    Scan.lineEnd
    return .table key

def scanEntry : Scan Line := do
  let key ← scanKey
  Scan.char '='
  Scan.blanks
  let v ← scanValue (depthLimit - 1)
  Scan.lineEnd
  return .entry key v

/-- All lines of a text, the count bounded by `fuel`. -/
def scanLines : (fuel : Nat) → List Char → Option (List Line)
  | 0, _ => none
  | fuel + 1, cs =>
      match cs.dropWhile isBlank with
      | [] => some []
      | c :: cs => do
          if c = '#' ∨ c = '\n' ∨ c = '\r' then
            let ((), left) ← Scan.lineEnd (c :: cs)
            scanLines fuel left
          else
            let (line, left) ← (if c = '[' then scanHeader else scanEntry) (c :: cs)
            return line :: (← scanLines fuel left)

/-! ## Documents -/

/-- The tables of a document while it is put together, and the table that entries belong to. -/
structure Draft where
  -- What the document says so far.
  root : Entries := []
  -- The path of the table that entries belong to.
  place : List String := []

def Draft.add (d : Draft) : Line → Option Draft
  | .table key => do
      return { root := ← d.root.openTable key, place := key.names }
  | .element key => do
      return { root := ← d.root.openElement key, place := key.names }
  | .entry key v => do
      let change := fun (origin : Origin) (es : Entries) => es.insert key v origin
      return { d with root := ← d.root.modify false change d.place .header }

/-- What a document says.  A byte order mark at its start is skipped. -/
def parse (text : String) : Option Entries := do
  let cs := match text.toList with
    | '\uFEFF' :: cs => cs
    | cs => cs
  let lines ← scanLines (cs.length + 1) cs
  let draft ← lines.foldlM Draft.add {}
  return draft.root

end Toml
end AgeCrypt
