/-!
# TOML values

What a TOML document says: values under names, grouped in tables.  A table remembers how it came
about, because that decides where a document may still add to it:

* a table written in braces is complete;
* a table with a header of its own is added to below that header only;
* a table that is only implied by a longer header may still get a header of its own;
* a table made by dotted keys is added to by dotted keys only.
-/

namespace AgeCrypt
namespace Toml

/-- How a table came about. -/
inductive Origin where
  | braces
  -- By a header of its own, or as the document itself.
  | header
  -- Implied by the header of a table inside it.
  | implied
  | dotted
deriving DecidableEq, Repr

inductive Value where
  | text (s : String)
  | integer (n : Int)
  | float
  | boolean (b : Bool)
  | date
  | array (items : List Value)
  | table (origin : Origin) (entries : List (String × Value))
  -- The tables under a header in double brackets, in order.
  | tables (elements : List (List (String × Value)))

abbrev Entries : Type := List (String × Value)

/-- The key of a value: the names of the tables on the way, and its own name. -/
structure Key where
  -- The names of the tables on the way, the outermost first.
  parents : List String
  name : String

def Key.names (k : Key) : List String :=
  k.parents ++ [k.name]

namespace Entries

def replace (name : String) (v : Value) (es : Entries) : Entries :=
  es.map fun e => if e.1 = name then (name, v) else e

/-- Whether a table may be entered on the way to another one: by a header, or by a dotted key. -/
def mayEnter (byKey : Bool) : Origin → Bool
  | .braces => false
  | .header => !byKey
  | .implied | .dotted => true

/-- Change the table at a path, making the tables that are missing on the way.  Of the tables under
one name the last is meant. -/
def modify (byKey : Bool) (change : Origin → Entries → Option Entries) :
    List String → Origin → Entries → Option Entries
  | [], origin, es => change origin es
  | name :: path, _, es =>
      match es.lookup name with
      | none => do
          let fresh := if byKey then Origin.dotted else Origin.implied
          let inner ← modify byKey change path fresh []
          some (es ++ [(name, .table fresh inner)])
      | some (.table origin inner) =>
          if mayEnter byKey origin then do
            let inner ← modify byKey change path origin inner
            some (es.replace name (.table origin inner))
          else
            none
      | some (.tables elements) => do
          let inner ← modify byKey change path .header (elements.getLast?.getD [])
          some (es.replace name (.tables (elements.dropLast ++ [inner])))
      | some _ => none

/-- Add a value to a table.  A dotted key must lead to a table made by dotted keys, a plain one must
not; and the name must be new. -/
def insert (k : Key) (v : Value) (origin : Origin) (es : Entries) : Option Entries :=
  modify true
    (fun origin es =>
      if (origin = .dotted ↔ k.parents = []) ∨ (es.lookup k.name).isSome then
        none
      else
        some (es ++ [(k.name, v)]))
    k.parents origin es

/-- Add values to an empty table, in order. -/
def ofList (origin : Origin) (values : List (Key × Value)) : Option Entries :=
  values.foldlM (fun es kv => es.insert kv.1 kv.2 origin) []

/-- Give a table a header: it must be new or only implied so far. -/
def openTable (k : Key) (es : Entries) : Option Entries :=
  modify false
    (fun _ es =>
      match es.lookup k.name with
      | none => some (es ++ [(k.name, .table .header [])])
      | some (.table .implied inner) => some (es.replace k.name (.table .header inner))
      | some _ => none)
    k.parents .header es

/-- Begin the next of the tables under one name. -/
def openElement (k : Key) (es : Entries) : Option Entries :=
  modify false
    (fun _ es =>
      match es.lookup k.name with
      | none => some (es ++ [(k.name, .tables [[]])])
      | some (.tables elements) => some (es.replace k.name (.tables (elements ++ [[]])))
      | some _ => none)
    k.parents .header es

end Entries

end Toml
end AgeCrypt
