/-!
# Paths

A path is a text with slashes between its parts.  A part that is empty or a single dot does not lead
anywhere.
-/

namespace AgeCrypt
namespace Path

/-- The pieces between the slashes of a text; there is one more of them than slashes. -/
def splitSlashes : List Char → List (List Char)
  | [] => [[]]
  | c :: cs =>
      if c = '/' then
        [] :: splitSlashes cs
      else
        match splitSlashes cs with
        | [] => [[c]]
        | piece :: pieces => (c :: piece) :: pieces

def parts (path : String) : List String :=
  (splitSlashes path.toList).map String.ofList

/-- Whether a part leads nowhere. -/
def isVoid (part : String) : Bool :=
  part = "" || part = "."

/-- Whether a path is a single dash, which a trailing slash does not change. -/
def isDash (path : String) : Bool :=
  match parts path with
  | first :: rest => first = "-" && rest.all isVoid
  | [] => false

/-- The parts before the last name of a path, if a slash follows that name.  Dots are no name. -/
def beforeSlashed? (parts : List String) : Option (List String) :=
  match parts.reverse with
  | "" :: rest =>
      match rest.dropWhile (· = "") with
      | name :: before => if name = "." ∨ name = ".." then none else some before.reverse
      | [] => none
  | _ => none

/-- Parts without those at either end that lead nowhere. -/
def trim (parts : List String) : List String :=
  ((parts.dropWhile isVoid).reverse.dropWhile isVoid).reverse

def below (directory path : String) : String :=
  if directory = "" ∨ directory.toList.getLast? = some '/' then
    directory ++ path
  else
    directory ++ "/" ++ path

/-- A path in which the first part `~` stands for the home directory, if there is one. -/
def expandHome (home : Option String) (path : String) : String :=
  match home, parts path with
  | some home, "~" :: rest => below home (String.intercalate "/" (trim rest))
  | _, _ => path

end Path
end AgeCrypt
