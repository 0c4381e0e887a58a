/-!
# Command line options

How a command line is taken apart: options with a long name and maybe a short one, with or without a
value, and words that belong to no option.

* A value may follow in an argument of its own, after an equals sign, or directly after a short
  name.
* Short names may share an argument; all but the last must then take no value.
* A value in an argument of its own must not look like an option; a single dash does not.
* Two dashes end the options.
-/

namespace AgeCrypt
namespace Cli

structure OptionSpec where
  -- The name after two dashes.
  long : String
  -- The name after one dash.
  short : Option Char := none
  -- Whether it has a value.
  takesValue : Bool := false
  -- Whether it may be given more than once.
  repeatable : Bool := false
  -- Whether the value may be empty.
  mayBeEmpty : Bool := false

/-- The parts of a command line that help can be asked for. -/
inductive Topic where
  | program
  | keygen
  | encrypt
  | decrypt
  | config
  | showConfig
deriving DecidableEq, Repr

/-- What may be given in a part of a command line. -/
structure Grammar where
  -- Which part this is.
  topic : Topic
  options : List OptionSpec
  -- How many words may be given besides.
  words : Nat := 0
  -- Whether the first word is a command, at which this part ends.
  command : Bool := false

/-- Why a command line is not run. -/
inductive Stop where
  -- It asks for help, in brief or at length.
  | help (topic : Topic) (brief : Bool)
  -- It asks for the version.
  | version
  | usage
deriving DecidableEq, Repr

structure Given where
  -- The options by their long names, with their values, in order.
  options : List (String × String) := []
  -- The words that belong to no option, in order.
  words : List String := []
deriving DecidableEq, Repr

namespace Given

def has (g : Given) (long : String) : Bool :=
  g.options.any fun o => o.1 == long

def values (g : Given) (long : String) : List String :=
  (g.options.filter fun o => o.1 == long).map (·.2)

def value? (g : Given) (long : String) : Option String :=
  (g.values long).head?

/-- Take in an option.  A request for the version is met at once, and so is one for help, which is
answered by `help`. -/
def addOption (g : Given) (help : Stop) (o : OptionSpec) (value : String) : Except Stop Given :=
  if o.long = "help" then .error help
  else if o.long = "version" then .error .version
  else if ¬ o.repeatable ∧ g.has o.long then .error .usage
  else if o.takesValue ∧ ¬ o.mayBeEmpty ∧ value = "" then .error .usage
  else .ok { g with options := g.options ++ [(o.long, value)] }

def addWord (g : Given) (limit : Nat) (word : String) : Except Stop Given :=
  if limit ≤ g.words.length ∨ word = "" then .error .usage
  else .ok { g with words := g.words ++ [word] }

end Given

inductive Shape where
  | dashes
  -- A long name, with the text after the equals sign if there is one.
  | long (name : String) (value : Option String)
  | short (letters : List Char)
  | word
deriving DecidableEq, Repr

def shape (arg : String) : Shape :=
  match arg.toList with
  | ['-', '-'] => .dashes
  | '-' :: '-' :: cs =>
      .long (String.ofList (cs.takeWhile (· ≠ '=')))
        (match cs.dropWhile (· ≠ '=') with
          | _ :: value => some (String.ofList value)
          | [] => none)
  | '-' :: c :: cs => .short (c :: cs)
  | _ => .word

namespace Grammar

def long? (g : Grammar) (name : String) : Option OptionSpec :=
  g.options.find? fun o => o.long == name

def short? (g : Grammar) (letter : Char) : Option OptionSpec :=
  g.options.find? fun o => o.short == some letter

/-- Take in the short names of an argument.  The answer also has the option whose value is still to
come, if there is one. -/
def scanLetters (g : Grammar) (given : Given) :
    List Char → Except Stop (Given × Option OptionSpec)
  | [] => .ok (given, none)
  | c :: cs =>
      match g.short? c with
      | none => .error .usage
      | some o =>
          let add := given.addOption (.help g.topic true) o
          if o.takesValue then
            match cs with
            | [] => .ok (given, some o)
            | '=' :: value => (add (String.ofList value)).map fun r => (r, none)
            | value => (add (String.ofList value)).map fun r => (r, none)
          else
            match add "" with
            | .error stop => .error stop
            | .ok given => scanLetters g given cs

/-- Take in an argument that names options.  The answer also has the option whose value is still to
come, if there is one. -/
def scanOption (g : Grammar) (given : Given) : Shape → Except Stop (Given × Option OptionSpec)
  | .long name value =>
      match g.long? name, value with
      | none, _ => .error .usage
      | some o, some value =>
          if o.takesValue then
            (given.addOption (.help g.topic false) o value).map fun r => (r, none)
          else
            .error .usage
      | some o, none =>
          if o.takesValue then
            .ok (given, some o)
          else
            (given.addOption (.help g.topic false) o "").map fun r => (r, none)
  | .short letters => g.scanLetters given letters
  | _ => .error .usage

def scanWords (g : Grammar) (given : Given) (args : List String) : Except Stop Given :=
  args.foldlM (fun given word => given.addWord g.words word) given

/-- Take in the arguments of a part of a command line.  The answer also has what is left: the
command and the arguments after it, where there is one. -/
def scan (g : Grammar) (given : Given) : List String → Except Stop (Given × List String)
  | [] => .ok (given, [])
  | arg :: args =>
      match shape arg with
      | .dashes => (g.scanWords given args).map fun r => (r, [])
      | .word =>
          if g.command then
            .ok (given, arg :: args)
          else
            match given.addWord g.words arg with
            | .error stop => .error stop
            | .ok given => scan g given args
      | option =>
          match g.scanOption given option with
          | .error stop => .error stop
          | .ok (given, none) => scan g given args
          | .ok (given, some o) =>
              match args with
              | [] => .error .usage
              | value :: args =>
                  if shape value = .word then
                    match given.addOption (.help g.topic false) o value with
                    | .error stop => .error stop
                    | .ok given => scan g given args
                  else
                    .error .usage

end Grammar

end Cli
end AgeCrypt
