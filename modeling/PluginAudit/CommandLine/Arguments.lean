import PluginAudit.CommandLine.Similar

/-!
# Sorting arguments

The arguments of a command are operands, options and the values of options. Options may stand
anywhere before the argument `--`, after which everything is an operand. From the first option on
that is not known, all arguments but known options are set aside, so that another set of options may
be tried on them.
-/

namespace PluginAudit.CommandLine

structure Flag where
  long : String
  /-- Its short name, if it has any. -/
  short : Option String := none
  /-- How its value is called; none for an option without a value. -/
  value : Option String := none
  deriving Repr, DecidableEq, Inhabited

def Flag.shown (f : Flag) : String :=
  (f.short.map (· ++ ", ")).getD "" ++ f.long ++ (f.value.map (" " ++ ·)).getD ""

/-- What is wrong with the arguments. -/
inductive Misuse where
  | unknownCommand (name : String) (known : List String)
  | unknownOption (name : String) (known : List String)
  | missingValue (flag : Flag)
  | missingArgument (name : String)
  deriving Repr, DecidableEq, Inhabited

def Misuse.message : Misuse → String
  | unknownCommand name known =>
    "error: unknown command '" ++ name ++ "'" ++ proposalLine name known
  | unknownOption name known =>
    "error: unknown option '" ++ name ++ "'" ++
      if name.startsWith "--" then proposalLine name known else ""
  | missingValue flag => "error: option '" ++ flag.shown ++ "' argument missing"
  | missingArgument name => "error: missing required argument '" ++ name ++ "'"

structure Arguments where
  operands : List String := []
  /-- The options by their long names, with their values. -/
  options : List (String × String) := []
  /-- The arguments that are set aside, the first of them an option that is not known. -/
  aside : List String := []
  deriving Repr, DecidableEq, Inhabited

namespace Arguments

def has (a : Arguments) (long : String) : Bool := (a.options.lookup long).isSome

/-- The values given for an option, in order. -/
def values (a : Arguments) (long : String) : List String :=
  a.options.filterMap fun (name, v) => if name = long then some v else none

/-- The value given last for an option. -/
def value? (a : Arguments) (long : String) : Option String := (a.values long).getLast?

/-- Adds an argument that is no known option. -/
def add (a : Arguments) (isAside : Bool) (arg : String) : Arguments :=
  if isAside then { a with aside := arg :: a.aside } else { a with operands := arg :: a.operands }

def addOption (a : Arguments) (flag : Flag) (value : String) : Arguments :=
  { a with options := (flag.long, value) :: a.options }

/-- Whether an argument looks like an option. -/
def isOption (arg : String) : Bool :=
  match arg.toList with
  | '-' :: _ :: _ => true
  | _ => false

/-- The known option of a name. -/
def find? (known : List Flag) (name : String) : Option Flag :=
  known.find? fun f => f.long = name || f.short = some name

/-- A known option and the value written in the same argument: `--name=value`, or a short name with
more after it. -/
def joined? (known : List Flag) (arg : String) : Option (Flag × String) :=
  match arg.toList with
  | '-' :: '-' :: c :: cs =>
    let name := (c :: cs).takeWhile (· ≠ '=')
    let rest := (c :: cs).dropWhile (· ≠ '=')
    match find? known (String.ofList ('-' :: '-' :: name)) with
    | some f =>
      if f.value.isSome && !rest.isEmpty then some (f, String.ofList (rest.drop 1)) else none
    | none => none
  | '-' :: c :: rest =>
    if c = '-' || rest.isEmpty then none
    else (find? known (String.ofList ['-', c])).map fun f => (f, String.ofList rest)
  | _ => none

def sort (known : List Flag) (isAside : Bool) : List String → Except Misuse Arguments
  | [] => .ok {}
  | "--" :: rest =>
    .ok (if isAside then { aside := "--" :: rest } else { operands := rest })
  | arg :: rest =>
    if isOption arg then
      match find? known arg with
      | some f =>
        if f.value.isSome then
          match rest with
          | [] => .error (.missingValue f)
          | v :: rest => (sort known isAside rest).map (·.addOption f v)
        else (sort known isAside rest).map (·.addOption f "")
      | none =>
        match joined? known arg with
        | some (f, v) => (sort known isAside rest).map (·.addOption f v)
        | none => (sort known true rest).map (·.add true arg)
    else (sort known isAside rest).map (·.add isAside arg)

end Arguments

end PluginAudit.CommandLine
