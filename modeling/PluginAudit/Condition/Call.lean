import PluginAudit.Condition.Literal
import PluginAudit.Text.Search

/-!
# Calls

A condition may call nine functions. A call begins at the start of the masked condition, after a
blank or after an opening parenthesis, and ends at the first closing parenthesis after it; its
arguments stand on one line. `FunctionCall.findAll` lists the calls function by function, which is
the order in which they are answered.
-/

namespace PluginAudit.Condition

open Text

/-- A function that a condition may call. -/
inductive Function where
  /-- A file exists, or one that matches a pattern. -/
  | file
  /-- A file exists and can be read. -/
  | readable
  /-- A plugin is active, or one that matches a pattern. -/
  | active
  /-- More than one file matches a pattern. -/
  | many
  /-- More than one active plugin matches a pattern. -/
  | manyActive
  | isMaster
  | checksum
  | version
  /-- A program has a product version. -/
  | productVersion
  deriving Repr, DecidableEq, Inhabited

namespace Function

/-- The functions, in the order in which their calls are answered. -/
def all : List Function :=
  [file, readable, active, many, manyActive, isMaster, checksum, version, productVersion]

def name : Function → String
  | file => "file"
  | readable => "readable"
  | active => "active"
  | many => "many"
  | manyActive => "many_active"
  | isMaster => "is_master"
  | checksum => "checksum"
  | version => "version"
  | productVersion => "product_version"

def ofName? (s : String) : Option Function := all.find? (·.name = s)

/-- The number of arguments a function takes. -/
def arity : Function → Nat
  | checksum => 2
  | version => 3
  | productVersion => 3
  | _ => 1

end Function

/-- A call found in a condition. -/
structure FunctionCall where
  function : Function
  /-- The text between the parentheses, its literals restored. -/
  rawArgs : List Char
  /-- The call as it stands in the masked condition. -/
  callText : List Char
  deriving Repr, DecidableEq, Inhabited

namespace FunctionCall

/-- The arguments of a call of `name` that begins here, and what follows it. -/
def here? (name cs : List Char) : Option (List Char × List Char) :=
  (afterStart? (name ++ ['(']) cs).bind (upTo? [')'])

/-- What follows a call is no longer than the text. -/
theorem length_le_of_here? {name cs args rest : List Char}
    (h : here? name cs = some (args, rest)) : rest.length ≤ cs.length := by
  simp only [here?, Option.bind_eq_some_iff] at h
  obtain ⟨r, hr, hu⟩ := h
  exact Nat.le_trans (length_le_of_upTo? hu) (length_le_of_afterStart? hr)

/-- Whether a call may stand right after a character. -/
def mayPrecede (c : Char) : Bool := isBlank c || c == '('

/-- The arguments of the calls of `name` in a text that stands after some other character. -/
def argumentsAfter (name : List Char) : List Char → List (List Char)
  | [] => []
  | c :: cs =>
    if mayPrecede c then
      match h : here? name cs with
      | some (args, rest) =>
        have := length_le_of_here? h
        args :: argumentsAfter name rest
      | none => argumentsAfter name cs
    else argumentsAfter name cs
  termination_by cs => cs.length

/-- The arguments of the calls of `name` in a whole text. -/
def argumentsIn (name cs : List Char) : List (List Char) :=
  match here? name cs with
  | some (args, rest) => args :: argumentsAfter name rest
  | none => argumentsAfter name cs

/-- The calls of one function in a masked condition. -/
def find (m : Masked) (f : Function) : List FunctionCall :=
  let name := f.name.toList
  (argumentsIn name m.text).map fun args =>
    ⟨f, Literal.restore m.literals args, name ++ '(' :: args ++ [')']⟩

/-- The calls of a masked condition, function by function. -/
def findAll (m : Masked) : List FunctionCall := Function.all.flatMap (find m)

end FunctionCall

end PluginAudit.Condition
