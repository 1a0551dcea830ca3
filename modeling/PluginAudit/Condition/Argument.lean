import PluginAudit.Condition.Call
import PluginAudit.Condition.Fault
import PluginAudit.Text.Digits
import PluginAudit.Version

/-!
# Arguments

The text between the parentheses of a call, read as the arguments its function takes. Commas
separate arguments unless they stand between double quotes; a string argument is one quoted literal,
taken as it is written, backslashes included; a checksum is hexadecimal; a comparator is one of the
six comparison signs.
-/

namespace PluginAudit.Condition

open Text

inductive Call where
  /-- `file(path)`. -/
  | file (path : String)
  /-- `readable(path)`. -/
  | readable (path : String)
  /-- `active(plugin)`. -/
  | active (plugin : String)
  /-- `many(pattern)`. -/
  | many (pattern : String)
  /-- `many_active(pattern)`. -/
  | manyActive (pattern : String)
  /-- `is_master(plugin)`. -/
  | isMaster (plugin : String)
  /-- `checksum(path, crc)`. -/
  | checksum (path : String) (crc : UInt32)
  /-- `version(path, version, comparator)`. -/
  | version (path given : String) (comparator : Comparator)
  /-- `product_version(path, version, comparator)`. -/
  | productVersion (path given : String) (comparator : Comparator)
  deriving Repr, DecidableEq, Inhabited

namespace Argument

/-- The parts of a text between the commas that are outside double quotes. -/
def splitAfter (quoted : Bool) : List Char → List (List Char)
  | [] => [[]]
  | c :: cs =>
    if c = ',' && !quoted then [] :: splitAfter quoted cs
    else match splitAfter (if c = '"' then !quoted else quoted) cs with
      | [] => [[c]]
      | p :: ps => (c :: p) :: ps

/-- The arguments of a call, without the blanks around them. -/
def split (cs : List Char) : List (List Char) := (splitAfter false cs).map trim

/-- The text between a quote and the same quote at the very end, if there is none inside. -/
def unquote? : List Char → Option (List Char)
  | [] => none
  | q :: cs =>
    if Literal.isQuote q then
      match Literal.closing? q cs with
      | some (inside, []) => some inside
      | _ => none
    else none

/-- The number of backslashes a text ends with. -/
def trailingBackslashes (cs : List Char) : Nat := (cs.reverse.takeWhile (· == '\\')).length

/-- The content of a string argument. -/
def readString (cs : List Char) : Except Fault String :=
  match unquote? cs with
  | some inside =>
    if trailingBackslashes inside % 2 = 1 then .error (.invalidArgument (String.ofList cs))
    else .ok (String.ofList inside)
  | none => .error (.invalidArgument (String.ofList cs))

/-- A text without a leading `0x`. -/
def withoutHexMark : List Char → List Char
  | '0' :: 'x' :: cs => cs
  | '0' :: 'X' :: cs => cs
  | cs => cs

/-- The value of a checksum argument. -/
def readChecksum (cs : List Char) : Except Fault UInt32 :=
  match hexValue? (withoutHexMark cs) with
  | none => .error (.invalidChecksum (String.ofList cs))
  | some n =>
    if n < UInt32.size then .ok n.toUInt32 else .error (.checksumRange (String.ofList cs))

/-- The sign of a comparator argument. -/
def readComparator (cs : List Char) : Except Fault Comparator :=
  match Comparator.ofSymbol? (String.ofList cs) with
  | some sign => .ok sign
  | none => .error (.invalidComparator (String.ofList cs))

end Argument

namespace Call

open Argument

/-- The two strings and the comparator of a version call; the comparator is read first. -/
def readVersionArgs (path given sign : List Char) :
    Except Fault (String × String × Comparator) := do
  let sign ← readComparator sign
  let path ← readString path
  let given ← readString given
  return (path, given, sign)

/-- The call of a function with the arguments that a text writes. -/
def read (f : Function) (rawArgs : List Char) : Except Fault Call :=
  let args := split rawArgs
  match f, args with
  | .file, [a] => file <$> readString a
  | .readable, [a] => readable <$> readString a
  | .active, [a] => active <$> readString a
  | .many, [a] => many <$> readString a
  | .manyActive, [a] => manyActive <$> readString a
  | .isMaster, [a] => isMaster <$> readString a
  | .checksum, [a, b] => do
    let path ← readString a
    let crc ← readChecksum b
    return checksum path crc
  | .version, [a, b, c] => (fun (p, g, s) => version p g s) <$> readVersionArgs a b c
  | .productVersion, [a, b, c] =>
    (fun (p, g, s) => productVersion p g s) <$> readVersionArgs a b c
  | f, args => .error (.argumentCount f.name f.arity args.length (String.ofList rawArgs))

end Call

end PluginAudit.Condition
