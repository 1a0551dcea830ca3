import PluginAudit.Number.Binary64
import PluginAudit.Text.Blank
import PluginAudit.Text.Case
import PluginAudit.Text.Digits
import PluginAudit.Text.Utf16

/-!
# Versions

A version is a text cut into parts at `.`, `-`, `+` and the space. Two versions are compared part by
part, a missing part counting as `0`: numerals by their value as doubles, anything else in lower
case by the order of units. Numerals so large that both become infinite do not compare at all, which
is why a comparison has four outcomes.
-/

namespace PluginAudit

open Text

/-- How one version stands to another. -/
inductive Comparison where
  | less
  | equal
  | greater
  | unordered
  deriving Repr, DecidableEq, Inhabited

namespace Comparison

/-- The outcome for the two versions exchanged. -/
def swap : Comparison → Comparison
  | less => greater
  | greater => less
  | c => c

def ofOrdering : Ordering → Comparison
  | .lt => less
  | .eq => equal
  | .gt => greater

end Comparison

namespace Version

/-- The version assumed of a file that is absent or carries none. -/
def unknown : String := "0.0.0.0"

/-- Whether a character separates the parts of a version. -/
def isSeparator (c : Char) : Bool := c == '.' || c == '-' || c == '+' || c == ' '

def parts (version : String) : List (List Char) := words isSeparator (trim version.toList)

/-- Compares two numerals by the doubles nearest to their values. -/
def compareNumerals (a b : List Char) : Comparison :=
  match Binary64.roundNat (numeralValue a), Binary64.roundNat (numeralValue b) with
  | some m, some n => .ofOrdering (compare m n)
  | some _, none => .less
  | none, some _ => .greater
  | none, none => .unordered

def comparePart (a b : List Char) : Comparison :=
  if isNumeral a && isNumeral b then compareNumerals a b
  else .ofOrdering (compareUnits (lower a) (lower b))

/-- The first comparison that is not `equal`, for two lists of parts of which the shorter is filled
up with zeros. -/
def compareParts : List (List Char) → List (List Char) → Comparison
  | [], [] => .equal
  | [], b :: bs => step (comparePart ['0'] b) (compareParts [] bs)
  | a :: as, [] => step (comparePart a ['0']) (compareParts as [])
  | a :: as, b :: bs => step (comparePart a b) (compareParts as bs)
where
  /-- The first outcome unless it is `equal`. -/
  step (first rest : Comparison) : Comparison :=
    match first with
    | .equal => rest
    | c => c

def compare (a b : String) : Comparison := compareParts (parts a) (parts b)

end Version

inductive Comparator where
  /-- The sign `==`. -/
  | eq
  /-- The sign `!=`. -/
  | ne
  /-- The sign `<`. -/
  | lt
  /-- The sign `>`. -/
  | gt
  /-- The sign `>=`. -/
  | ge
  /-- The sign `<=`. -/
  | le
  deriving Repr, DecidableEq, Inhabited

namespace Comparator

def all : List Comparator := [eq, ne, lt, gt, ge, le]

def symbol : Comparator → String
  | eq => "=="
  | ne => "!="
  | lt => "<"
  | gt => ">"
  | ge => ">="
  | le => "<="

/-- The sign that a text writes. -/
def ofSymbol? (s : String) : Option Comparator := all.find? (·.symbol = s)

/-- Whether a sign admits an outcome. Of two versions that do not compare, only `!=` is true. -/
def admits : Comparator → Comparison → Bool
  | eq, c => c == .equal
  | ne, c => c != .equal
  | lt, c => c == .less
  | gt, c => c == .greater
  | ge, c => c == .greater || c == .equal
  | le, c => c == .less || c == .equal

/-- Whether the installed version stands to the given one as the sign says. -/
def holds (sign : Comparator) (actual given : String) : Bool :=
  sign.admits (Version.compare actual given)

end Comparator

end PluginAudit
