import PluginAudit.Text.Distance
import PluginAudit.Text.Utf16

/-!
# Similar names

For a name that is not known, the known names that are least far from it are proposed, if they have
more than two fifths in common with it and are at most three changes away.
-/

namespace PluginAudit.CommandLine

/-- The greatest number of changes between a name and one that is proposed for it. -/
def mostChanges : Nat := 3

/-- The distance of two names, if they are similar. -/
def similarity? (word candidate : String) : Option Nat :=
  let as := Text.units word.toList
  let bs := Text.units candidate.toList
  let changes := Text.distance as bs
  let length := max as.length bs.length
  if 1 < bs.length && changes ≤ mostChanges && 2 * length < 5 * (length - changes) then some changes
  else none

/-- The names that are proposed for a word. -/
def nearest (word : String) (candidates : List String) : List String :=
  let found := candidates.eraseDups.filterMap fun c => (similarity? word c).map fun n => (n, c)
  let least := (found.map (·.1)).min?
  ((found.filter fun (n, _) => some n = least).map (·.2)).mergeSort Text.unitsLe

/-- A name without the two hyphens that options begin with. -/
def withoutHyphens (name : String) : String := String.ofList (name.toList.drop 2)

/-- The names that are proposed for a word; options are compared without their hyphens. -/
def proposals (word : String) (candidates : List String) : List String :=
  if word.startsWith "--" then
    (nearest (withoutHyphens word) (candidates.map withoutHyphens)).map ("--" ++ ·)
  else nearest word candidates

def proposalLine (word : String) (candidates : List String) : String :=
  match proposals word candidates with
  | [] => ""
  | [name] => "\n(Did you mean " ++ name ++ "?)"
  | names => "\n(Did you mean one of " ++ ", ".intercalate names ++ "?)"

end PluginAudit.CommandLine
