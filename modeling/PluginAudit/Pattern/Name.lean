import PluginAudit.Condition.Fault
import PluginAudit.Pattern.Assembly

/-!
# Patterns of names

Metadata may name plugins and files by a pattern, a regular expression that is to match the whole
name with letter case ignored. A text with one of the five marks `:`, `\`, `*`, `?` and `|`, none of
which is usual in a file's name, is taken as a pattern.
-/

namespace PluginAudit

open Pattern

/-- Whether a text is a pattern rather than a name. -/
def isPattern (text : String) : Bool :=
  text.toList.any fun c => c == ':' || c == '\\' || c == '*' || c == '?' || c == '|'

/-- A pattern ready to be matched. -/
structure NamePattern where
  node : Node
  groups : Nat
  deriving Repr, DecidableEq, Inhabited

namespace NamePattern

/-- The regular expression that a text writes. -/
def read? (text : List Char) : Option NamePattern := do
  let ts ← tokens? text
  let node ← Node.ofTokens? ts
  return ⟨node, (groupNames ts).length⟩

/-- The text around which a name's pattern is tied to both ends of the name. -/
def anchored (text : List Char) : List Char := "^(?:".toList ++ text ++ ")$".toList

/-- The pattern of whole names that a text writes. -/
def compile (text : String) : Except Condition.Fault NamePattern :=
  match read? (anchored text.toList) with
  | some p => .ok p
  | none => .error (.invalidPattern text)

/-- Whether the pattern matches a name. -/
def accepts (p : NamePattern) (name : String) : Bool :=
  p.node.occursIn p.groups ((Text.units name.toList).map (·.toNat)).toArray

end NamePattern

end PluginAudit
