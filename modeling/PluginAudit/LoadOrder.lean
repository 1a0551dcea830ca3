import PluginAudit.Text.Blank

/-!
# Load orders

A load order names one plugin per line, those that are active with an asterisk before them. Blank
lines and lines that start with `#` are comments; blanks around a line do not count.
-/

namespace PluginAudit.LoadOrder

open Text

/-- A line of a load order. -/
structure Entry where
  name : String
  active : Bool
  deriving Repr, DecidableEq, Inhabited

/-- The entry of a line without the blanks around it, unless it is a comment. -/
def entryOf? : List Char → Option Entry
  | [] => none
  | '#' :: _ => none
  | '*' :: name => some ⟨String.ofList name, true⟩
  | name => some ⟨String.ofList name, false⟩

/-- The entries of a load order. -/
def read (text : String) : List Entry :=
  (fields (· == '\n') text.toList).filterMap fun line => entryOf? (trim line)

end PluginAudit.LoadOrder
