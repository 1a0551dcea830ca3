import PluginAudit.Text.CaseTable
import PluginAudit.Text.IdentifierTable

/-!
# Identifiers

The names that groups of a pattern may have: a letter, an underscore or a dollar sign, followed by
these, digits, marks and joiners.
-/

namespace PluginAudit.Text

/-- Whether an identifier may begin with a character. -/
def isIdentifierStart (c : Char) : Bool :=
  if c.toNat < 0x80 then c.isAlpha || c == '_' || c == '$'
  else inRanges identifierStartRanges c.toNat

/-- Whether a character may stand in an identifier. -/
def isIdentifierPart (c : Char) : Bool :=
  isIdentifierStart c ||
    if c.toNat < 0x80 then c.isDigit else inRanges identifierInsideRanges c.toNat

end PluginAudit.Text
