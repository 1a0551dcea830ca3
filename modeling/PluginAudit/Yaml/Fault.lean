/-!
# What can be wrong with a YAML text
-/

namespace PluginAudit.Yaml

inductive Fault where
  | strayText
  /-- Something stands where nothing of its kind may stand. -/
  | unexpected
  /-- White space, a comma, a colon or a mark is missing. -/
  | missing
  /-- Lines are indented in a way that does not fit together. -/
  | indentation
  /-- A tab stands where lines are indented. -/
  | tabIndentation
  /-- A node has two anchors, two tags, or some before a mark. -/
  | properties
  /-- A key spans several lines or too many characters. -/
  | longKey
  /-- A map has the same key twice. -/
  | duplicateKey
  /-- A quoted text is not closed, or has an unknown escape. -/
  | quotation
  /-- A plain text begins with a character that has another meaning. -/
  | plainStart
  /-- The header of a block of text is not well formed. -/
  | blockHeader
  /-- A flow collection is not closed, or has a block inside. -/
  | flow
  /-- An anchor or alias has no name. -/
  | emptyAlias
  /-- An alias has no anchor before it. -/
  | unresolvedAlias
  /-- A tag is not well formed, or does not fit its node. -/
  | tag
  /-- A directive is not well formed, or not followed by a document. -/
  | directive
  /-- What is to be merged into a map is not a map. -/
  | mergeSource
  /-- There is more than one document. -/
  | severalDocuments
  deriving Repr, DecidableEq, Inhabited

def Fault.message : Fault → String
  | .strayText => "Not a YAML token"
  | .unexpected => "Unexpected token"
  | .missing => "Missing character"
  | .indentation => "Bad indentation"
  | .tabIndentation => "Tabs are not allowed as indentation"
  | .properties => "Anchors and tags must be unique and come after the indicator"
  | .longKey => "Implicit keys need to be on a single line of at most 1024 characters"
  | .duplicateKey => "Map keys must be unique"
  | .quotation => "Missing closing quote or invalid escape sequence"
  | .plainStart => "Plain value cannot start with this character"
  | .blockHeader => "Block scalar header includes extra characters"
  | .flow => "Flow collection is not closed or contains a block collection"
  | .emptyAlias => "Alias and anchor cannot be an empty string"
  | .unresolvedAlias => "Unresolved alias (the anchor must be set before the alias)"
  | .tag => "Could not resolve tag"
  | .directive => "Bad directive"
  | .mergeSource => "Merge sources must be maps or map aliases"
  | .severalDocuments => "Source contains multiple documents"

end PluginAudit.Yaml
