import PluginAudit.Yaml.Piece
import PluginAudit.Yaml.Resolution

/-!
# Reading a YAML document

`Yaml.read` gives the value of a text that holds at most one document; a text without any says
nothing. The slightest fault anywhere makes the text as a whole unreadable.
-/

namespace PluginAudit.Yaml

/-- What has been read of a text. -/
structure Reading where
  directives : Directives := {}
  /-- Directives wait for the document they belong to. -/
  waiting : Bool := false
  document : Option Node := none
  deriving Repr, Inhabited

namespace Reading

/-- Takes in a part of a text. -/
def add (r : Reading) : Outline.Part → Except Fault Reading
  | .directive line => do return { r with directives := ← r.directives.add line, waiting := true }
  | .document o => do
    if r.document.isSome then throw .severalDocuments
    let (n, isMarked) ← documentNode r.directives o
    if r.waiting && !isMarked then throw .directive
    return { r with document := some n, waiting := false }
  | .documentEnd ends => do
    if r.document.isNone then throw .unexpected
    checkEnds true ends
    return r

end Reading

def read (cs : List Char) : Except Fault Value := do
  let parts ← Outline.ofPieces (Piece.ofText cs)
  let r ← parts.foldlM Reading.add {}
  match r.document with
  | some n => n.value
  | none => if r.waiting then throw .directive else return .null

end PluginAudit.Yaml
