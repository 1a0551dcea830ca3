import PluginAudit.Metadata.Document
import PluginAudit.Yaml.Document

/-!
# Loading metadata

The masterlist is the metadata that everybody shares; the userlist is one's own and is merged into
it. A userlist that cannot be used is reported and left out, while nothing can be done without a
masterlist.

A document is YAML, but loading takes its value from whatever `Reader` it is given, and does not ask
how that came by it.
-/

namespace PluginAudit.Metadata

/-- What gives the value of a document from its text. -/
abbrev Reader := List Char → Except Yaml.Fault Value

/-- The store of a document, and what there is to report. -/
def Store.ofText (source : String) (text : List Char) (read : Reader := Yaml.read) :
    Except DocumentFault (Store × List Log.Event) :=
  match read text with
  | .error f => .error (.unreadable source f)
  | .ok v => Store.ofValue source v

/-- The store of a masterlist and perhaps a userlist, and what there is to report. -/
def load (masterlist : List Char) (userlist? : Option (List Char)) (read : Reader := Yaml.read) :
    Except Failure (Store × List Log.Event) :=
  match Store.ofText "masterlist" masterlist read with
  | .error f => .error (.document f)
  | .ok (base, events) =>
    match userlist? with
    | none => .ok (base, events)
    | some userlist =>
      match Store.ofText "userlist" userlist read with
      | .error f => .ok (base, events ++ [.userlistFailed (.document f)])
      | .ok (own, more) =>
        match base.merge own with
        | .error f => .error (.condition f)
        | .ok merged => .ok (merged, events ++ more ++ [.merging own.size])

end PluginAudit.Metadata
