import PluginAudit.Ordered
import PluginAudit.Text.Blank

/-!
# Declared versions

A plugin carries no version of its own; the user declares one as `plugin=version`. The last equals
sign separates the two, so that a name may contain others.
-/

namespace PluginAudit.ContentVersion

open Text

/-- A declaration without a plugin or without a version. -/
structure Fault where
  declaration : String
  deriving Repr, DecidableEq, Inhabited

def Fault.message (f : Fault) : String :=
  "Invalid content version \"" ++ f.declaration ++ "\". Expected <plugin>=<version>"

/-- The plugin and the version of a declaration. -/
def read (declaration : String) : Except Fault (String × String) :=
  let back := declaration.toList.reverse
  let isSign (c : Char) : Bool := c == '='
  match back.dropWhile (!isSign ·) with
  | [] => .error ⟨declaration⟩
  | _ :: name =>
    let name := trim name.reverse
    let version := trim (back.takeWhile (!isSign ·)).reverse
    if name.isEmpty || version.isEmpty then .error ⟨declaration⟩
    else .ok (String.ofList name, String.ofList version)

/-- The versions of a list of declarations; the last declaration of a name counts. -/
def readAll (declarations : List String) : Except Fault (Ordered String) :=
  Ordered.ofPairs <$> declarations.mapM read

end PluginAudit.ContentVersion
