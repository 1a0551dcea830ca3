import PluginAudit.Json
import PluginAudit.Warning

/-!
# Reports of warnings

Warnings are reported to the user as a line each and a count at the end, or to another program as
JSON.
-/

namespace PluginAudit.Warning

def line (w : Warning) : String :=
  "⚠️  [" ++ w.kind.name ++ "]" ++ (if w.isFixable then " (fixable)" else "") ++ " " ++ w.short

def lines (ws : List Warning) : List String :=
  ws.map line ++
    ["", if ws.isEmpty then "✅ No warnings found" else
      "Found " ++ toString ws.length ++ " warning(s)"]

/-- The field of a count, if it is known. -/
def countField (name : String) (count : Option Nat) : List (String × Json) :=
  (count.map fun n => (name, Json.number n)).toList

/-- The fields that only warnings of a kind have, before and after their wording. -/
def Kind.fields : Kind → List (String × Json) × List (String × Json)
  | .missingRequirement file => ([("filePath", .text file)], [])
  | .incompatibility file => ([("filePath", .text file)], [])
  | .dirtyPlugin manual itm udr nav =>
    ([], ("requiresManualFix", .bool manual) ::
      (countField "itm" itm ++ countField "udr" udr ++ countField "nav" nav))
  | _ => ([], [])

def json (w : Warning) : Json :=
  let (before, after) := w.kind.fields
  .object ([("kind", .text w.kind.name), ("ownerPackageName", .text w.plugin)] ++ before ++
    [("shortDescription", .text w.short), ("fullDescription", .text w.full)] ++ after)

end PluginAudit.Warning
