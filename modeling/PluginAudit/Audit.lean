import PluginAudit.Condition.Evaluation
import PluginAudit.Metadata.Store
import PluginAudit.Warning

/-!
# Auditing the installed plugins

An audit goes through the installed plugins one by one. What is to be looked at for a plugin is a
list of checks, each of which finds one warning or none: first the identifiers of its records, then
the items of its metadata in order. A condition that is refused costs the item it stands in; any
other failure ends the checks of the plugin, but keeps what they have found.
-/

namespace PluginAudit.Audit

open Metadata

/-- A check of a plugin: it finds a warning, or none. -/
abbrev Check := Inspection (Option Warning)

/-- The answer of an item of metadata, or `false` if the item is refused. -/
def unlessRefused (p : Package) (item : String) (holds : Inspection Bool) : Inspection Bool :=
  tryCatch holds fun
    | .condition f => do
      Inspection.report (.invalidItem p.name item (.condition f))
      return false
    | f => throw f

/-- Whether the condition of an item holds; an item without a condition always applies. -/
def conditionHolds (dirs : Host.Directories) (p : Package) : Option String → Inspection Bool
  | none => return true
  | some c => unlessRefused p c (Condition.evaluate dirs (some p) c)

/-- Whether a file is present, or absent, as given, and the condition of the reference holds. -/
def applies (dirs : Host.Directories) (p : Package) (ref : FileRef) (whenPresent : Bool) :
    Inspection Bool := do
  let found ← unlessRefused p ref.name do
    return (← Condition.fileExists dirs ref.name) == whenPresent
  if found then conditionHolds dirs p ref.condition else return false

def warnIf (w : Warning) (holds : Inspection Bool) : Check := do
  return if ← holds then some w else none

/-- Whether a light plugin has records it may not have. -/
def hasBadFormIds (p : Package) : Inspection Bool := do
  if ← p.isLight then return !(← p.isValidAsLight) else return false

/-- The check of a plugin's identifiers. A plugin that is not well formed is reported, and its
metadata still looked at. -/
def formIdCheck (p : Package) : Check :=
  warnIf (.ofFormIds p.name) <| tryCatch (hasBadFormIds p) fun
    | .plugin f => do
      Inspection.report (.malformedPlugin p.name (.plugin f))
      return false
    | f => throw f

/-- The check of a file that has to be there. -/
def requirementCheck (dirs : Host.Directories) (p : Package) (ref : FileRef) : Check :=
  warnIf (.ofMissing p.name ref) (applies dirs p ref false)

/-- The check of a file that must not be there. -/
def incompatibilityCheck (dirs : Host.Directories) (p : Package) (ref : FileRef) : Check :=
  warnIf (.ofIncompatible p.name ref) (applies dirs p ref true)

def messageCheck (dirs : Host.Directories) (p : Package) (m : Message) : Check :=
  warnIf (.ofMessage p.name m) (conditionHolds dirs p m.condition)

/-- The check of a state that is known to be dirty. -/
def dirtyCheck (p : Package) (info : DirtyInfo) : Check :=
  warnIf (.ofDirty p.name info) do return (← p.checksum) == info.crc

def isWanted (includeInfo : Bool) (m : Message) : Bool := includeInfo || m.type.isSerious

/-- The checks of a plugin's metadata, in order. -/
def recordChecks (dirs : Host.Directories) (includeInfo : Bool) (p : Package) (r : Record) :
    List Check :=
  (r.requirements.getD []).map (requirementCheck dirs p) ++
    (r.incompatibilities.getD []).map (incompatibilityCheck dirs p) ++
    ((r.messages.getD []).filter (isWanted includeInfo)).map (messageCheck dirs p) ++
    (r.dirtyInfo.getD []).map (dirtyCheck p)

/-- The checks of a plugin, in order. -/
def checks (dirs : Host.Directories) (store : Store) (includeInfo : Bool) (p : Package) :
    List Check :=
  formIdCheck p :: match store.lookup p.name with
    | none => []
    | some r => recordChecks dirs includeInfo p r

/-- What checks find until one of them fails, and the failure. -/
def findings : List Check → StateT (Option Facts) Inquiry (List Warning × Option Failure)
  | [] => return ([], none)
  | c :: cs => do
    match ← c.run with
    | .error f => return ([], some f)
    | .ok w =>
      let (ws, f) ← findings cs
      return (w.toList ++ ws, f)

def pluginWarnings (dirs : Host.Directories) (store : Store) (includeInfo : Bool) (path : String) :
    Inquiry (List Warning) := do
  let p : Package := ⟨path⟩
  let ((ws, failure), _) ← (findings (checks dirs store includeInfo p)).run none
  match failure with
  | none => return ws
  | some f =>
    Dialogue.remark (.failedPlugin p.name f)
    return ws

/-- The warnings about several plugins, one plugin after the other. -/
def eachPlugin (dirs : Host.Directories) (store : Store) (includeInfo : Bool) :
    List String → Inquiry (List Warning)
  | [] => return []
  | path :: paths => do
    let ws ← pluginWarnings dirs store includeInfo path
    let more ← eachPlugin dirs store includeInfo paths
    return ws ++ more

/-- The warnings about all plugins of the data directory. -/
def warnings (dirs : Host.Directories) (store : Store) (includeInfo : Bool) :
    Inquiry (Except Failure (List Warning)) := do
  let found : Except Failure (List String) ←
    (Dialogue.query (Host.Query.findFiles "" isPluginName) : Inquiry (Except Failure (List String)))
  match found with
  | .error f => return .error f
  | .ok paths =>
    Dialogue.remark (.checking paths.length)
    return .ok (← eachPlugin dirs store includeInfo paths)

end PluginAudit.Audit
