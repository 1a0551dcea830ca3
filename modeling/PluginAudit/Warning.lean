import PluginAudit.Metadata.Record
import PluginAudit.Number.Shortest
import PluginAudit.Text.Search
import PluginAudit.Warning.Markup

/-!
# Warnings

What is told to the user about a plugin, in a plain and in a marked-up wording.
-/

namespace PluginAudit

open Metadata

inductive Warning.Kind where
  /-- A message of the metadata applies. -/
  | message
  | missingRequirement (file : String)
  | incompatibility (file : String)
  /-- A light plugin has records whose identifiers it may not use. -/
  | formIdOutOfRange
  /-- The plugin is in a state known to be dirty. -/
  | dirtyPlugin (requiresManualFix : Bool) (itm udr nav : Option Nat)
  deriving Repr, DecidableEq, Inhabited

structure Warning where
  kind : Warning.Kind
  plugin : String
  short : String
  full : String
  deriving Repr, DecidableEq, Inhabited

namespace Warning

def Kind.name : Kind → String
  | message => "message"
  | missingRequirement _ => "missing-requirement"
  | incompatibility _ => "incompatibility"
  | formIdOutOfRange => "formid-out-of-range"
  | dirtyPlugin .. => "dirty-plugin"

/-- Whether the cleaning utility can put things right. -/
def isFixable (w : Warning) : Bool :=
  match w.kind with
  | .dirtyPlugin manual _ _ _ => !manual
  | _ => false

/-- Fills the placeholders of a text. -/
def substitute (text : String) (subs : List String) : String :=
  String.ofList (Text.fill (subs.map String.toList) text.toList)

/-- The warning that a message is. -/
def ofMessage (plugin : String) (m : Message) : Warning :=
  let content := substitute m.content.resolve (m.subs.getD [])
  { kind := .message
    plugin := plugin
    short := plugin ++ ": " ++ Markup.plain content
    full := plugin ++ ": " ++ Markup.html content }

/-- A sentence about a file, followed by its explanation if it is an entry. -/
def describe (ref : FileRef) (sentence : String → String) : String :=
  match ref with
  | .bare name => sentence name
  | .entry e =>
    sentence (e.display.getD e.name) ++ " " ++ (e.detail.map (·.resolve)).getD ""

/-- The warning that a required file is missing. -/
def ofMissing (plugin : String) (ref : FileRef) : Warning :=
  let content := describe ref fun label =>
    plugin ++ " requires '" ++ label ++ "' to be installed, but it is missing."
  { kind := .missingRequirement ref.name
    plugin := plugin
    short := Markup.plain content
    full := Markup.html content }

/-- The warning that an incompatible file is present. -/
def ofIncompatible (plugin : String) (ref : FileRef) : Warning :=
  let content := describe ref fun label =>
    plugin ++ " is incompatible with '" ++ label ++ "', but both are present."
  { kind := .incompatibility ref.name
    plugin := plugin
    short := Markup.plain content
    full := Markup.html content }

/-- The warning that a light plugin uses identifiers it may not use. -/
def ofFormIds (plugin : String) : Warning :=
  let short := plugin ++
    " contains records that have FormIDs outside the valid range for an ESL plugin. " ++
    "Using this plugin will cause irreversible damage to your game saves."
  { kind := .formIdOutOfRange
    plugin := plugin
    short := short
    full := short ++ "<br><br>If this plugin was uploaded in this state, " ++
      "the error should be reported to the author." }

/-- The counts of a dirty state as a list, if any of them is not zero. -/
def counts (info : DirtyInfo) : String :=
  let line (count? : Option Nat) (what : String) : String :=
    match count? with
    | none => ""
    | some n => "<li>" ++ Shortest.text n ++ " " ++ what ++ "</li>"
  if [info.itm, info.udr, info.nav].any fun c => c.any (· ≠ 0) then
    "<br/><br/>Details:<ul>" ++ line info.itm "Identical To Master records (ITMs)" ++
      line info.udr "Undeleted and Disabled References (UDRs)" ++
      line info.nav "Deleted Navmeshes (NAVs)" ++ "</ul>"
  else ""

/-- The warning that a plugin is dirty. It has to be put right by hand if the explanation begins
with an `I`, as in "It is strongly recommended not to use mods that contain deleted navmeshes". -/
def ofDirty (plugin : String) (info : DirtyInfo) : Warning :=
  let detail := Markup.html ((info.detail.map (·.resolve)).getD "")
  let manual := detail.toList.head? == some 'I'
  let short := plugin ++ " is dirty and " ++
    if manual then "contains deleted navmeshes" else "requires cleaning."
  let hint := if manual then "" else " Click the \"Fix\" button to clean it."
  { kind := .dirtyPlugin manual info.itm info.udr info.nav
    plugin := plugin
    short := short
    full := short ++ hint ++ "<br/><br/>" ++ detail ++ counts info }

end Warning

end PluginAudit
