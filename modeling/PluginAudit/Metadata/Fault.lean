import PluginAudit.Yaml.Fault

/-!
# What can be wrong with a metadata document

A document as a whole is refused only if it is not YAML or has no list of plugins; an entry that is
wrong in itself is skipped.
-/

namespace PluginAudit.Metadata

inductive DocumentFault where
  | unreadable (source : String) (cause : Yaml.Fault)
  /-- It has no list of plugins at its top. -/
  | noPlugins (source : String)
  deriving Repr, DecidableEq, Inhabited

namespace DocumentFault

def source : DocumentFault → String
  | unreadable s _ => s
  | noPlugins s => s

def message : DocumentFault → String
  | unreadable s cause => "Failed to parse " ++ s ++ ": " ++ cause.message
  | noPlugins s => "Invalid " ++ s ++ ": expected a top-level \"plugins\" list."

end DocumentFault

end PluginAudit.Metadata
