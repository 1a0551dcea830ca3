import PluginAudit.Failure
import PluginAudit.Log

/-!
# What the program reports on its work

Each kind of event has its level and its wording; an event that tells of a failure carries it.
-/

namespace PluginAudit.Log

inductive Event where
  /-- A condition is about to be evaluated, perhaps for a plugin. -/
  | evaluating (condition : String) (plugin : Option String)
  /-- A call of a condition was answered. -/
  | called (function rawArgs : String) (result : Bool)
  /-- A condition was evaluated, its calls replaced by their results. -/
  | evaluated (expression : String) (result : Bool)
  | checking (plugins : Nat)
  /-- A plugin is not well formed. -/
  | malformedPlugin (plugin : String) (cause : Failure)
  /-- A condition, path or pattern of an item was refused. -/
  | invalidItem (plugin item : String) (cause : Failure)
  | failedPlugin (plugin : String) (cause : Failure)
  /-- An entry of a document is not of the expected form. -/
  | invalidEntry (source : String) (index : Nat)
  /-- An entry of a document could not be stored. -/
  | skippedEntry (source name : String) (cause : Failure)
  | loaded (source : String) (exact patterns : Nat)
  | userlistFailed (cause : Failure)
  /-- The userlist is about to be merged. -/
  | merging (entries : Nat)
  | loadedMetadata (entries : Nat)
  | usingGame (name : String)
  deriving Repr, DecidableEq, Inhabited

namespace Event

def level : Event → Level
  | evaluating .. => .debug
  | called .. => .debug
  | evaluated .. => .debug
  | checking .. => .debug
  | malformedPlugin .. => .warn
  | invalidItem .. => .warn
  | failedPlugin .. => .error
  | invalidEntry .. => .warn
  | skippedEntry .. => .warn
  | loaded .. => .debug
  | userlistFailed .. => .error
  | merging .. => .debug
  | loadedMetadata .. => .info
  | usingGame .. => .debug

def message : Event → String
  | evaluating .. => "Evaluating condition"
  | called f args result =>
    f ++ "(" ++ args ++ ") = " ++ if result then "true" else "false"
  | evaluated .. => "Final evaluation"
  | checking .. => "Checking plugins"
  | malformedPlugin plugin cause => "Could not parse " ++ plugin ++ ": " ++ cause.message
  | invalidItem plugin item _ =>
    "Invalid condition in " ++ plugin ++ "'s metadata entry: " ++ item
  | failedPlugin plugin _ => "Error while processing " ++ plugin
  | invalidEntry source index =>
    "Skipping invalid plugin entry #" ++ toString index ++ " in " ++ source
  | skippedEntry source name _ => "Skipping plugin entry \"" ++ name ++ "\" in " ++ source
  | loaded source .. => "Loaded " ++ source
  | userlistFailed cause =>
    "Failed to load userlist, using the masterlist only: " ++ cause.message
  | merging .. => "Merging userlist into masterlist"
  | loadedMetadata n => "Loaded " ++ toString n ++ " metadata entries"
  | usingGame name => "Using " ++ name

/-- The failure an event tells of. -/
def cause? : Event → Option Failure
  | malformedPlugin _ cause => some cause
  | invalidItem _ _ cause => some cause
  | failedPlugin _ cause => some cause
  | skippedEntry _ _ cause => some cause
  | userlistFailed cause => some cause
  | _ => none

/-- The expression an event tells of. -/
def expression? : Event → Option String
  | evaluated expression _ => some expression
  | _ => none

end Event

end PluginAudit.Log
