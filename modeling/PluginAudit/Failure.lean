import PluginAudit.Condition.Fault
import PluginAudit.ContentVersion
import PluginAudit.Game
import PluginAudit.Host.SystemError
import PluginAudit.Metadata.Fault
import PluginAudit.Plugin.Structure

/-!
# Failures

The causes that end a computation. Which of them arose decides how far it reaches: a refused
condition costs its item, a plugin that is not well formed costs its structural check, anything else
costs the rest of the plugin at hand.
-/

namespace PluginAudit

/-- Why a computation ended without a result. -/
inductive Failure where
  /-- A condition, a path or a pattern is refused. -/
  | condition (fault : Condition.Fault)
  /-- A plugin is not well formed. -/
  | plugin (fault : Plugin.Fault)
  | document (fault : Metadata.DocumentFault)
  /-- The operating system refused an operation. -/
  | system (error : Host.SystemError)
  /-- A declared version is not complete. -/
  | declaration (fault : ContentVersion.Fault)
  /-- There is no game of that identifier. -/
  | unsupportedGame (id : String)
  /-- A plugin is not in the data directory. -/
  | notInstalled (directory plugin : String)
  /-- The host reports a failure of its own. -/
  | reported (text : String)
  deriving Repr, DecidableEq, Inhabited

def Failure.message : Failure → String
  | .condition f => f.message
  | .plugin f => f.message
  | .document f => f.message
  | .system e => e.message
  | .declaration f => f.message
  | .unsupportedGame id =>
    "Unsupported game \"" ++ id ++ "\". Supported games: " ++
      ", ".intercalate (Game.all.map (·.id))
  | .notInstalled directory name => "Plugin not found in " ++ directory ++ ": " ++ name
  | .reported text => text

end PluginAudit
