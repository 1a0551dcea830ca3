import PluginAudit.Host.Query
import PluginAudit.Path
import PluginAudit.Pattern.Name

/-!
# Where a condition may look

The paths of a condition are untrusted. One that begins with `../` is seen from the root of the
game, any other from the data directory, and neither may lead out of that directory. In the data
directory letter case does not count.
-/

namespace PluginAudit.Condition

open Host

/-- The rest of a path that is seen from the root of the game. -/
def fromGame? (path : String) : Option String :=
  (Text.afterStart? ['.', '.', '/'] path.toList).map String.ofList

/-- Refuses a path whose directory leads out of the data directory. -/
def checkInsideData (dirs : Directories) (directory path : String) : Except Fault Unit :=
  if Path.isInside dirs.data (Path.resolve dirs.data directory) then .ok ()
  else .error (.outsideData path)

/-- The absolute path of a place seen from the root of the game. -/
def insideGame (dirs : Directories) (rest path : String) : Except Fault String :=
  let place := Path.resolve dirs.game rest
  if Path.isInside dirs.game place then .ok place else .error (.outsideGame path)

/-- The absolute path of what a path names, if it is there. -/
def locate (dirs : Directories) (path : String) : Inspection (Option String) :=
  match fromGame? path with
  | some rest => do
    let place ← Inspection.ofFault (insideGame dirs rest path)
    let present : Bool ← Inspection.ask (.isPresent place)
    return if present then some place else none
  | none => do
    let (directory, name) := Path.split path
    Inspection.ofFault (checkInsideData dirs directory path)
    let wanted := Text.lowerString name
    let found : List String ←
      Inspection.ask (.findFiles directory fun file => Text.lowerString file = wanted)
    return found.head?

/-- The absolute paths of the files whose name matches the pattern a path ends with. -/
def matchingPaths (dirs : Directories) (path : String) : Inspection (List String) := do
  let (directory, name) := Path.split path
  let pattern ← Inspection.ofFault (NamePattern.compile name)
  match fromGame? directory with
  | some rest =>
    let place ← Inspection.ofFault (insideGame dirs rest path)
    let files : List String ← Inspection.ask (.listDirectory place)
    return (files.filter pattern.accepts).map (Path.resolve place)
  | none =>
    Inspection.ofFault (checkInsideData dirs directory path)
    Inspection.ask (.findFiles directory pattern.accepts)

end PluginAudit.Condition
