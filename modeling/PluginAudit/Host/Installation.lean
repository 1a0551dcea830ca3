import PluginAudit.Executable
import PluginAudit.Host.Disk
import PluginAudit.Host.Query
import PluginAudit.LoadOrder
import PluginAudit.Ordered
import PluginAudit.Package
import PluginAudit.Path
import PluginAudit.Text.Utf16
import PluginAudit.Text.Utf8

/-!
# Hosts on a disk

An `Installation` answers the questions about an installed game from its files. It lists the plugins
of the data directory once, at the first question that needs them; a plugin that is added or removed
later changes nothing about which plugins there are, while every other answer is as the disk is at
the time. `Installation.hold` turns a dialogue with a host into one with a disk.
-/

namespace PluginAudit.Host

/-- The plugins of the data directory, their paths by their names in lower case. -/
abbrev Plugins := Ordered String

/-- A dialogue with a disk in which the installed plugins are kept once they are known. -/
abbrev Visit := StateT (Option Plugins) DiskInquiry

/-- A visit that may end with a failure. -/
abbrev Lookup := ExceptT Failure Visit

namespace Lookup

def fact {α : Type} (i : DiskInquiry α) : Lookup α := ExceptT.lift (StateT.lift i)

/-- A fact about the disk that the system may refuse. -/
def granted {α : Type} (i : DiskInquiry (Except SystemError α)) : Lookup α := do
  match ← fact i with
  | .ok a => return a
  | .error e => throw (.system e)

/-- The installed plugins, if they are known. -/
def known : Lookup (Option Plugins) := ExceptT.lift get

def keep (ps : Plugins) : Lookup Unit := ExceptT.lift (set (some ps))

end Lookup

/-- What is given of an installed game. -/
structure Installation.Settings where
  /-- The directory from which paths are seen. -/
  base : String
  data : String
  /-- The root of the game; around the data directory if it is not given. -/
  game : Option String := none
  pluginsFile : Option String := none
  contentVersions : Ordered String := []
  /-- The format of the plugins; none for games without structural checks. -/
  format : Option Plugin.Format
  deriving Repr, Inhabited

structure Installation where
  directories : Directories
  /-- The load order; none if every plugin is active. -/
  loadOrder : Option (List LoadOrder.Entry) := none
  /-- The declared versions by name in lower case. -/
  contentVersions : Ordered String := []
  /-- The format of its plugins; none for games without structural checks. -/
  format : Option Plugin.Format
  deriving Repr, Inhabited

namespace Installation

def Settings.directories (s : Settings) : Directories :=
  let data := Path.resolve s.base s.data
  ⟨data, Path.resolve s.base (s.game.getD (Path.dirname data))⟩

/-- The load order that is given. -/
def readLoadOrder : Option String → DiskInquiry (Except Failure (Option (List LoadOrder.Entry)))
  | none => return .ok none
  | some path => do
    match ← Disk.contentOf path with
    | .error e => return .error (.system e)
    | .ok b => return .ok (some (LoadOrder.read (String.ofList (Text.ofUtf8 b))))

/-- The installed game of some settings. -/
def ofSettings (s : Settings) : DiskInquiry (Except Failure Installation) := do
  match ← readLoadOrder s.pluginsFile with
  | .error f => return .error f
  | .ok order =>
    return .ok {
      directories := s.directories
      loadOrder := order
      contentVersions :=
        Ordered.ofPairs (s.contentVersions.map fun (name, v) => (Text.lowerString name, v))
      format := s.format }

/-! ## Files -/

/-- Whether there is a file at a path. -/
def isFile (path : String) : Lookup Bool :=
  return (← Lookup.granted (Disk.kindOf path)) == some .file

/-- The names in a directory, sorted; none if there is no such directory. -/
def listDirectory (path : String) : Lookup (List String) := do
  if (← Lookup.granted (Disk.kindOf path)) == some .directory then
    return (← Lookup.granted (Disk.namesIn path)).mergeSort Text.unitsLe
  else return []

/-- The paths of those names in a directory that are files. -/
def filesAmong (directory : String) : List String → Lookup (List String)
  | [] => return []
  | name :: names => do
    let path := Path.child directory name
    let there ← isFile path
    let paths ← filesAmong directory names
    return if there then path :: paths else paths

variable (i : Installation)

/-- The paths of the files of a directory, seen from the data directory, whose names pass a test. -/
def findFiles (directory : String) (keep : String → Bool) : Lookup (List String) := do
  let place := Path.resolve i.directories.data directory
  filesAmong place ((← listDirectory place).filter keep)

/-- The version in a program or library. -/
def versionIn (path : String) (version : Executable.Versions → String) : Lookup (Option String) :=
  return (Executable.versions? (← Lookup.granted (Disk.contentOf path))).map version

/-! ## Plugins -/

/-- The plugins among some paths, by their names in lower case; of two plugins whose names differ
only in case the later one counts. -/
def pluginsAt (paths : List String) : Plugins :=
  Ordered.ofPairs (paths.map fun path => (Text.lowerString (Path.basename path), path))

/-- The installed plugins, listed unless they are known. -/
def plugins : Lookup Plugins := do
  match ← Lookup.known with
  | some ps => return ps
  | none =>
    let ps := pluginsAt (← i.findFiles "" isPluginName)
    Lookup.keep ps
    return ps

/-- The place of a name in a load order, that of its last line; names that are not in it come
last. -/
def rank (order : List LoadOrder.Entry) (name : String) : Nat :=
  let key := Text.lowerString name
  let later := order.reverse.takeWhile fun e => Text.lowerString e.name ≠ key
  if later.length = order.length then order.length else order.length - 1 - later.length

/-- Sorts names by a load order; names of equal rank keep their order. -/
def sortByOrder (order : List LoadOrder.Entry) (names : List String) : List String :=
  names.mergeSort fun a b => rank order a ≤ rank order b

/-- The names of the installed plugins in load order. -/
def pluginNames : Lookup (List String) := do
  let names := (← i.plugins).map fun (_, path) => Path.basename path
  match i.loadOrder with
  | none => return names
  | some order => return sortByOrder order names

/-- Whether a load order makes a plugin active. -/
def activates (order : List LoadOrder.Entry) (name : String) : Bool :=
  order.any fun e => e.active && Text.lowerString e.name = Text.lowerString name

/-- Whether a plugin is installed and active. -/
def isPluginActive (name : String) : Lookup Bool := do
  match (← i.plugins).get? (Text.lowerString name) with
  | none => return false
  | some _ => return (i.loadOrder.map fun order => activates order name).getD true

/-- Whether a plugin is a master: its header says so, or its name if the header is not well
formed. -/
def isMasterPlugin (name : String) : Lookup Bool := do
  match (← i.plugins).get? (Text.lowerString name) with
  | none => return false
  | some path =>
    let header ← Lookup.granted (Disk.beginningOf path Plugin.recordHeaderSize)
    match Plugin.isMasterFlagged header name with
    | .ok b => return b
    | .error _ => return Text.lowerString (Path.extname name) = ".esm"

/-- The structure of a plugin, unless the game has no structural checks. -/
def structureOf (content : ByteArray) (file : String) : Except Failure (Option Plugin.Structure) :=
  match i.format with
  | none => .ok none
  | some format =>
    match Plugin.Structure.ofBytes content file format with
    | .ok s => .ok (some s)
    | .error f => .error (.plugin f)

/-! ## Answers -/

def answer : (q : Query) → Lookup (Value q)
  | .findFiles directory keep => i.findFiles directory keep
  | .listDirectory path => listDirectory path
  | .isPresent path => Lookup.fact (Disk.isPresent path)
  | .isFile path => isFile path
  | .isReadable path => Lookup.fact (Disk.isReadable path)
  | .isPluginActive plugin => i.isPluginActive plugin
  | .pluginNames => i.pluginNames
  | .isMasterPlugin plugin => i.isMasterPlugin plugin
  | .contentOf path => Lookup.granted (Disk.contentOf path)
  | .fileVersion path => versionIn path (·.fileVersion)
  | .productVersion path => versionIn path (·.productVersion)
  | .contentVersion path =>
    (pure (i.contentVersions.get? (Text.lowerString (Path.basename path))) : Lookup (Option String))
  | .structureOf content file => ExceptT.mk (pure (i.structureOf content file))

/-- Holds a dialogue with the host as one with the disk. -/
def hold {α : Type} (d : Inquiry α) : Visit α :=
  d.interpret (fun q => (i.answer q).run) fun e => StateT.lift (Dialogue.remark e)

end Installation

end PluginAudit.Host
