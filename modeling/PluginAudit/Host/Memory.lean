import PluginAudit.Host.Query
import PluginAudit.Ordered
import PluginAudit.Package

/-!
# Hosts with listed facts

A `Memory` is a host whose facts are given as lists: files with their content, the active plugins
and the masters, versions, structures, and the questions that are to fail. Its answers never change.
-/

namespace PluginAudit.Host

structure Memory where
  directories : Directories := ⟨"/game/Data", "/game"⟩
  /-- The content of the files by absolute path. -/
  files : Ordered ByteArray := []
  /-- The active plugins; every installed one if they are not listed. -/
  active : Option (List String) := none
  masters : List String := []
  /-- The versions of programs and libraries by absolute path. -/
  fileVersions : Ordered String := []
  /-- The product versions of programs and libraries by absolute path. -/
  productVersions : Ordered String := []
  contentVersions : Ordered String := []
  /-- The structures by name, or the faults of plugins that are not well formed. -/
  structures : Ordered (Except Plugin.Fault Plugin.Structure) := []
  unreadable : List String := []
  /-- The plugins of which it cannot be asked whether they are masters. -/
  unknownMasters : List String := []
  /-- The plugins of which it cannot be asked what their structure is. -/
  unknownStructures : List String := []

namespace Memory

/-- The names of the files right in a directory. -/
def namesIn (h : Memory) (directory : String) : List String :=
  (h.files.keys.filter fun path => Path.dirname path = directory).map Path.basename

/-- The files of a directory, seen from the data directory, whose names pass a test. -/
def findFiles (h : Memory) (directory : String) (keep : String → Bool) : List String :=
  let place := Path.resolve h.directories.data directory
  ((h.namesIn place).filter keep).map (Path.resolve place)

/-- The names of the installed plugins. -/
def pluginNames (h : Memory) : List String := (h.findFiles "" isPluginName).map Path.basename

/-- Whether a list has a name in some case. -/
def lists (names : List String) (name : String) : Bool :=
  names.any fun n => Text.lowerString n = Text.lowerString name

/-- Whether a path is a file or leads to one. -/
def isPresent (h : Memory) (path : String) : Bool :=
  h.files.keys.any fun file => file = path || (file.startsWith (path ++ "/"))

def contentOf (h : Memory) (path : String) : Except Failure ByteArray :=
  if path ∈ h.unreadable then .error (.reported ("disk error: " ++ path))
  else match h.files.get? path with
    | some content => .ok content
    | none => .error (.reported ("ENOENT: no such file, open '" ++ path ++ "'"))

/-- Whether a plugin is listed as a master. -/
def isMasterPlugin (h : Memory) (plugin : String) : Except Failure Bool :=
  if plugin ∈ h.unknownMasters then .error (.reported ("master error: " ++ plugin))
  else .ok (lists h.masters plugin)

/-- The structure listed for a plugin. -/
def structureOf (h : Memory) (file : String) : Except Failure (Option Plugin.Structure) :=
  if file ∈ h.unknownStructures then .error (.reported ("structure error: " ++ file))
  else match h.structures.get? file with
    | none => .ok none
    | some (.ok s) => .ok (some s)
    | some (.error f) => .error (.plugin f)

def answer (h : Memory) : (q : Query) → Answer q
  | .findFiles directory keep => .ok (h.findFiles directory keep)
  | .listDirectory path => .ok (h.namesIn path)
  | .isPresent path => .ok (h.isPresent path)
  | .isFile path => .ok (h.files.get? path).isSome
  | .isReadable path => .ok (h.files.get? path).isSome
  | .isPluginActive plugin => .ok (lists (h.active.getD h.pluginNames) plugin)
  | .pluginNames => .ok h.pluginNames
  | .isMasterPlugin plugin => h.isMasterPlugin plugin
  | .contentOf path => h.contentOf path
  | .fileVersion path => .ok (h.fileVersions.get? path)
  | .productVersion path => .ok (h.productVersions.get? path)
  | .contentVersion path => .ok (h.contentVersions.get? (Path.basename path))
  | .structureOf _ file => h.structureOf file

/-- The transcript and the result of an inquiry. -/
def run {α : Type} (h : Memory) (i : Inquiry α) :
    List (Dialogue.Line Query Log.Event) × α := Dialogue.run h.answer i

end Memory

end PluginAudit.Host
