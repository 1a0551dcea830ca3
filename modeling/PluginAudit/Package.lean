import PluginAudit.Crc32
import PluginAudit.Host.Query
import PluginAudit.Path

/-!
# Installed plugins

A `Package` is the file of an installed plugin. Its checksum and its structure come from one reading
of the file: the first query that needs a fact reads the file, and the facts are kept for the
queries after it. A plugin that is not well formed still has its checksum, while every query about
its structure fails for the same reason. An empty file, or a game without structural checks, counts
as valid in every way.
-/

namespace PluginAudit

/-- The file of an installed plugin. -/
structure Package where
  path : String
  deriving Repr, DecidableEq, Inhabited

/-- Whether a name is that of a plugin. -/
def isPluginName (name : String) : Bool :=
  match name.toList.reverse with
  | z :: s :: e :: '.' :: _ =>
    "lmpLMP".toList.contains z && (s == 's' || s == 'S') && (e == 'e' || e == 'E')
  | _ => false

namespace Package

def name (p : Package) : String := Path.basename p.path

/-- Whether the name alone makes a plugin light. -/
def isLightByName (p : Package) : Bool := Text.lowerString (Path.extname p.name) = ".esl"

/-- Reads the file and works out its facts. -/
def readFacts (p : Package) : Inspection Facts := do
  let content ← Inspection.ask (.contentOf p.path)
  if content.size = 0 then return ⟨0, .ok none⟩
  match ← Inspection.answer (.structureOf content p.name) with
  | .ok s => return ⟨Crc32.checksum content, .ok s⟩
  | .error (.plugin f) => return ⟨Crc32.checksum content, .error f⟩
  | .error f => throw f

/-- The facts of the plugin, read unless they are known. -/
def facts (p : Package) : Inspection Facts := do
  match ← Inspection.known with
  | some f => return f
  | none =>
    let f ← p.readFacts
    Inspection.keep f
    return f

/-- The structure of the plugin, if there is any to be known. -/
def structure? (p : Package) : Inspection (Option Plugin.Structure) := do
  match (← p.facts).structure? with
  | .ok s => return s
  | .error f => throw (.plugin f)

def checksum (p : Package) : Inspection UInt32 := return (← p.facts).checksum

/-- A mark of the structure, or a value that stands for it if there is none. -/
def mark (p : Package) (get : Plugin.Structure → Bool) (default : Bool) : Inspection Bool :=
  return ((← p.structure?).map get).getD default

/-- Whether the plugin is a master; without a structure, the host decides. -/
def isMaster (p : Package) : Inspection Bool := do
  match ← p.structure? with
  | some s => return s.isMaster
  | none => Inspection.ask (.isMasterPlugin p.name)

def isLight (p : Package) : Inspection Bool :=
  if p.isLightByName then return true else p.mark (·.isLight) false

/-- Whether the plugin may be light. -/
def isValidAsLight (p : Package) : Inspection Bool := p.mark (·.isValidAsLight) true

def isMedium (p : Package) : Inspection Bool :=
  if p.isLightByName then return false else p.mark (·.isMedium) false

/-- Whether the plugin may be medium. -/
def isValidAsMedium (p : Package) : Inspection Bool := p.mark (·.isValidAsMedium) true

/-- Whether the plugin is an update. -/
def isUpdate (p : Package) : Inspection Bool :=
  if p.isLightByName then return false else p.mark (·.isUpdate) false

/-- Whether the plugin may be an update. -/
def isValidAsUpdate (p : Package) : Inspection Bool := p.mark (·.isValidAsUpdate) true

end Package

end PluginAudit
