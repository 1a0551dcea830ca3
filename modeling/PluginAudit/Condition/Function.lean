import PluginAudit.Condition.Argument
import PluginAudit.Condition.Location
import PluginAudit.Package

/-!
# What the functions of a condition mean

Each function asks the host. A condition may stand in the metadata of a plugin, its context; a
checksum of the context is a fact of that plugin and is not read again.
-/

namespace PluginAudit.Condition

open Host

/-- Whether an extension is that of a program or library. -/
def isBinaryExtension (extension : String) : Bool := extension = ".exe" || extension = ".dll"

/-- Whether an extension is that of a plugin. -/
def isPluginExtension (extension : String) : Bool :=
  extension = ".esp" || extension = ".esm" || extension = ".esl"

/-- The extension of a path in lower case. -/
def extensionOf (path : String) : String := Text.lowerString (Path.extname path)

/-- Whether a file exists, or one that matches a pattern. -/
def fileExists (dirs : Directories) (path : String) : Inspection Bool :=
  if isPattern path then return !(← matchingPaths dirs path).isEmpty
  else do
    match ← locate dirs path with
    | none => return false
    | some place => Inspection.ask (.isFile place)

/-- Whether something is at a path and can be read. -/
def isReadable (dirs : Directories) (path : String) : Inspection Bool := do
  match ← locate dirs path with
  | none => return false
  | some place => Inspection.ask (.isReadable place)

/-- Whether a plugin matches a pattern and is active. -/
def isActiveMatch (pattern : NamePattern) (plugin : String) : Inspection Bool :=
  if pattern.accepts plugin then Inspection.ask (.isPluginActive plugin) else return false

/-- Whether at least so many of the plugins match a pattern and are active; no plugin is asked for
once that is certain. -/
def activeMatches (pattern : NamePattern) : Nat → List String → Inspection Bool
  | 0, _ => return true
  | _ + 1, [] => return false
  | n + 1, plugin :: plugins => do
    if ← isActiveMatch pattern plugin then activeMatches pattern n plugins
    else activeMatches pattern (n + 1) plugins

/-- Whether at least so many active plugins match a pattern. -/
def hasActive (count : Nat) (text : String) : Inspection Bool := do
  let pattern ← Inspection.ofFault (NamePattern.compile text)
  let plugins : List String ← Inspection.ask .pluginNames
  activeMatches pattern count plugins

/-- Whether a plugin is active, or one that matches a pattern. -/
def isActive (plugin : String) : Inspection Bool :=
  if isPattern plugin then hasActive 1 plugin else Inspection.ask (.isPluginActive plugin)

/-- Whether a file has a checksum. -/
def hasChecksum (dirs : Directories) (context : Option Package) (path : String) (crc : UInt32) :
    Inspection Bool := do
  let ofContext (p : Package) : Inspection Bool := return (← p.checksum) = crc
  let elsewhere (place : String) : Inspection Bool := do
    let there : Bool ← Inspection.ask (.isFile place)
    if there then
      let content : ByteArray ← Inspection.ask (.contentOf place)
      return Crc32.checksum content = crc
    else return false
  match context with
  | some p =>
    if Text.lowerString path = Text.lowerString p.name then ofContext p
    else match ← locate dirs path with
      | none => return false
      | some place => if place = p.path then ofContext p else elsewhere place
  | none =>
    match ← locate dirs path with
    | none => return false
    | some place => elsewhere place

/-- A version of a program or library, asked for by its absolute path. -/
def binaryVersion (dirs : Directories) (path : String)
    (version? : String → Inspection (Option String)) : Inspection String := do
  match ← locate dirs path with
  | none => return Version.unknown
  | some place =>
    let there : Bool ← Inspection.ask (.isFile place)
    if there then return (← version? place).getD Version.unknown else return Version.unknown

/-- The version of a program or library, or the declared version of a plugin. -/
def versionOf (dirs : Directories) (path : String) : Inspection String :=
  let extension := extensionOf path
  if isBinaryExtension extension then
    binaryVersion dirs path fun place => Inspection.ask (.fileVersion place)
  else if isPluginExtension extension then do
    match ← locate dirs path with
    | none => return Version.unknown
    | some _ =>
      let declared : Option String ← Inspection.ask (.contentVersion path)
      return declared.getD Version.unknown
  else Inspection.refuse (.notBinaryOrPlugin path)

/-- The product version of a program or library. -/
def productVersionOf (dirs : Directories) (path : String) : Inspection String :=
  if isBinaryExtension (extensionOf path) then
    binaryVersion dirs path fun place => Inspection.ask (.productVersion place)
  else Inspection.refuse (.notBinary path)

def Call.holds (dirs : Directories) (context : Option Package) : Call → Inspection Bool
  | .file path => fileExists dirs path
  | .readable path => isReadable dirs path
  | .active plugin => isActive plugin
  | .many pattern => return 1 < (← matchingPaths dirs pattern).length
  | .manyActive pattern => hasActive 2 pattern
  | .isMaster plugin => Inspection.ask (.isMasterPlugin plugin)
  | .checksum path crc => hasChecksum dirs context path crc
  | .version path given sign => return sign.holds (← versionOf dirs path) given
  | .productVersion path given sign => return sign.holds (← productVersionOf dirs path) given

end PluginAudit.Condition
