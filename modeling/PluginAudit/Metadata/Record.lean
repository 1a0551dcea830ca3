/-!
# Metadata records

What metadata says about one plugin, or about every plugin that matches a pattern: the files it
needs, the files it does not get along with, messages about it, and the states of it that are known
to be dirty.
-/

namespace PluginAudit.Metadata

structure LocalizedText where
  lang : String
  text : String
  deriving Repr, DecidableEq, Inhabited

/-- A text, or variants of it, of which the first is English. -/
inductive TextContent where
  | plain (text : String)
  | localized (variants : List LocalizedText)
  deriving Repr, DecidableEq, Inhabited

namespace TextContent

def resolve : TextContent → String
  | plain s => s
  | localized [] => ""
  | localized (v :: _) => v.text

end TextContent

/-- A file with what there is to be said about it. -/
structure FileEntry where
  /-- The path or pattern, seen from the data directory. -/
  name : String
  /-- How the file is called instead of its name. -/
  display : Option String := none
  detail : Option TextContent := none
  /-- The condition under which the entry applies. -/
  condition : Option String := none
  deriving Repr, DecidableEq, Inhabited

/-- A file, named with or without more to be said about it. -/
inductive FileRef where
  | bare (name : String)
  | entry (e : FileEntry)
  deriving Repr, DecidableEq, Inhabited

namespace FileRef

/-- The path or pattern of a file. -/
def name : FileRef → String
  | bare n => n
  | entry e => e.name

/-- The condition under which the reference applies. -/
def condition : FileRef → Option String
  | bare _ => none
  | entry e => e.condition

end FileRef

inductive MessageType where
  | say
  | info
  | warn
  | error
  deriving Repr, DecidableEq, Inhabited

namespace MessageType

def all : List MessageType := [say, info, warn, error]

def name : MessageType → String
  | say => "say"
  | info => "info"
  | warn => "warn"
  | error => "error"

def ofName? (s : String) : Option MessageType := all.find? (·.name = s)

/-- Whether a message is reported even if only warnings and errors are wanted. -/
def isSerious : MessageType → Bool
  | warn => true
  | error => true
  | _ => false

end MessageType

structure Message where
  type : MessageType
  content : TextContent
  /-- What the placeholders of the text stand for. -/
  subs : Option (List String) := none
  /-- The condition under which it applies. -/
  condition : Option String := none
  deriving Repr, DecidableEq, Inhabited

/-- A state of a plugin that is known to be dirty. -/
structure DirtyInfo where
  /-- The checksum of the file in that state. -/
  crc : UInt32
  /-- The utility by which the counts were found. -/
  util : Option String := none
  detail : Option TextContent := none
  /-- The number of records that are identical to those of a master. -/
  itm : Option Nat := none
  /-- The number of undeleted and disabled references. -/
  udr : Option Nat := none
  /-- The number of deleted navigation meshes. -/
  nav : Option Nat := none
  deriving Repr, DecidableEq, Inhabited

/-- What metadata says about a plugin. A list that is absent is not the same as an empty one. -/
structure Record where
  requirements : Option (List FileRef) := none
  /-- The files it does not get along with. -/
  incompatibilities : Option (List FileRef) := none
  messages : Option (List Message) := none
  /-- The states of it that are known to be dirty. -/
  dirtyInfo : Option (List DirtyInfo) := none
  deriving Repr, DecidableEq, Inhabited

end PluginAudit.Metadata
