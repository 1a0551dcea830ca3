import PluginAudit.Dialogue
import PluginAudit.Host.SystemError
import PluginAudit.Log.Event

/-!
# Questions to a file system

What an installed game is like shows in the files on disk. A `Disk.Query` asks for one fact about
one path, so that how the facts of a host follow from those of the disk is a dialogue again.
-/

namespace PluginAudit.Host

/-- What there is at a path, links followed. -/
inductive FileKind where
  | file
  | directory
  /-- Something else, such as a device. -/
  | special
  deriving Repr, DecidableEq, Inhabited

/-- A question to a file system. -/
inductive Disk.Query where
  /-- What there is at a path; nothing if the way to it ends early. -/
  | kindOf (path : String)
  /-- Whether there is anything at a path. -/
  | isPresent (path : String)
  /-- Whether what is at a path may be read. -/
  | isReadable (path : String)
  /-- The names in a directory, in any order. -/
  | namesIn (path : String)
  | contentOf (path : String)
  /-- The first bytes of a file, as many as there are of those asked for. -/
  | beginningOf (path : String) (length : Nat)
  deriving Repr, DecidableEq, Inhabited

/-- What a question to a file system is answered with. -/
def Disk.Answer : Disk.Query → Type
  | .kindOf _ => Except SystemError (Option FileKind)
  | .isPresent _ => Bool
  | .isReadable _ => Bool
  | .namesIn _ => Except SystemError (List String)
  | .contentOf _ => Except SystemError ByteArray
  | .beginningOf .. => Except SystemError ByteArray

/-- A dialogue with a file system. -/
abbrev DiskInquiry := Dialogue Disk.Query Disk.Answer Log.Event

namespace Disk

/-- What there is at a path. -/
def kindOf (path : String) : DiskInquiry (Except SystemError (Option FileKind)) :=
  .query (Query.kindOf path)

/-- Whether there is anything at a path. -/
def isPresent (path : String) : DiskInquiry Bool := .query (Query.isPresent path)

/-- Whether what is at a path may be read. -/
def isReadable (path : String) : DiskInquiry Bool := .query (Query.isReadable path)

def namesIn (path : String) : DiskInquiry (Except SystemError (List String)) :=
  .query (Query.namesIn path)

def contentOf (path : String) : DiskInquiry (Except SystemError ByteArray) :=
  .query (Query.contentOf path)

/-- The first bytes of a file. -/
def beginningOf (path : String) (length : Nat) : DiskInquiry (Except SystemError ByteArray) :=
  .query (Query.beginningOf path length)

end Disk

end PluginAudit.Host
