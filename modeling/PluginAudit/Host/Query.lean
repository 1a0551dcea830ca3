import PluginAudit.Dialogue
import PluginAudit.Log.Event

/-!
# Questions to a host

A host knows the facts about an installed game that conditions and warnings depend on. Everything
that is asked of it is a `Host.Query`, and every answer may be a failure instead. `Inquiry` is a
dialogue with a host; `Inspection` is one about a plugin, whose facts are kept once they are known,
and which may end with a failure.
-/

namespace PluginAudit

namespace Host

/-- The two directories of an installed game, as absolute paths. -/
structure Directories where
  data : String
  game : String
  deriving Repr, DecidableEq, Inhabited

inductive Query where
  /-- The paths of the files of a directory, seen from the data directory, whose names pass a
  test. -/
  | findFiles (directory : String) (keep : String → Bool)
  /-- The names in a directory; none if there is no such directory. -/
  | listDirectory (path : String)
  /-- Whether there is anything at a path. -/
  | isPresent (path : String)
  /-- Whether there is a file at a path. -/
  | isFile (path : String)
  /-- Whether what is at a path can be read. -/
  | isReadable (path : String)
  /-- Whether a plugin is installed and active. -/
  | isPluginActive (plugin : String)
  /-- The names of the installed plugins in load order. -/
  | pluginNames
  /-- Whether a plugin is a master. -/
  | isMasterPlugin (plugin : String)
  | contentOf (path : String)
  /-- The version of a program or library. -/
  | fileVersion (path : String)
  /-- The product version of a program or library. -/
  | productVersion (path : String)
  /-- The version declared for a file. -/
  | contentVersion (path : String)
  /-- The structure of a plugin; none if the game has no structural checks. -/
  | structureOf (content : ByteArray) (file : String)

/-- What a question is answered with when nothing fails. -/
def Value : Query → Type
  | .findFiles .. => List String
  | .listDirectory _ => List String
  | .isPresent _ => Bool
  | .isFile _ => Bool
  | .isReadable _ => Bool
  | .isPluginActive _ => Bool
  | .pluginNames => List String
  | .isMasterPlugin _ => Bool
  | .contentOf _ => ByteArray
  | .fileVersion _ => Option String
  | .productVersion _ => Option String
  | .contentVersion _ => Option String
  | .structureOf .. => Option Plugin.Structure

/-- What a question is answered with. -/
abbrev Answer (q : Query) : Type := Except Failure (Value q)

end Host

abbrev Inquiry := Dialogue Host.Query Host.Answer Log.Event

/-- What is known of a plugin once its file has been read. -/
structure Facts where
  checksum : UInt32
  /-- Its structure, if the game has structural checks, or what is wrong with it. -/
  structure? : Except Plugin.Fault (Option Plugin.Structure)

/-- A dialogue with a host about a plugin whose facts are kept once they are known. -/
abbrev Inspection := ExceptT Failure (StateT (Option Facts) Inquiry)

namespace Inspection

/-- What a host answers, be it a failure. -/
def answer (q : Host.Query) : Inspection (Host.Answer q) :=
  ExceptT.lift (StateT.lift (Dialogue.query q))

/-- What a host answers; a failure ends the inspection. -/
def ask (q : Host.Query) : Inspection (Host.Value q) :=
  ExceptT.mk (StateT.lift (Dialogue.query q))

def report (e : Log.Event) : Inspection Unit :=
  ExceptT.lift (StateT.lift (Dialogue.remark e))

def known : Inspection (Option Facts) := ExceptT.lift fun s => .done (s, s)

def keep (f : Facts) : Inspection Unit := ExceptT.lift fun _ => .done ((), some f)

def refuse {α : Type} (f : Condition.Fault) : Inspection α := throw (.condition f)

/-- The result, or else the fault for which a condition is refused. -/
def ofFault {α : Type} : Except Condition.Fault α → Inspection α
  | .ok a => pure a
  | .error f => refuse f

/-- The dialogue of an inspection that begins without any facts. -/
def start {α : Type} (i : Inspection α) : Inquiry (Except Failure α) := do
  let (a, _) ← i.run none
  return a

end Inspection

end PluginAudit
