import PluginAudit.Audit
import PluginAudit.Game
import PluginAudit.Host.Installation
import PluginAudit.Metadata.Loading

/-!
# Checking an installed game

The two things a user asks for: the warnings about every plugin of an installed game, and the value
of a single condition in it. Both are dialogues with a disk.
-/

namespace PluginAudit.Check

open Host

/-- The installed game that is meant; its paths are seen from a directory. -/
structure Target where
  /-- The directory from which paths are seen. -/
  base : String
  data : String
  game : String := Game.defaultId
  /-- The root of the game; around the data directory if it is not given. -/
  gameDir : Option String := none
  pluginsFile : Option String := none
  contentVersions : Ordered String := []
  deriving Repr, Inhabited

/-- The settings of an installed game whose plugins have a format. -/
def Target.settings (t : Target) (format : Option Plugin.Format) : Installation.Settings :=
  { base := t.base
    data := t.data
    game := t.gameDir
    pluginsFile := t.pluginsFile.map (Path.resolve t.base)
    contentVersions := t.contentVersions
    format := format }

def Target.open? (t : Target) : DiskInquiry (Except Failure Installation) := do
  match Game.find? t.game with
  | none => return .error (.unsupportedGame t.game)
  | some game =>
    Dialogue.remark (.usingGame game.name)
    Installation.ofSettings (t.settings game.format?)

/-- Holds a dialogue with the host of a target. -/
def Target.hold {α : Type} (t : Target) (d : Installation → Inquiry (Except Failure α)) :
    DiskInquiry (Except Failure α) := do
  match ← t.open? with
  | .error f => return .error f
  | .ok i =>
    let (r, _) ← (i.hold (d i)).run none
    return r

def readDocument (t : Target) (path : String) : DiskInquiry (Except Failure (List Char)) := do
  match ← Disk.contentOf (Path.resolve t.base path) with
  | .error e => return .error (.system e)
  | .ok b => return .ok (Text.ofUtf8 b)

/-- The text of a document that need not be given. -/
def readOptional (t : Target) :
    Option String → DiskInquiry (Except Failure (Option (List Char)))
  | none => return .ok none
  | some path => do
    match ← readDocument t path with
    | .error f => return .error f
    | .ok cs => return .ok (some cs)

/-- Makes notes one after the other. -/
def remarkAll : List Log.Event → DiskInquiry Unit
  | [] => return ()
  | e :: es => do
    Dialogue.remark e
    remarkAll es

/-- The warnings about every plugin, given the documents. -/
def audit (t : Target) (masterlist : List Char) (userlist : Option (List Char))
    (includeInfo : Bool) : DiskInquiry (Except Failure (List Warning)) := do
  match Metadata.load masterlist userlist with
  | .error f => return .error f
  | .ok (store, events) =>
    remarkAll events
    Dialogue.remark (.loadedMetadata store.size)
    t.hold fun i => Audit.warnings i.directories store includeInfo

/-- The warnings about every plugin of an installed game. -/
def warnings (t : Target) (masterlist : String) (userlist : Option String) (includeInfo : Bool) :
    DiskInquiry (Except Failure (List Warning)) := do
  match ← readDocument t masterlist with
  | .error f => return .error f
  | .ok masterlist =>
    match ← readOptional t userlist with
    | .error f => return .error f
    | .ok userlist => audit t masterlist userlist includeInfo

/-- The value of a condition in an installed game, perhaps for one of its plugins. -/
def conditionIn (i : Installation) (condition : String) (plugin : Option String) :
    Inspection Bool := do
  match plugin with
  | none => Condition.evaluate i.directories none condition
  | some plugin =>
    let key := Text.lowerString (Path.basename plugin)
    let paths : List String ←
      Inspection.ask (Query.findFiles "" fun file => Text.lowerString file = key)
    match paths with
    | [] => throw (.notInstalled i.directories.data plugin)
    | path :: _ => Condition.evaluate i.directories (some ⟨path⟩) condition

/-- The value of a condition for a target. -/
def condition (t : Target) (text : String) (plugin : Option String) :
    DiskInquiry (Except Failure Bool) :=
  t.hold fun i => (conditionIn i text plugin).start

end PluginAudit.Check
