import PluginAudit.CommandLine.Arguments
import PluginAudit.Game

/-!
# What is asked for on the command line

There are two commands, one for the warnings about all plugins and one for a single condition. Both
take options that describe the installed game.
-/

namespace PluginAudit.CommandLine

inductive Command where
  | check
  | evaluate
  deriving Repr, DecidableEq, Inhabited

/-- The options that describe an installed game, as they are given. -/
structure GameOptions where
  data : String
  game : String
  gameDir : Option String := none
  pluginsFile : Option String := none
  contentVersions : List String := []
  deriving Repr, DecidableEq, Inhabited

inductive Invocation where
  | version
  | help
  | check (game : GameOptions) (masterlist : String) (userlist : Option String)
      (includeInfo json : Bool)
  | evaluate (game : GameOptions) (condition : String) (plugin : Option String)
  deriving Repr, DecidableEq, Inhabited

inductive Refusal where
  | misuse (cause : Misuse)
  | nothing
  deriving Repr, DecidableEq, Inhabited

/-! ## Options -/

/-- The option for the version of the program. -/
def versionFlag : Flag := { long := "--version", short := some "-V" }

/-- The option for how the program is used. -/
def helpFlag : Flag := { long := "--help", short := some "-h" }

/-- The options that describe an installed game. -/
def gameFlags : List Flag := [
  { long := "--game", value := some "<id>" },
  { long := "--plugins-file", value := some "<file>" },
  { long := "--game-dir", value := some "<dir>" },
  { long := "--content-version", value := some "<plugin=version>" }]

namespace Command

def name : Command → String
  | check => "check"
  | evaluate => "eval"

def all : List Command := [check, evaluate]

def ofName? (s : String) : Option Command := all.find? (·.name = s)

def flags : Command → List Flag
  | check => { long := "--userlist", value := some "<file>" } :: gameFlags ++
      [{ long := "--include-info" }, { long := "--json" }]
  | evaluate => gameFlags ++ [{ long := "--plugin", value := some "<name>" }]

/-- How the second operand of a command is called; the first is the data directory. -/
def operand : Command → String
  | check => "masterlist"
  | evaluate => "condition"

/-- The long names of the options that may be meant in a command. -/
def knownOptions (c : Command) : List String :=
  (c.flags ++ [helpFlag, versionFlag]).map (·.long)

end Command

/-! ## Reading arguments -/

/-- Whether help is asked for among arguments that are set aside. -/
def asksForHelp (aside : List String) : Bool :=
  aside.any fun arg => arg = helpFlag.long || some arg = helpFlag.short

/-- The description of the installed game among the options. -/
def gameOptions (data : String) (a : Arguments) : GameOptions :=
  { data := data
    game := (a.value? "--game").getD Game.defaultId
    gameDir := a.value? "--game-dir"
    pluginsFile := a.value? "--plugins-file"
    contentVersions := a.values "--content-version" }

/-- What a command is asked for. -/
def Command.invocation (c : Command) (data operand : String) (a : Arguments) : Invocation :=
  let game := gameOptions data a
  match c with
  | check =>
    .check game operand (a.value? "--userlist") (a.has "--include-info") (a.has "--json")
  | evaluate => .evaluate game operand (a.value? "--plugin")

/-- Reads the arguments of a command, those before its first option apart. -/
def Command.read (c : Command) (operands aside : List String) : Except Misuse Invocation :=
  match Arguments.sort c.flags false aside with
  | .error f => .error f
  | .ok a =>
    if asksForHelp a.aside then .ok .help
    else match a.aside with
      | name :: _ => .error (.unknownOption name c.knownOptions)
      | [] =>
        match operands ++ a.operands with
        | [] => .error (.missingArgument "data-dir")
        | [_] => .error (.missingArgument c.operand)
        | data :: operand :: _ => .ok (c.invocation data operand a)

/-- Reads the arguments of the program. -/
def Invocation.read (args : List String) : Except Refusal Invocation :=
  match Arguments.sort [versionFlag] false args with
  | .error f => .error (.misuse f)
  | .ok a =>
    if a.has versionFlag.long then .ok .version
    else match a.operands with
      | [] =>
        match a.aside with
        | [] => .error .nothing
        | name :: _ =>
          if asksForHelp a.aside then .ok .help
          else .error (.misuse (.unknownOption name [versionFlag.long, helpFlag.long]))
      | name :: operands =>
        match Command.ofName? name with
        | some c =>
          match c.read operands a.aside with
          | .ok i => .ok i
          | .error f => .error (.misuse f)
        | none =>
          if name = "help" || asksForHelp a.aside then .ok .help
          else .error (.misuse (.unknownCommand name (Command.all.map (·.name) ++ ["help"])))

end PluginAudit.CommandLine
