import PluginAudit.Check
import PluginAudit.CommandLine.Invocation
import PluginAudit.Warning.Report

/-!
# What the program answers

An outcome is what the program writes to its two outputs and the code it ends with.
-/

namespace PluginAudit.CommandLine

open Host

/-- What the program writes and how it ends. -/
structure Outcome where
  /-- The code it ends with; zero if all is well. -/
  code : Nat
  /-- What is written to the output. -/
  out : String := ""
  /-- What is written to the output for errors. -/
  err : String := ""
  deriving Repr, DecidableEq, Inhabited

def unlines (ls : List String) : String := String.join (ls.map (· ++ "\n"))

/-- The outcome when all is well. -/
def Outcome.done (ls : List String) : Outcome := { code := 0, out := unlines ls }

def Outcome.failed (line : String) : Outcome := { code := 1, err := line ++ "\n" }

def programVersion : String := "0.1.0"

def usage : List String := [
  "Usage: masterlist-warnings [options] [command]",
  "",
  "Check installed game plugins against a LOOT masterlist",
  "",
  "Options:",
  "  -V, --version                            output the version number",
  "  -h, --help                               display help for command",
  "",
  "Commands:",
  "  check [options] <data-dir> <masterlist>  Report warnings for every plugin in a data directory",
  "  eval [options] <data-dir> <condition>    Evaluate a single masterlist condition",
  "  help [command]                           display help for command"]

/-- The target of the options, seen from a directory. -/
def GameOptions.target (base : String) (o : GameOptions) :
    Except ContentVersion.Fault Check.Target :=
  match ContentVersion.readAll o.contentVersions with
  | .error f => .error f
  | .ok versions => .ok {
      base := base
      data := o.data
      game := o.game
      gameDir := o.gameDir
      pluginsFile := o.pluginsFile
      contentVersions := versions }

/-- The result for the target of the options. -/
def withTarget {α : Type} (base : String) (o : GameOptions)
    (f : Check.Target → DiskInquiry (Except Failure α)) : DiskInquiry (Except Failure α) :=
  match o.target base with
  | .error e => return .error (.declaration e)
  | .ok t => f t

def report (json : Bool) (ws : List Warning) : List String :=
  if json then [Json.render 0 (.list (ws.map Warning.json))] else Warning.lines ws

/-- Does what is asked for, paths being seen from a directory. -/
def Invocation.run (base : String) : Invocation → DiskInquiry Outcome
  | .version => return .done [programVersion]
  | .help => return .done usage
  | .check o masterlist userlist includeInfo json => do
    match ← withTarget base o fun t => Check.warnings t masterlist userlist includeInfo with
    | .ok ws => return .done (report json ws)
    | .error f => return .failed ("❌ Check failed: " ++ f.message)
  | .evaluate o condition plugin => do
    match ← withTarget base o fun t => Check.condition t condition plugin with
    | .ok b => return .done [if b then "True" else "False"]
    | .error f => return .failed ("❌ Evaluation failed: " ++ f.message)

/-- What the program does for its arguments. -/
def run (base : String) (args : List String) : DiskInquiry Outcome :=
  match Invocation.read args with
  | .ok i => i.run base
  | .error (.misuse f) => return .failed f.message
  | .error .nothing => return { code := 1, err := unlines usage }

end PluginAudit.CommandLine
