import PluginAudit.Text.Case

/-!
# Log levels

The levels at which the program reports on its work, from the most talkative to silence.
-/

namespace PluginAudit.Log

inductive Level where
  | trace
  /-- What helps in finding a mistake. -/
  | debug
  | info
  | warn
  | error
  | fatal
  | silent
  deriving Repr, DecidableEq, Inhabited

namespace Level

/-- The levels, from the most talkative on. -/
def all : List Level := [trace, debug, info, warn, error, fatal, silent]

def name : Level → String
  | trace => "trace"
  | debug => "debug"
  | info => "info"
  | warn => "warn"
  | error => "error"
  | fatal => "fatal"
  | silent => "silent"

/-- The level that a setting chooses, in any case; warnings and errors when it chooses none. -/
def ofSetting (setting? : Option String) : Level :=
  match setting? with
  | none => warn
  | some s => (all.find? (·.name = Text.lowerString s)).getD warn

end Level

end PluginAudit.Log
