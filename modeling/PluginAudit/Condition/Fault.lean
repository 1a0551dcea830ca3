/-!
# What can be wrong with a condition

A condition, a pattern or a path of a metadata document is untrusted text. `Condition.Fault` lists
the causes for which one is refused; `Fault.message` is the wording of each.
-/

namespace PluginAudit.Condition

/-- Why a condition, or a path or pattern given to one of its functions, is refused. -/
inductive Fault where
  /-- A word that is neither a truth value nor an operator is left after the calls are replaced. -/
  | invalidToken (word : String)
  /-- The expression has a token where none of its kind may stand. -/
  | unexpectedToken (source token : String)
  | missingParenthesis (source : String)
  /-- The expression ends where an operand is needed. -/
  | unexpectedEnd (source : String)
  /-- A call has too few or too many arguments. -/
  | argumentCount (function : String) (expected got : Nat) (arguments : String)
  /-- An argument is not a complete quoted literal. -/
  | invalidArgument (argument : String)
  /-- A checksum argument is not a hexadecimal number. -/
  | invalidChecksum (argument : String)
  /-- A checksum argument does not fit in 32 bits. -/
  | checksumRange (argument : String)
  /-- A comparator argument is none of the six comparison signs. -/
  | invalidComparator (argument : String)
  /-- A pattern is not a regular expression. -/
  | invalidPattern (pattern : String)
  /-- A path leads out of the game directory. -/
  | outsideGame (path : String)
  /-- A path leads out of the data directory. -/
  | outsideData (path : String)
  /-- A version is asked of something that has none. -/
  | notBinaryOrPlugin (path : String)
  /-- A product version is asked of something that has none. -/
  | notBinary (path : String)
  /-- The condition as a whole is refused, for a cause found inside it. -/
  | inCondition (condition : String) (cause : Fault)
  deriving Repr, DecidableEq, Inhabited

def Fault.message : Fault → String
  | .invalidToken w => "Condition contains invalid token: " ++ w
  | .unexpectedToken src tok => invalid src ++ "unexpected '" ++ tok ++ "'"
  | .missingParenthesis src => invalid src ++ "missing closing parenthesis"
  | .unexpectedEnd src => invalid src ++ "unexpected end of expression"
  | .argumentCount f expected got args =>
    f ++ "() expects " ++ toString expected ++ " argument(s), got " ++ toString got ++ ": " ++ args
  | .invalidArgument a => "Invalid arg: " ++ a
  | .invalidChecksum a => "Invalid checksum: " ++ a
  | .checksumRange a => "Checksum out of range: " ++ a
  | .invalidComparator a => "Invalid comparator: " ++ a
  | .invalidPattern p => "Invalid pattern: " ++ p
  | .outsideGame p => p ++ " is not inside the game directory."
  | .outsideData p => p ++ " is not inside the data directory."
  | .notBinaryOrPlugin p => p ++ " is not a valid binary or plugin file."
  | .notBinary p => p ++ " is not a valid binary file."
  | .inCondition c cause => "Invalid condition \"" ++ c ++ "\": " ++ cause.message
where
  /-- The opening words of the three complaints about an expression's shape. -/
  invalid (source : String) : String := "Invalid boolean expression \"" ++ source ++ "\": "

end PluginAudit.Condition
