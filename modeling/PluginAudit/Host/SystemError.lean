import PluginAudit.Text.Quotation

/-!
# Errors of the file system

What the operating system refuses, with the wording under which a failed operation is reported. A
path with a zero character never gets to the system: it is refused before, as an argument.
-/

namespace PluginAudit.Host

/-- Why an operation on a file is refused. -/
inductive SystemError.Code where
  /-- There is nothing of that name. -/
  | noEntry
  /-- A directory was to be read as a file. -/
  | isDirectory
  /-- Something that is not a directory was to be entered. -/
  | notDirectory
  /-- A name is longer than the file system allows. -/
  | nameTooLong
  /-- Symbolic links lead on and on. -/
  | tooManyLinks
  /-- A path has a zero character in it. -/
  | zeroInPath
  /-- Any other reason, under the name the system gives it. -/
  | other (name text : String)
  deriving Repr, DecidableEq, Inhabited

/-- The system's name of a reason. -/
def SystemError.Code.name : SystemError.Code → String
  | noEntry => "ENOENT"
  | isDirectory => "EISDIR"
  | notDirectory => "ENOTDIR"
  | nameTooLong => "ENAMETOOLONG"
  | tooManyLinks => "ELOOP"
  | zeroInPath => "ERR_INVALID_ARG_VALUE"
  | other name _ => name

def SystemError.Code.text : SystemError.Code → String
  | noEntry => "no such file or directory"
  | isDirectory => "illegal operation on a directory"
  | notDirectory => "not a directory"
  | nameTooLong => "name too long"
  | tooManyLinks => "too many symbolic links encountered"
  | zeroInPath =>
    "The argument 'path' must be a string, Uint8Array, or URL without null bytes. Received "
  | other _ text => text

structure SystemError where
  code : SystemError.Code
  operation : String
  /-- The path it was asked for; none once the file is open. -/
  path? : Option String
  deriving Repr, DecidableEq, Inhabited

/-- The wording of a refused operation, or of a refused argument. -/
def SystemError.message (e : SystemError) : String :=
  if e.code = .zeroInPath then e.code.text ++ Text.shownArgument (e.path?.getD "")
  else
    e.code.name ++ ": " ++ e.code.text ++ ", " ++ e.operation ++
      match e.path? with
      | some p => " '" ++ p ++ "'"
      | none => ""

end PluginAudit.Host
