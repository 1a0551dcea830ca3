import PluginAudit.CommandLine.Outcome

/-!
# The program

The dialogue of the command line with a disk is held with the disk of the machine; events are not
shown.
-/

namespace PluginAudit

open Host

/-- The reason for which the system refused an operation. -/
def codeOf : IO.Error → SystemError.Code
  | .noFileOrDirectory .. => .noEntry
  | .noSuchThing .. => .noEntry
  | .inappropriateType _ 20 _ => .notDirectory
  | .inappropriateType .. => .isDirectory
  | .invalidArgument _ 36 _ => .nameTooLong
  | .invalidArgument _ 40 _ => .tooManyLinks
  | e => .other "EIO" (toString e)

/-- The result of an operation, or the reason for which it was refused. A path with a zero character
would be cut there by the system. -/
def attempt {α : Type} (operation : String) (path? : Option String) (x : IO α) :
    IO (Except SystemError α) := do
  if path?.any fun p => '\x00' ∈ p.toList then return .error ⟨.zeroInPath, operation, path?⟩
  try return .ok (← x) catch e => return .error ⟨codeOf e, operation, path?⟩

/-- What there is at a path. -/
def kindAt (path : String) : IO FileKind := do
  match (← (← IO.FS.realPath path).metadata).type with
  | .file => return .file
  | .dir => return .directory
  | _ => return .special

/-- What there is at a path; nothing if the way to it ends early. -/
def findKind (path : String) : IO (Except SystemError (Option FileKind)) := do
  match ← attempt "stat" (some path) (kindAt path) with
  | .ok k => return .ok (some k)
  | .error e =>
    if e.code = .noEntry || e.code = .notDirectory then return .ok none else return .error e

/-- Reads a file, once it has been opened. -/
def readOpened (path : String) (read : IO.FS.Handle → IO ByteArray) :
    IO (Except SystemError ByteArray) := do
  match ← attempt "open" (some path) (IO.FS.Handle.mk path .read) with
  | .error e => return .error e
  | .ok handle =>
    match ← attempt "read" none (read handle) with
    | .ok b => return .ok b
    | .error e =>
      let kind? := (← findKind path).toOption
      return .error (if kind? == some (some .directory) then { e with code := .isDirectory } else e)

/-- The answer of the machine's disk to a question. -/
def diskAnswer : (q : Disk.Query) → IO (Disk.Answer q)
  | .kindOf path => findKind path
  | .isPresent path => return (← findKind path).toOption.join.isSome
  | .isReadable path =>
    return (← attempt "access" (some path) (IO.FS.Handle.mk path .read)).isOk
  | .namesIn path => attempt "scandir" (some path) do
      return (← (← IO.FS.realPath path).readDir).toList.map (·.fileName)
  | .contentOf path => readOpened path (·.readBinToEnd)
  | .beginningOf path length => readOpened path (·.read length.toUSize)

end PluginAudit

/-- Does what is asked for on the command line. -/
def main (args : List String) : IO UInt32 := do
  let base := (← IO.currentDir).toString
  let outcome ← (PluginAudit.CommandLine.run base args).interpret PluginAudit.diskAnswer
    fun _ => pure ()
  IO.print outcome.out
  IO.eprint outcome.err
  return outcome.code.toUInt32
