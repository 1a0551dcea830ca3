import PluginAudit.Text.Search

/-!
# Paths

Paths are texts with `/` between their segments. An absolute path is read as the list of its
segments with `.` and `..` worked out; `Path.isInside` decides by these segments whether a place
lies in a directory. A segment that merely begins with two dots counts as leading out, since the
way from one place to another is judged by how its text begins.
-/

namespace PluginAudit.Path

open Text

def isSlash (c : Char) : Bool := c == '/'

/-- Whether a path starts at the root. -/
def isAbsolute (path : String) : Bool := path.toList.head? == some '/'

/-- The segments of a path as written, without empty ones. -/
def segments (path : String) : List (List Char) := words isSlash path.toList

/-- One step down or up from a place, given by its segments in reverse. -/
def walk (place : List (List Char)) (segment : List Char) : List (List Char) :=
  if segment = ['.'] then place
  else if segment = ['.', '.'] then place.tail
  else segment :: place

/-- The segments of a place reached from the root, `.` and `..` worked out. -/
def normalize (segments : List (List Char)) : List (List Char) := (segments.foldl walk []).reverse

/-- The absolute path of a place. -/
def ofSegments (segments : List (List Char)) : String :=
  match segments with
  | [] => "/"
  | segments => String.ofList (segments.flatMap ('/' :: ·))

/-- The segments of the place that `path` names, seen from the directory `base`. -/
def resolveSegments (base path : String) : List (List Char) :=
  normalize (if isAbsolute path then segments path else segments base ++ segments path)

/-- The absolute path of the place that `path` names, seen from the directory `base`. -/
def resolve (base path : String) : String := ofSegments (resolveSegments base path)

/-- The way from one place to another: up to the last common directory, then down. -/
def relativeSegments : List (List Char) → List (List Char) → List (List Char)
  | a :: as, b :: bs =>
    if a = b then relativeSegments as bs
    else (a :: as).map (fun _ => ['.', '.']) ++ b :: bs
  | as, bs => as.map (fun _ => ['.', '.']) ++ bs

/-- Whether a way leads neither up nor to a name that begins with two dots. -/
def staysBelow (way : List (List Char)) : Bool :=
  match way with
  | ('.' :: '.' :: _) :: _ => false
  | _ => true

/-- Whether a place lies in a directory or is the directory. -/
def isInside (directory place : String) : Bool :=
  staysBelow (relativeSegments (resolveSegments "/" directory) (resolveSegments "/" place))

/-- The path of an entry of a directory. -/
def child (directory name : String) : String :=
  if directory = "/" then "/" ++ name else directory ++ "/" ++ name

/-- A text without the slashes it ends with. -/
def dropEndSlashes (cs : List Char) : List Char := (cs.reverse.dropWhile isSlash).reverse

/-- The last segment of a path. -/
def basename (path : String) : String :=
  String.ofList ((dropEndSlashes path.toList).reverse.takeWhile (!isSlash ·)).reverse

/-- A path without its last segment. -/
def dirname (path : String) : String :=
  let before := ((dropEndSlashes path.toList).reverse.dropWhile (!isSlash ·)).tail.reverse
  match before with
  | [] => if isAbsolute path then "/" else "."
  | ['/'] => "//"
  | before => String.ofList before

/-- The extension of a path with its dot; names whose only dot comes first have none. -/
def extname (path : String) : String :=
  let name := ((dropEndSlashes path.toList).reverse.takeWhile (!isSlash ·)).reverse
  let after := name.reverse.takeWhile (· != '.')
  let before := (name.reverse.dropWhile (· != '.')).tail
  if before.isEmpty || name = ['.', '.'] then "" else String.ofList ('.' :: after.reverse)

/-- A path cut after its last slash. -/
def split (path : String) : String × String :=
  let back := path.toList.reverse
  (String.ofList (back.dropWhile (!isSlash ·)).reverse,
    String.ofList (back.takeWhile (!isSlash ·)).reverse)

end PluginAudit.Path
