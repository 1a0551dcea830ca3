import PluginAudit.Host.Disk
import PluginAudit.Path

/-!
# File systems held in memory

A `Tree` is a file system as a list of places with what is there. A path is followed segment by
segment as an operating system does it: links are replaced by what they lead to, at most forty of
them, a name has at most 255 bytes, and only a directory can be gone on from.
-/

namespace PluginAudit.Host

/-- A place of a tree: the names on the way to it from the root. -/
abbrev Place := List String

/-- What there is at a place. -/
inductive Tree.Entry where
  | file (content : ByteArray)
  | directory
  /-- A link to a path, seen from the directory the link is in. -/
  | link (target : String)
  deriving Inhabited

/-- A file system held in memory. The root is always a directory. -/
structure Tree where
  /-- The places with what is there. -/
  entries : List (Place × Tree.Entry) := []
  deriving Inhabited

namespace Tree

/-- The greatest number of bytes of a name. -/
def longestName : Nat := 255

/-- The number of bytes that a path has to stay below. -/
def pathLimit : Nat := 4096

/-- The greatest number of links on a way. -/
def mostLinks : Nat := 40

variable (t : Tree)

/-- What there is at a place, links not followed. -/
def entryAt? (place : Place) : Option Entry :=
  if place.isEmpty then some .directory else t.entries.lookup place

/-- The segments of a path. A slash at its end asks for a directory, as a dot would. -/
def steps (path : String) : List String :=
  let names := (Path.segments path).map String.ofList
  if path.toList.getLast? == some '/' then names ++ ["."] else names

/-- Follows segments from a directory to a place and what is there, links replaced by what they lead
to. A place other than the last one has to be a directory. -/
def follow (links : Nat) (place : Place) (names : List String) :
    Except SystemError.Code (Place × Entry) :=
  match names with
  | [] => .ok (place, .directory)
  | "." :: rest => follow links place rest
  | ".." :: rest => follow links place.dropLast rest
  | name :: rest =>
    if longestName < name.utf8ByteSize then .error .nameTooLong
    else match t.entryAt? (place ++ [name]) with
      | none => .error .noEntry
      | some .directory => follow links (place ++ [name]) rest
      | some (.file content) =>
        if rest.isEmpty then .ok (place ++ [name], .file content) else .error .notDirectory
      | some (.link target) =>
        match links with
        | 0 => .error .tooManyLinks
        | links + 1 =>
          follow links (if Path.isAbsolute target then [] else place) (steps target ++ rest)
  termination_by (links, names.length)

/-- The place a path leads to and what is there. -/
def find (path : String) : Except SystemError.Code (Place × Entry) :=
  if '\x00' ∈ path.toList then .error .zeroInPath
  else if path.isEmpty then .error .noEntry
  else if pathLimit ≤ path.utf8ByteSize then .error .nameTooLong
  else t.follow mostLinks [] (steps path)

def namesAt (place : Place) : List String :=
  t.entries.filterMap fun (p, _) => if p.dropLast = place then p.getLast? else none

/-- The content of a file at a path. -/
def content (path : String) : Except SystemError ByteArray :=
  match t.find path with
  | .error c => .error ⟨c, "open", some path⟩
  | .ok (_, .file content) => .ok content
  | .ok _ => .error ⟨.isDirectory, "read", none⟩

def answer : (q : Disk.Query) → Disk.Answer q
  | .kindOf path =>
    match t.find path with
    | .ok (_, .file _) => .ok (some .file)
    | .ok _ => .ok (some .directory)
    | .error .noEntry => .ok none
    | .error .notDirectory => .ok none
    | .error c => .error ⟨c, "stat", some path⟩
  | .isPresent path => (t.find path).isOk
  | .isReadable path => (t.find path).isOk
  | .namesIn path =>
    match t.find path with
    | .ok (place, .directory) => .ok (t.namesAt place)
    | .ok _ => .error ⟨.notDirectory, "scandir", some path⟩
    | .error c => .error ⟨c, "scandir", some path⟩
  | .contentOf path => t.content path
  | .beginningOf path length => (t.content path).map fun b => b.extract 0 length

/-! ## Changes -/

/-- Puts something at a place, in place of what is there. -/
def put (place : Place) (e : Entry) : Tree :=
  if t.entries.any fun (p, _) => p = place then
    { t with entries := t.entries.map fun (p, f) => if p = place then (p, e) else (p, f) }
  else { t with entries := t.entries ++ [(place, e)] }

/-- Makes the directories on a way that are not there yet; the second part is the place reached. -/
def makeDirectories : Tree → Place → List String → Tree × Place
  | t, place, [] => (t, place)
  | t, place, name :: rest =>
    match t.follow mostLinks place [name] with
    | .ok (there, _) => makeDirectories t there rest
    | .error _ => makeDirectories (t.put (place ++ [name]) .directory) (place ++ [name]) rest

/-- Puts something at a path, the directories on the way made. A file is written where a link at the
path leads to. -/
def write (path : String) (e : Entry) : Tree :=
  let names := (Path.segments path).map String.ofList
  match e with
  | .directory => (t.makeDirectories [] names).1
  | _ =>
    let (t, directory) := t.makeDirectories [] names.dropLast
    let name := names.getLast?.toList
    match t.follow mostLinks directory name with
    | .ok (there, .file _) => t.put there e
    | _ => t.put (directory ++ name) e

/-- Removes what is at a path and everything in it; a link is removed itself. -/
def remove (path : String) : Tree :=
  let names := (Path.segments path).map String.ofList
  match t.follow mostLinks [] names.dropLast with
  | .error _ => t
  | .ok (directory, _) =>
    let place := directory ++ names.getLast?.toList
    { t with entries := t.entries.filter fun (p, _) => !place.isPrefixOf p }

/-- The transcript and the result of a dialogue. -/
def run {α : Type} (i : DiskInquiry α) : List (Dialogue.Line Disk.Query Log.Event) × α :=
  Dialogue.run t.answer i

end Tree

end PluginAudit.Host
