import PluginAudit.Metadata.Record

/-!
# Merging records

Two records about the same plugin become one, the second having the last word. Files are told apart
by their names, dirty states by their checksums, messages by all they say. A list of the second
record that is absent or empty changes nothing.
-/

namespace PluginAudit.Metadata

/-- Overlays an entry on an entry of the same name: what it says replaces what was said. -/
def FileEntry.overlay (old new : FileEntry) : FileEntry :=
  { name := new.name
    display := new.display <|> old.display
    detail := new.detail <|> old.detail
    condition := new.condition <|> old.condition }

/-- Adds a reference to a list. A new name goes to the end; a bare reference to a known name changes
nothing; an entry is overlaid on an entry in its place, but replaces a bare reference at the end. -/
def addFileRef (ref : FileRef) : List FileRef → List FileRef
  | [] => [ref]
  | old :: refs =>
    if old.name = ref.name then
      match old, ref with
      | _, .bare _ => old :: refs
      | .bare _, .entry _ => refs ++ [ref]
      | .entry e, .entry e' => .entry (e.overlay e') :: refs
    else old :: addFileRef ref refs

def mergeFileRefs (base override : List FileRef) : List FileRef :=
  override.foldl (fun refs ref => addFileRef ref refs) base

/-- Merges two lists of messages; a message that is already there is not repeated. -/
def mergeMessages (base override : List Message) : List Message :=
  override.foldl (fun ms m => if m ∈ ms then ms else ms ++ [m]) base

/-- Overlays a dirty state on one of the same checksum. -/
def DirtyInfo.overlay (old new : DirtyInfo) : DirtyInfo :=
  { crc := new.crc
    util := new.util <|> old.util
    detail := new.detail <|> old.detail
    itm := new.itm <|> old.itm
    udr := new.udr <|> old.udr
    nav := new.nav <|> old.nav }

/-- Adds a dirty state to a list: in the place of the first one of its checksum, or at the end. -/
def addDirtyInfo (info : DirtyInfo) : List DirtyInfo → List DirtyInfo
  | [] => [info]
  | old :: infos =>
    if old.crc = info.crc then old.overlay info :: infos else old :: addDirtyInfo info infos

/-- Merges two lists of dirty states. -/
def mergeDirtyInfo (base override : List DirtyInfo) : List DirtyInfo :=
  override.foldl (fun infos info => addDirtyInfo info infos) base

/-- Merges two optional lists; the second changes nothing if it is absent or empty. -/
def mergeLists {α : Type} (merge : List α → List α → List α) (base override : Option (List α)) :
    Option (List α) :=
  match override with
  | none => base
  | some [] => base
  | some (a :: as) => some (merge (base.getD []) (a :: as))

def Record.merge (base override : Record) : Record :=
  { requirements := mergeLists mergeFileRefs base.requirements override.requirements
    incompatibilities :=
      mergeLists mergeFileRefs base.incompatibilities override.incompatibilities
    messages := mergeLists mergeMessages base.messages override.messages
    dirtyInfo := mergeLists mergeDirtyInfo base.dirtyInfo override.dirtyInfo }

end PluginAudit.Metadata
