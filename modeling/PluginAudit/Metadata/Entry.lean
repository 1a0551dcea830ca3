import PluginAudit.Metadata.Record
import PluginAudit.Value

/-!
# Entries of a metadata document

An entry of a document's list of plugins is read from its value. Every field has one expected form,
and a field that is there in another form makes the whole entry invalid; fields that nobody asks for
are passed over.
-/

namespace PluginAudit.Metadata

open Value

/-- A field that has to be there in the expected form. -/
def required {α : Type} (read? : Value → Option α) (v : Value) (key : String) : Option α :=
  (v.field? key).bind read?

/-- An optional field: absent, or there in the expected form. -/
def optional {α : Type} (read? : Value → Option α) (v : Value) (key : String) :
    Option (Option α) :=
  match v.field? key with
  | none => some none
  | some w => (read? w).map some

/-- A list whose items all have the expected form. -/
def listOf? {α : Type} (read? : Value → Option α) (v : Value) : Option (List α) :=
  v.list?.bind fun items => items.mapM read?

/-- A text that is not empty. -/
def nonempty? (v : Value) : Option String :=
  v.text?.filter (· ≠ "")

namespace LocalizedText

/-- The variant that a value is. -/
def ofValue? (v : Value) : Option LocalizedText := do
  let lang ← required text? v "lang"
  let text ← required text? v "text"
  return ⟨lang, text⟩

end LocalizedText

namespace TextContent

/-- The text that a value is; there has to be at least one variant. -/
def ofValue? (v : Value) : Option TextContent :=
  match v with
  | .text s => some (plain s)
  | v => ((listOf? LocalizedText.ofValue? v).filter (!·.isEmpty)).map localized

end TextContent

namespace FileRef

/-- The file entry that a value is. -/
def entryOfValue? (v : Value) : Option FileEntry := do
  let name ← required nonempty? v "name"
  let display ← optional text? v "display"
  let detail ← optional TextContent.ofValue? v "detail"
  let condition ← optional text? v "condition"
  return ⟨name, display, detail, condition⟩

/-- The file that a value names. -/
def ofValue? (v : Value) : Option FileRef :=
  match v with
  | .text _ => (nonempty? v).map bare
  | v => (entryOfValue? v).map entry

end FileRef

namespace MessageType

/-- The type that a value is. -/
def ofValue? (v : Value) : Option MessageType := v.text?.bind ofName?

end MessageType

namespace Message

/-- The message that a value is. -/
def ofValue? (v : Value) : Option Message := do
  let type ← required MessageType.ofValue? v "type"
  let content ← required TextContent.ofValue? v "content"
  let subs ← optional (listOf? text?) v "subs"
  let condition ← optional text? v "condition"
  return ⟨type, content, subs, condition⟩

end Message

namespace DirtyInfo

/-- The checksum that a value is. -/
def crcOfValue? (v : Value) : Option UInt32 :=
  (v.nat?.filter (· < UInt32.size)).map (·.toUInt32)

/-- The dirty state that a value is. -/
def ofValue? (v : Value) : Option DirtyInfo := do
  let crc ← required crcOfValue? v "crc"
  let util ← optional text? v "util"
  let detail ← optional TextContent.ofValue? v "detail"
  let itm ← optional nat? v "itm"
  let udr ← optional nat? v "udr"
  let nav ← optional nat? v "nav"
  return ⟨crc, util, detail, itm, udr, nav⟩

end DirtyInfo

/-- An entry: the name or pattern of the plugins it is about, and what it says about them. -/
structure Entry where
  name : String
  record : Record
  deriving Repr, DecidableEq, Inhabited

namespace Entry

/-- The entry that a value is. -/
def ofValue? (v : Value) : Option Entry := do
  let name ← required nonempty? v "name"
  let requirements ← optional (listOf? FileRef.ofValue?) v "req"
  let incompatibilities ← optional (listOf? FileRef.ofValue?) v "inc"
  let messages ← optional (listOf? Message.ofValue?) v "msg"
  let dirtyInfo ← optional (listOf? DirtyInfo.ofValue?) v "dirty"
  return ⟨name, requirements, incompatibilities, messages, dirtyInfo⟩

end Entry

end PluginAudit.Metadata
