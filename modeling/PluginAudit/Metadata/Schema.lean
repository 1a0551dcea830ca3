import PluginAudit.Metadata.Entry

/-!
# Schemas of metadata documents

A schema says which values are accepted, and what of them is kept: of a map the fields that the
schema names, in its order, and nothing else. `Schema.entry` is that of the items of a document's
list of plugins.
-/

namespace PluginAudit.Metadata

/-- A field that a schema names. -/
structure Field (σ : Type) where
  key : String
  /-- Whether the field has to be there. -/
  isRequired : Bool
  schema : σ

/-- What a value has to look like. -/
inductive Schema where
  /-- A text that passes a test. -/
  | text (test : String → Bool)
  /-- A number that passes a test. -/
  | number (test : Binary64 → Bool)
  /-- A list with at least so many items. -/
  | list (least : Nat) (item : Schema)
  /-- A text that passes a test, or else what another schema accepts. -/
  | textOr (test : String → Bool) (other : Schema)
  /-- A map with certain fields; it may have others. -/
  | map (fields : List (Field Schema))

namespace Schema

mutual

/-- What is kept of a value, if it is accepted. -/
def accept? : Schema → Value → Option Value
  | text test, .text s => if test s then some (.text s) else none
  | number test, .number x => if test x then some (.number x) else none
  | list least item, .list vs =>
    if least ≤ vs.length then (vs.mapM (accept? item)).map .list else none
  | textOr test other, v =>
    match v with
    | .text s => if test s then some (.text s) else accept? other (.text s)
    | v => accept? other v
  | map fields, .map entries => (acceptFields? fields entries).map .map
  | _, _ => none

/-- What is kept of the entries of a map: the fields that are named. -/
def acceptFields? : List (Field Schema) → List (String × Value) → Option (List (String × Value))
  | [], _ => some []
  | ⟨key, isRequired, schema⟩ :: fields, entries =>
    match entries.lookup key with
    | none => if isRequired then none else acceptFields? fields entries
    | some v => do
      let kept ← accept? schema v
      let others ← acceptFields? fields entries
      return (key, kept) :: others

end

mutual

/-- Whether no map is said twice to have a field. -/
def namesOnce : Schema → Bool
  | text _ => true
  | number _ => true
  | list _ item => item.namesOnce
  | textOr _ other => other.namesOnce
  | map fields => fieldsNamedOnce fields

def fieldsNamedOnce : List (Field Schema) → Bool
  | [] => true
  | ⟨key, _, schema⟩ :: fields =>
    schema.namesOnce && fields.all (·.key ≠ key) && fieldsNamedOnce fields

end

/-! ## The schema of an entry -/

def anyText : Schema := text fun _ => true

def nonempty : Schema := text (· ≠ "")

def localizedText : Schema := map [⟨"lang", true, anyText⟩, ⟨"text", true, anyText⟩]

def textContent : Schema := textOr (fun _ => true) (list 1 localizedText)

def fileEntry : Schema :=
  map [⟨"name", true, nonempty⟩, ⟨"display", false, anyText⟩, ⟨"detail", false, textContent⟩,
    ⟨"condition", false, anyText⟩]

def fileRef : Schema := textOr (· ≠ "") fileEntry

def message : Schema :=
  map [⟨"type", true, text fun s => (MessageType.ofName? s).isSome⟩,
    ⟨"content", true, textContent⟩, ⟨"subs", false, list 0 anyText⟩,
    ⟨"condition", false, anyText⟩]

def crc : Schema := number fun x => x.toNat?.any (· < UInt32.size)

def count : Schema := number fun x => x.toNat?.isSome

def dirtyInfo : Schema :=
  map [⟨"crc", true, crc⟩, ⟨"util", false, anyText⟩, ⟨"detail", false, textContent⟩,
    ⟨"itm", false, count⟩, ⟨"udr", false, count⟩, ⟨"nav", false, count⟩]

def entry : Schema :=
  map [⟨"name", true, nonempty⟩, ⟨"req", false, list 0 fileRef⟩, ⟨"inc", false, list 0 fileRef⟩,
    ⟨"msg", false, list 0 message⟩, ⟨"dirty", false, list 0 dirtyInfo⟩]

end Schema

end PluginAudit.Metadata
