import PluginAudit.Number.Binary64

/-!
# Values of documents

What a document says, once its notation has been read: texts, numbers, lists and maps of such
values. Which keys of a map mean anything is not decided here.
-/

namespace PluginAudit

inductive Value where
  | null
  | bool (b : Bool)
  | number (x : Binary64)
  | text (s : String)
  | list (items : List Value)
  /-- A map; its keys are distinct. -/
  | map (entries : List (String × Value))
  /-- A value of some other kind, such as a date. -/
  | other
  deriving Repr, Inhabited

namespace Value

/-- The value under a key; none for anything but a map with that key. -/
def field? (v : Value) (key : String) : Option Value :=
  match v with
  | map entries => entries.lookup key
  | _ => none

/-- The text that a value is. -/
def text? : Value → Option String
  | text s => some s
  | _ => none

/-- The list that a value is. -/
def list? : Value → Option (List Value)
  | list items => some items
  | _ => none

/-- The natural number that a value is. -/
def nat? : Value → Option Nat
  | number x => x.toNat?
  | _ => none

/-- Whether a value is a map. -/
def isMap : Value → Bool
  | map _ => true
  | _ => false

end Value

end PluginAudit
