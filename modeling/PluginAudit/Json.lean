import PluginAudit.Number.Shortest

/-!
# Writing JSON

Reports for other programs are written as JSON, each item on a line of its own and indented by two
spaces for every list or object it is in.
-/

namespace PluginAudit

inductive Json where
  | bool (b : Bool)
  | number (n : Nat)
  | text (s : String)
  | list (items : List Json)
  /-- An object, its fields in order. -/
  | object (fields : List (String × Json))
  deriving Repr, Inhabited

namespace Json

/-- A hexadecimal digit in lower case. -/
def hexDigit (n : Nat) : Char := Char.ofNat (if n < 10 then 48 + n else 87 + n)

/-- How a character is written inside a text. -/
def escape (c : Char) : List Char :=
  match c with
  | '"' => ['\\', '"']
  | '\\' => ['\\', '\\']
  | '\n' => ['\\', 'n']
  | '\r' => ['\\', 'r']
  | '\t' => ['\\', 't']
  | '\x08' => ['\\', 'b']
  | '\x0c' => ['\\', 'f']
  | c =>
    if c.toNat < 32 then
      ['\\', 'u', '0', '0', hexDigit (c.toNat / 16), hexDigit (c.toNat % 16)]
    else [c]

def quote (s : String) : String := "\"" ++ String.ofList (s.toList.flatMap escape) ++ "\""

/-- The beginning of a line at a depth. -/
def lineStart (depth : Nat) : String := "\n" ++ String.ofList (List.replicate (2 * depth) ' ')

/-- Writes items between brackets, each on a line of its own. -/
def bracket (opening closing : String) (depth : Nat) (items : List String) : String :=
  match items with
  | [] => opening ++ closing
  | items =>
    opening ++ lineStart (depth + 1) ++ ("," ++ lineStart (depth + 1)).intercalate items ++
      lineStart depth ++ closing

mutual

/-- How a value is written at a depth. -/
def render (depth : Nat) : Json → String
  | .bool b => if b then "true" else "false"
  | .number n => Shortest.text n
  | .text s => quote s
  | .list items => bracket "[" "]" depth (renderItems (depth + 1) items)
  | .object fields => bracket "\x7b" "\x7d" depth (renderFields (depth + 1) fields)

/-- How the items of a list are written. -/
def renderItems (depth : Nat) : List Json → List String
  | [] => []
  | j :: js => render depth j :: renderItems depth js

/-- How the fields of an object are written. -/
def renderFields (depth : Nat) : List (String × Json) → List String
  | [] => []
  | (k, j) :: fields => (quote k ++ ": " ++ render depth j) :: renderFields depth fields

end

end Json

end PluginAudit
