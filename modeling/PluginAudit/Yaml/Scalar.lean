import PluginAudit.Value
import PluginAudit.Yaml.Fault
import PluginAudit.Yaml.Numeral

/-!
# What scalars mean

A plain text without a tag is nothing, a truth value, a number or a date if it looks like one, and
otherwise a text. A tag asks for one of these; where the text does not look like it, it stays a
text. As a key, the text `<<` asks for other maps to be merged into this one.
-/

namespace PluginAudit.Yaml

open PluginAudit.Text

/-- A scalar that has been read. -/
structure Scalar where
  value : Value
  /-- As a key, it asks for maps to be merged. -/
  merges : Bool := false
  deriving Repr, Inhabited

/-- A kind of scalar, and a tag for it. -/
inductive ScalarKind where
  | null
  | bool
  | int
  | float
  /-- A date, perhaps with a time. -/
  | timestamp
  deriving Repr, DecidableEq, Inhabited

/-! ## Dates -/

/-- Reads at least `least` and at most `most` digits. -/
def readDigits? (least most : Nat) (cs : List Char) : Option (List Char) :=
  let n := ((cs.take most).takeWhile isDigit).length
  if least ≤ n then some (cs.drop n) else none

def readChar? (c : Char) : List Char → Option (List Char)
  | d :: cs => if c == d then some cs else none
  | [] => none

/-- Whether a text is a difference to universal time. -/
def isZone (cs : List Char) : Bool :=
  match cs with
  | ['Z'] => true
  | s :: cs =>
    (s == '+' || s == '-') &&
      match cs with
      | [h] => isDigit h
      | [a, b] => '0' ≤ a && a ≤ '2' && isDigit b
      | _ =>
        -- the minutes are the last two digits
        let hours := cs.take (cs.length - 2)
        let minutes := cs.drop (cs.length - 2)
        minutes.all isDigit &&
          match hours with
          | [h] => isDigit h
          | [h, ':'] => isDigit h
          | [a, b] => '0' ≤ a && a ≤ '2' && isDigit b
          | [a, b, ':'] => '0' ≤ a && a ≤ '2' && isDigit b
          | _ => false
  | [] => false

/-- Whether a text is a time, perhaps with a zone. -/
def isTime (cs : List Char) : Bool :=
  match (do
    let cs ← readDigits? 1 2 cs
    let cs ← readDigits? 1 2 (← readChar? ':' cs)
    readDigits? 1 2 (← readChar? ':' cs)) with
  | none => false
  | some rest =>
    let rest := match rest with
      | '.' :: d :: ds => if isDigit d then ds.dropWhile isDigit else rest
      | _ => rest
    rest.isEmpty || isZone (rest.dropWhile fun c => c == ' ' || c == '\t')

/-- Whether a text is a date, perhaps with a time. -/
def isTimestamp (cs : List Char) : Bool :=
  match (do
    let cs ← readDigits? 4 4 cs
    let cs ← readDigits? 1 2 (← readChar? '-' cs)
    readDigits? 1 2 (← readChar? '-' cs)) with
  | none => false
  | some [] => true
  | some (c :: cs) =>
    if c == 't' || c == 'T' then isTime cs
    else (c == ' ' || c == '\t') && isTime (cs.dropWhile fun c => c == ' ' || c == '\t')

/-! ## Kinds of scalars -/

/-- Whether a text is one of some words. -/
def isWord (cs : List Char) (ws : List String) : Bool := ws.contains (String.ofList cs)

/-- The truth value that a text names. -/
def truth? (isOld : Bool) (cs : List Char) : Option Bool :=
  if isWord cs ["true", "True", "TRUE"] then some true
  else if isWord cs ["false", "False", "FALSE"] then some false
  else if isOld && isWord cs ["Y", "y", "yes", "Yes", "YES", "on", "On", "ON"] then some true
  else if isOld && isWord cs ["N", "n", "no", "No", "NO", "off", "Off", "OFF"] then some false
  else none

namespace ScalarKind

/-- The kinds in the order in which they are tried on a plain text; a date is none in the newer
version. -/
def tried (isOld : Bool) : List ScalarKind :=
  if isOld then [null, bool, int, float, timestamp] else [null, bool, int, float]

/-- The value of a text as a scalar of a kind, if it looks like one. -/
def value? (isOld : Bool) (kind : ScalarKind) (cs : List Char) : Option Value :=
  match kind with
  | null => if cs.isEmpty || isWord cs ["~", "null", "Null", "NULL"] then some .null else none
  | bool => (truth? isOld cs).map .bool
  | int =>
    if isOld then
      ((oldIntNumber? cs).or (if cs.contains '.' then none else sixtyNumber? cs)).map .number
    else (intNumber? cs).map .number
  | float =>
    ((specialNumber? cs).or <| (floatNumber? isOld cs).or <|
      if isOld && cs.contains '.' then sixtyNumber? cs else none).map .number
  | timestamp => if isTimestamp cs then some .other else none

/-- The kind that a tag asks for. -/
def ofTag? : String → Option ScalarKind
  | "tag:yaml.org,2002:null" => some null
  | "tag:yaml.org,2002:bool" => some bool
  | "tag:yaml.org,2002:int" => some int
  | "tag:yaml.org,2002:float" => some float
  | "tag:yaml.org,2002:timestamp" => some timestamp
  | _ => none

end ScalarKind

namespace Scalar

/-- Whether a text asks for maps to be merged. -/
def isMergeText (cs : List Char) : Bool := cs == ['<', '<']

/-- The scalar that is a text; written without quotes it may ask for a merge. -/
def ofText (isPlain : Bool) (cs : List Char) : Scalar :=
  ⟨.text (String.ofList cs), isPlain && isMergeText cs⟩

/-- The scalar that a plain text without a tag is. -/
def ofPlain (isOld atKey : Bool) (cs : List Char) : Scalar :=
  if atKey && isMergeText cs then ⟨.other, true⟩
  else match (ScalarKind.tried isOld).findSome? fun k => k.value? isOld cs with
    | some v => ⟨v, false⟩
    | none => ofText true cs

/-- The scalar that a text with a tag is. -/
def ofTagged (isOld isPlain : Bool) (tag : String) (cs : List Char) : Except Fault Scalar :=
  if tag = "tag:yaml.org,2002:merge" then
    if isMergeText cs then .ok ⟨.other, true⟩
    else .ok (if isOld then ofText isPlain cs else ⟨.other, isPlain⟩)
  else if tag = "tag:yaml.org,2002:binary" then .ok ⟨.other, false⟩
  else match ScalarKind.ofTag? tag with
    | none => .ok (ofText isPlain cs)
    | some kind =>
      match kind.value? isOld cs with
      | some v => .ok ⟨v, false⟩
      | none => if kind = .timestamp && !isOld then .error .tag else .ok (ofText isPlain cs)

/-- Whether two scalars are equal as keys. No number differs from itself, nor does a merge from
another. -/
def sameKey (a b : Scalar) : Bool :=
  match a.value, b.value with
  | .null, .null => true
  | .bool x, .bool y => x == y
  | .text x, .text y => x == y
  | .number x, .number y => x.same y
  | _, _ => false

end Scalar

end PluginAudit.Yaml
