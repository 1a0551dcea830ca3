import PluginAudit.Text.Blank
import PluginAudit.Text.Digits
import PluginAudit.Yaml.Fault

/-!
# Directives and the names of tags

The lines before a document may choose the version of the language and give short handles to
beginnings of tags. A tag is written with such a handle, or in full between angle brackets.
-/

namespace PluginAudit.Yaml

open PluginAudit.Text

/-- What the directives before a document say. -/
structure Directives where
  /-- The older version 1.1 is to be read. -/
  isOld : Bool := false
  /-- The handles with what they stand for, the latest first. -/
  handles : List (String × String) := [("!!", "tag:yaml.org,2002:")]
  deriving Repr, DecidableEq, Inhabited

namespace Directives

/-- Whether a text is a number of a version: digits, a point and digits. -/
def isVersionNumber (cs : List Char) : Bool :=
  isNumeral (cs.takeWhile isDigit) && match cs.dropWhile isDigit with
    | '.' :: minor => isNumeral minor
    | _ => false

/-- Takes in a directive; one that is not known is passed over. -/
def add (d : Directives) (line : List Char) : Except Fault Directives :=
  match words (fun c => c == ' ' || c == '\t') (trim line) with
  | [] => .ok d
  | name :: parts =>
    if name = "%TAG".toList then
      match parts with
      | [handle, start] =>
        .ok { d with handles := (String.ofList handle, String.ofList start) :: d.handles }
      | _ => .error .directive
    else if name = "%YAML".toList then
      match parts with
      | [version] =>
        if version = "1.1".toList then .ok { d with isOld := true }
        else if version = "1.2".toList then .ok { d with isOld := false }
        else if isVersionNumber version then .ok d
        else .error .directive
      | _ => .error .directive
    else .ok d

/-- The bytes of a text in which a percent sign and two hexadecimal digits write a byte. -/
def percentBytes? : List Char → Option (List UInt8)
  | [] => some []
  | ['%'] => none
  | ['%', _] => none
  | '%' :: a :: b :: cs => do
    let n ← hexValue? [a, b]
    let bytes ← percentBytes? cs
    return n.toUInt8 :: bytes
  | c :: cs => do
    let bytes ← percentBytes? cs
    return (String.singleton c).toUTF8.toList ++ bytes

/-- The text that a percent sign and two hexadecimal digits for a byte write. -/
def percentDecode? (cs : List Char) : Option String :=
  (percentBytes? cs).bind fun bytes => String.fromUTF8? ⟨bytes.toArray⟩

/-- The name of a tag in full: a tag that is a mark alone keeps it, as does one that is not in any
known space of names. -/
def tagName (d : Directives) (source : List Char) : Except Fault String :=
  match source with
  | ['!'] => .ok "!"
  | '!' :: '<' :: cs =>
    if cs.getLast? ≠ some '>' || cs = "!>".toList || cs = "!!>".toList then .error .tag
    else .ok (String.ofList cs.dropLast)
  | _ =>
    let suffix := (source.reverse.takeWhile (· ≠ '!')).reverse
    let handle := String.ofList (source.take (source.length - suffix.length))
    if suffix.isEmpty then .error .tag
    else match d.handles.lookup handle with
      | some start =>
        if start.isEmpty then if handle = "!" then .ok (String.ofList source) else .error .tag
        else match percentDecode? suffix with
          | some name => .ok (start ++ name)
          | none => .error .tag
      | none => if handle = "!" then .ok (String.ofList source) else .error .tag

end Directives

end PluginAudit.Yaml
