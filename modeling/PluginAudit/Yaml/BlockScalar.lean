import PluginAudit.Text.Blank
import PluginAudit.Yaml.Fault

/-!
# Texts in blocks

A block of text stands in lines of its own below a header. The header says whether line ends are
kept or folded, how far the text is indented if its first line does not show it, and what becomes of
the line ends after the text.
-/

namespace PluginAudit.Yaml

open PluginAudit.Text

/-- What becomes of the line ends after a block of text. -/
inductive Chomping where
  | clip
  | strip
  | keep
  deriving Repr, DecidableEq, Inhabited

/-- The header of a block of text. -/
structure BlockHeader where
  folds : Bool
  /-- The indentation of the text relative to what is around it; zero if its first line shows it. -/
  indent : Nat := 0
  /-- What becomes of the line ends after the text. -/
  chomping : Option Chomping := none
  deriving Repr, DecidableEq, Inhabited

namespace BlockHeader

/-- Reads one more character of a header. -/
def read (h : BlockHeader) (c : Char) : Except Fault BlockHeader :=
  match c, h.chomping with
  | '-', none => .ok { h with chomping := some .strip }
  | '+', none => .ok { h with chomping := some .keep }
  | _, _ =>
    if '1' ≤ c && c ≤ '9' && h.indent = 0 then .ok { h with indent := c.toNat - 48 }
    else .error .blockHeader

def ofText (cs : List Char) : Except Fault BlockHeader :=
  (cs.drop 1).foldlM read { folds := cs.head? == some '>' }

end BlockHeader

/-- A line of a block: how far it is indented, and the rest of it. -/
structure BlockLine where
  /-- The number of spaces the line starts with. -/
  indent : Nat
  text : List Char
  deriving Repr, DecidableEq, Inhabited

namespace BlockLine

/-- The line that a text is. -/
def ofText (cs : List Char) : BlockLine :=
  ⟨(cs.takeWhile (· == ' ')).length, cs.dropWhile (· == ' ')⟩

/-- Whether a line holds nothing but its indentation. -/
def isEmpty (l : BlockLine) : Bool := l.text.isEmpty || l.text == ['\r']

/-- What follows the indentation, without the carriage return of the line's end. -/
def content (l : BlockLine) : List Char :=
  if l.text.getLast? == some '\r' then l.text.dropLast else l.text

/-- The spaces of a line beyond an indentation. -/
def extra (indent : Nat) (l : BlockLine) : List Char := List.replicate (l.indent - indent) ' '

end BlockLine

/-! ## Indentation -/

/-- The indentation of a block without an indicator, and the number of empty lines before its text,
given the indentation it has at least. No empty line before the text may be indented more than
it. -/
def textIndent (explicit : Bool) (indent count : Nat) : List BlockLine → Except Fault (Nat × Nat)
  | [] => .ok (indent, 0)
  | l :: ls =>
    if l.isEmpty then
      textIndent explicit (if explicit then indent else max indent l.indent) (count + 1) ls
    else if l.indent < indent then .error .missing
    else .ok (if explicit then indent else l.indent, count)

/-! ## Writing the text -/

/-- Writes lines with their line ends kept; the first is not preceded by any. -/
def literalLines (indent : Nat) (first : Bool) : List BlockLine → List Char
  | [] => []
  | l :: ls =>
    (if first then [] else ['\n']) ++ l.extra indent ++ l.content ++ literalLines indent false ls

/-- Writes lines folded. `sep` stands for the line ends so far that are not written, and `more` says
that the last line that is not empty is indented more than the text. -/
def foldedLines (indent : Nat) (sep : List Char) (more : Bool) : List BlockLine → List Char
  | [] => []
  | l :: ls =>
    if indent < l.indent || l.content.head? == some '\t' then
      let sep :=
        if sep == [' '] then ['\n'] else if !more && sep == ['\n'] then ['\n', '\n'] else sep
      sep ++ l.extra indent ++ l.content ++ foldedLines indent ['\n'] true ls
    else if l.content.isEmpty then
      if sep == ['\n'] then '\n' :: foldedLines indent sep more ls
      else foldedLines indent ['\n'] more ls
    else sep ++ l.content ++ foldedLines indent [' '] false ls

/-- The number of lines up to the last one that passes a test. -/
def lengthTo (test : BlockLine → Bool) (ls : List BlockLine) : Nat :=
  (ls.reverse.dropWhile fun l => !test l).length

/-- What a block says, its header and its text being given, and how far what is around it is
indented. Only at the top of a document may the text not be indented at all. -/
def blockText (header : BlockHeader) (atRoot : Bool) (around : Nat) (cs : List Char) :
    Except Fault (List Char) := do
  let lines := if cs.isEmpty then [] else (fields (· == '\n') cs).map BlockLine.ofText
  let stop := lengthTo (fun l => !l.isEmpty) lines
  let keeps := header.chomping == some .keep
  if stop = 0 then
    return if keeps && !lines.isEmpty then List.replicate (max 1 (lines.length - 1)) '\n' else []
  let (indent, before) ← textIndent (header.indent ≠ 0) (around + header.indent) 0 (lines.take stop)
  if indent = 0 && !atRoot then throw .indentation
  let stop := max stop (lengthTo (fun l => indent < l.indent) lines)
  let body := (lines.take stop).drop before
  if body.any fun l => !l.content.isEmpty && l.indent < indent then throw .indentation
  let text := ((lines.take before).flatMap fun l => l.extra indent ++ ['\n']) ++
    if header.folds then foldedLines indent [] false body else literalLines indent true body
  match header.chomping with
  | some .strip => return text
  | some .keep =>
    let text := text ++ (lines.drop stop).flatMap fun l => '\n' :: l.extra indent
    return if text.getLast? == some '\n' then text else text ++ ['\n']
  | _ => return text ++ ['\n']

end PluginAudit.Yaml
