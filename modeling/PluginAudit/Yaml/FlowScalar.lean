import PluginAudit.Text.Blank
import PluginAudit.Text.Digits
import PluginAudit.Text.Search
import PluginAudit.Text.Utf16
import PluginAudit.Yaml.Fault

/-!
# Texts within lines

A plain or quoted text may span several lines. They are folded: a line end becomes a space, and each
empty line a line feed instead; blanks around a line end do not count. In double quotes a backslash
writes a character by its name or its number.
-/

namespace PluginAudit.Yaml

open PluginAudit.Text

/-- Whether a character is a space or a tab. -/
def isSpace (c : Char) : Bool := c == ' ' || c == '\t'

/-- Drops the spaces and tabs a line starts with. -/
def dropSpaces (cs : List Char) : List Char := cs.dropWhile isSpace

/-- Drops the carriage return that belongs to the line's end, and the spaces and tabs before it. -/
def dropLineEnd (cs : List Char) : List Char :=
  let back := match cs.reverse with
    | '\r' :: back => back
    | back => back
  (back.dropWhile isSpace).reverse

/-- Folds the lines after the first; `sep` stands for the line ends so far that are not written. -/
def foldLines (sep : Char) : List (List Char) → List Char
  | [] => []
  | [last] => sep :: dropSpaces last
  | line :: lines =>
    match dropSpaces (dropLineEnd line) with
    | [] => if sep == '\n' then '\n' :: foldLines '\n' lines else foldLines '\n' lines
    | text => sep :: (text ++ foldLines ' ' lines)

/-- Folds the lines of a text. -/
def fold (cs : List Char) : List Char :=
  match fields (· == '\n') cs with
  | [] => []
  | [_] => cs
  | first :: lines => dropLineEnd first ++ foldLines ' ' lines

def plainText (cs : List Char) : Except Fault (List Char) :=
  if cs.head?.any fun c => "\t,%|>@\x60".toList.contains c then .error .plainStart
  else .ok (fold cs)

/-- The text between two quotes of a kind. -/
def unquote (quote : Char) (cs : List Char) : Except Fault (List Char) :=
  match cs.drop 1 with
  | [] => .error .quotation
  | inner => if inner.getLast? == some quote then .ok inner.dropLast else .error .quotation

/-- What a text in single quotes says: a quote inside is written twice. -/
def singleQuotedText (cs : List Char) : Except Fault (List Char) :=
  (unquote '\'' cs).map fun inner => replaceAll ['\'', '\''] ['\''] (fold inner)

/-! ## Double quotes -/

/-- The character that a letter after a backslash stands for. -/
def escaped? : Char → Option Char
  | '0' => some '\x00'
  | 'a' => some '\x07'
  | 'b' => some '\x08'
  | 'e' => some '\x1b'
  | 'f' => some '\x0c'
  | 'n' => some '\n'
  | 'r' => some '\r'
  | 't' => some '\t'
  | 'v' => some '\x0b'
  | 'N' => some '\u0085'
  | '_' => some '\u00a0'
  | 'L' => some '\u2028'
  | 'P' => some '\u2029'
  | ' ' => some ' '
  | '"' => some '"'
  | '/' => some '/'
  | '\\' => some '\\'
  | '\t' => some '\t'
  | _ => none

/-- The number of hexadecimal digits after a backslash and a letter. -/
def hexLength? : Char → Option Nat
  | 'x' => some 2
  | 'u' => some 4
  | 'U' => some 8
  | _ => none

/-- The units of a character by its number; half of a pair of units is one by itself. -/
def unitsOfCode? (n : Nat) : Option (List UInt16) :=
  if n < 0x10000 then some [n.toUInt16]
  else if n < 0x110000 then some (charUnits (Char.ofNat n))
  else none

def startsLineEnd : List Char → Bool
  | '\n' :: _ => true
  | '\r' :: '\n' :: _ => true
  | _ => false

/-- Drops blanks and line ends; the first part is the number of line ends. -/
def dropGap : List Char → Nat × List Char
  | '\r' :: '\n' :: cs => let (n, rest) := dropGap cs; (n + 1, rest)
  | '\n' :: cs => let (n, rest) := dropGap cs; (n + 1, rest)
  | ' ' :: cs => dropGap cs
  | '\t' :: cs => dropGap cs
  | cs => (0, cs)

/-- What follows a gap is no longer than the text. -/
theorem length_dropGap_le (cs : List Char) : (dropGap cs).2.length ≤ cs.length := by
  fun_induction dropGap cs <;> grind

theorem length_le_of_dropGap {cs rest : List Char} {n : Nat} (h : dropGap cs = (n, rest)) :
    rest.length ≤ cs.length := by
  have := length_dropGap_le cs
  rwa [h] at this

/-- What follows blanks is no longer than the text. -/
theorem length_dropSpaces_le (cs : List Char) : (dropSpaces cs).length ≤ cs.length :=
  (List.dropWhile_sublist isSpace).length_le

/-- Reads what stands between double quotes, as units, since a character may be written as a pair of
them. A backslash at the very end stands before the closing quote. -/
def unescape (cs : List Char) : Except Fault (List UInt16) :=
  match cs with
  | [] => .ok []
  | ['\\'] => .ok (charUnits '"')
  | '\\' :: c :: cs =>
    match escaped? c, hexLength? c with
    | some e, _ => (unescape cs).map (charUnits e ++ ·)
    | none, some n =>
      if cs.length < n then .error .quotation
      else match (hexValue? (cs.take n)).bind unitsOfCode? with
        | some us => (unescape (cs.drop n)).map (us ++ ·)
        | none => .error .quotation
    | none, none =>
      if c == '\n' then unescape (dropSpaces cs)
      else if startsLineEnd (c :: cs) then unescape (dropSpaces (cs.drop 1))
      else .error .quotation
  | c :: cs =>
    if startsLineEnd (c :: cs) then
      if c == '\r' then unescape cs
      else
        match h : dropGap cs with
        | (0, rest) => (unescape rest).map (charUnits ' ' ++ ·)
        | (n + 1, rest) => (unescape rest).map (List.replicate (n + 1) 10 ++ ·)
    else if isSpace c then
      let rest := dropSpaces cs
      if startsLineEnd rest then unescape rest
      else (unescape rest).map (units (c :: cs.takeWhile isSpace) ++ ·)
    else (unescape cs).map (charUnits c ++ ·)
  termination_by cs.length
  decreasing_by
    all_goals simp only [List.length_cons, List.length_drop]
    · omega
    · omega
    · have := length_dropSpaces_le cs
      omega
    · have := length_dropSpaces_le (cs.drop 1)
      rw [List.length_drop] at this
      omega
    · omega
    · exact Nat.lt_succ_of_le (length_le_of_dropGap h)
    · exact Nat.lt_succ_of_le (length_le_of_dropGap h)
    · exact Nat.lt_succ_of_le (length_dropSpaces_le cs)
    · exact Nat.lt_succ_of_le (length_dropSpaces_le cs)
    · omega

/-- What a text in double quotes says. -/
def doubleQuotedText (cs : List Char) : Except Fault (List Char) :=
  match unquote '"' cs with
  | .error f => .error f
  | .ok inner => (unescape inner).map ofUnits

end PluginAudit.Yaml
