import PluginAudit.Text.Utf16
import PluginAudit.Yaml.Piece

/-!
# Lexemes

A lexeme is a piece of a YAML text with its kind, its offset, and the indentation of the line up to
it. The kind shows in the first character, but for the pieces that are marks as a whole.
-/

namespace PluginAudit.Yaml

inductive Kind where
  | byteOrderMark
  /-- A document begins without a mark. -/
  | documentMode
  /-- A flow collection is given up. -/
  | flowGivenUp
  /-- The mark `---`. -/
  | documentStart
  /-- The mark `...`. -/
  | documentEnd
  | newline
  /-- The mark of a list's item. -/
  | seqItem
  | explicitKey
  /-- The mark of a key's value. -/
  | mapValue
  /-- The beginning of a map in braces. -/
  | flowMapStart
  /-- The end of a map in braces. -/
  | flowMapEnd
  /-- The beginning of a list in brackets. -/
  | flowSeqStart
  /-- The end of a list in brackets. -/
  | flowSeqEnd
  | comma
  | space
  | comment
  | directive
  | alias
  | anchor
  | tag
  /-- A plain or block scalar's text. -/
  | scalar
  | singleQuoted
  | doubleQuoted
  /-- The header of a block scalar. -/
  | blockHeader
  deriving Repr, DecidableEq, Inhabited

namespace Kind

/-- The kind of a piece's text. -/
def ofText? : List Char → Option Kind
  | ['\uFEFF'] => some byteOrderMark
  | ['-', '-', '-'] => some documentStart
  | ['.', '.', '.'] => some documentEnd
  | ['\n'] => some newline
  | ['\r', '\n'] => some newline
  | ['-'] => some seqItem
  | ['?'] => some explicitKey
  | [':'] => some mapValue
  | ['{'] => some flowMapStart
  | ['}'] => some flowMapEnd
  | ['['] => some flowSeqStart
  | [']'] => some flowSeqEnd
  | [','] => some comma
  | c :: _ =>
    match c with
    | ' ' => some space
    | '\t' => some space
    | '#' => some comment
    | '%' => some directive
    | '*' => some .alias
    | '&' => some anchor
    | '!' => some tag
    | '\'' => some singleQuoted
    | '"' => some doubleQuoted
    | '|' => some blockHeader
    | '>' => some blockHeader
    | _ => none
  | [] => some newline

/-- Whether lexemes of a kind separate others and mean nothing by themselves. -/
def isGap : Kind → Bool
  | space => true
  | comment => true
  | newline => true
  | _ => false

/-- Whether a lexeme of a kind is a scalar on its own or an alias. -/
def isFlowScalar : Kind → Bool
  | .alias => true
  | scalar => true
  | singleQuoted => true
  | doubleQuoted => true
  | _ => false

end Kind

/-- A piece of a text with its kind and its place. -/
structure Lexeme where
  kind : Kind
  source : List Char
  /-- The indentation of the line up to the lexeme. -/
  indent : Nat
  /-- The number of 16-bit units before it. -/
  offset : Nat
  deriving Repr, DecidableEq, Inhabited

namespace Lexeme

/-- The number of 16-bit units up to the end of the lexeme. -/
def stop (l : Lexeme) : Nat := l.offset + (Text.units l.source).length

/-- Whether a list has a lexeme of a kind. -/
def has (kind : Kind) (ls : List Lexeme) : Bool := ls.any (·.kind = kind)

end Lexeme

end PluginAudit.Yaml
